import Mathlib.Data.List.Nodup
import Mathlib.Data.List.TakeWhile
import PatchScript.Proofs.Files.Disks

/-!
# Disks that get directories and files

A disk is a tree if its table has one entry for each place and if there is a directory above each
place that there is (`Disk.IsTree`).  It remains one where a directory is made or a file is written
(`Disk.IsTree.put`).

To make directories is to leave all files as they are and to make nothing else (`Disk.Spreads`).  If
it succeeds, the path leads to the last of the directories (`Disk.locate_makeDirectories`).
-/

namespace PatchScript.Files

variable {d d' d'' : Disk} {p : DiskPath} {place place' : Place} {name : String} {e : Entry}

/-! ## Paths of a directory and a name -/

/-- A text that is looked up as a name. -/
structure IsPart (name : String) : Prop where
  slash : '/' ∉ name.toList
  nonempty : name ≠ ""
  notHere : name ≠ "."
  notUp : name ≠ ".."

namespace DiskPath

/-- A name does not end before its first character. -/
theorem reverse_slash (a : String) (hname : '/' ∉ name.toList) :
    (∀ c ∈ name.toList.reverse, (c != '/') = true) ∧
      (a ++ "/" ++ name).toList.reverse = name.toList.reverse ++ '/' :: a.toList.reverse := by
  refine ⟨fun c hc => bne_iff_ne.mpr ?_, by simp⟩
  rintro rfl
  exact hname (List.mem_reverse.mp hc)

theorem name_slash (a : String) (hname : '/' ∉ name.toList) :
    (DiskPath.mk (a ++ "/" ++ name)).name = name := by
  obtain ⟨hall, hreverse⟩ := reverse_slash a hname
  rw [DiskPath.name, Text.afterLast, hreverse, List.takeWhile_append_of_pos hall,
    List.takeWhile_cons_of_neg (by simp), List.append_nil, List.reverse_reverse,
    String.ofList_toList]

/-- What is before the last slash is the parent, if there is anything. -/
theorem parent_slash (a : String) (hname : '/' ∉ name.toList) :
    (DiskPath.mk (a ++ "/" ++ name)).parent = if a = "" then ⟨"/"⟩ else ⟨a⟩ := by
  obtain ⟨hall, hreverse⟩ := reverse_slash a hname
  have hdrop : (a ++ "/" ++ name).toList.reverse.dropWhile (· != '/') =
      '/' :: a.toList.reverse := by
    rw [hreverse, List.dropWhile_append_of_pos hall, List.dropWhile_cons_of_neg (by simp)]
  have hempty : a.toList.reverse = [] ↔ a = "" :=
    List.reverse_eq_nil_iff.trans String.toList_eq_nil_iff
  rw [parent, hdrop]
  split
  · contradiction
  · rename_i hone
    rw [if_pos (hempty.mp (List.cons.inj hone).2)]
  · rename_i hne hcons
    obtain ⟨rfl, rfl⟩ := List.cons.inj hcons
    rw [if_neg fun ha => hne rfl (hempty.mpr ha), List.reverse_reverse, String.ofList_toList]

theorem isAccepted_append {a b : String} (h : (DiskPath.mk (a ++ b)).isAccepted) :
    (DiskPath.mk a).isAccepted := by
  rw [isAccepted, Bool.and_eq_true, decide_eq_true_eq] at h ⊢
  simp only [String.utf8ByteSize_append, String.toList_append, List.all_append,
    Bool.and_eq_true] at h
  exact ⟨Nat.le_trans (Nat.le_add_right _ _) h.1, h.2.1⟩

/-- A path with a name behind it, and the path that it is with a slash at its end. -/
theorem join_cases (hp : p.text ≠ "") (hname : '/' ∉ name.toList) :
    (p.text.toList.getLast? ≠ some '/' ∧ p.join name = ⟨p.text ++ "/" ++ name⟩) ∨
      ∃ a, p.text = a ++ "/" ∧ p.join name = ⟨a ++ "/" ++ name⟩ := by
  have hrelative : ¬(DiskPath.mk name).isAbsolute := fun h =>
    hname (List.mem_of_mem_head? (of_decide_eq_true h))
  rw [join, if_neg hrelative]
  split
  · rename_i hlast
    exact absurd (String.toList_eq_nil_iff.mp (List.getLast?_eq_none_iff.mp hlast)) hp
  · rename_i hlast
    obtain ⟨before, hbefore⟩ := List.getLast?_eq_some_iff.mp hlast
    have htext : p.text = String.ofList before ++ "/" := by
      rw [← String.toList_inj, hbefore]
      simp
    exact .inr ⟨_, htext, by rw [← htext]⟩
  · rename_i c hlast
    refine .inl ⟨?_, rfl⟩
    rw [hlast]
    rintro ⟨⟩
    contradiction

theorem join_ne_empty (hp : p.text ≠ "") (hname : '/' ∉ name.toList) : (p.join name).text ≠ "" := by
  rcases join_cases hp hname with ⟨-, hjoin⟩ | ⟨a, -, hjoin⟩ <;> simp [hjoin]

/-- A path with a name behind it does not end with a slash. -/
theorem getLast?_join (hp : p.text ≠ "") (hname : IsPart name) :
    (p.join name).text.toList.getLast? ≠ some '/' := by
  obtain ⟨a, hjoin⟩ : ∃ a, p.join name = ⟨a ++ name⟩ := by
    rcases join_cases hp hname.slash with ⟨-, hjoin⟩ | ⟨a, -, hjoin⟩
    · exact ⟨_, hjoin⟩
    · exact ⟨_, hjoin⟩
  have hchars : name.toList ≠ [] := fun h => hname.nonempty (String.toList_eq_nil_iff.mp h)
  rw [hjoin, String.toList_append, List.getLast?_append_of_ne_nil _ hchars]
  exact fun h => hname.slash (List.mem_of_getLast? h)

end DiskPath

namespace Disk

theorem isAccepted_of_locate (h : d.locate p = some place) : p.isAccepted := by
  rw [locate] at h
  split at h
  · cases h
  · rename_i hp
    exact not_not.mp (not_or.mp hp).2

/-- A name behind a path leads on from where the path leads. -/
theorem locate_join (hne : p.text ≠ "") (hname : '/' ∉ name.toList)
    (hp : (p.join name).isAccepted) :
    d.locate (p.join name) = (d.locate p).bind fun place => d.step place name := by
  have slash (a : String) {name : String} (hname : '/' ∉ name.toList)
      (hp : (DiskPath.mk (a ++ "/" ++ name)).isAccepted) : d.locate ⟨a ++ "/" ++ name⟩ =
        (d.locate (if a = "" then ⟨"/"⟩ else ⟨a⟩)).bind fun place => d.step place name := by
    rw [locate_eq hp (by simp), DiskPath.name_slash a hname, DiskPath.parent_slash a hname]
  rcases DiskPath.join_cases hne hname with ⟨-, hjoin⟩ | ⟨a, htext, hjoin⟩
  · rw [hjoin] at hp ⊢
    rw [slash p.text hname hp, if_neg hne]
  · -- What is behind a slash at the end leads nowhere else.
    have hslash : p = ⟨a ++ "/" ++ ""⟩ := congrArg DiskPath.mk (by rw [htext, String.append_empty])
    rw [hjoin] at hp ⊢
    have hpath : (DiskPath.mk (a ++ "/" ++ "")).isAccepted := by
      rw [String.append_empty]
      exact DiskPath.isAccepted_append hp
    rw [slash a hname hp, hslash, slash a (by simp) hpath, Option.bind_assoc]
    exact congrArg _ (funext fun place => (step_of_same (.inl rfl) place name).symm)

/-! ## Trees -/

/-- A table that is a tree: it has one entry for each place, and there is a directory above. -/
structure IsTree (d : Disk) : Prop where
  nodup : (d.entries.map (·.1)).Nodup
  above {place : Place} {name : String} : (d.entry? (place ++ [name])).isSome →
    d.entry? place = some .directory

/-- The file at a place. -/
def file? (d : Disk) (place : Place) : Option Entry :=
  match d.entry? place with
  | some .directory | none => none
  | some e => some e

theorem file?_of_directory (h : d.entry? place = some .directory) : d.file? place = none := by
  rw [file?, h]

theorem file?_of_none (h : d.entry? place = none) : d.file? place = none := by
  rw [file?, h]

theorem isSome_of_file? (h : (d.file? place).isSome) : (d.entry? place).isSome := by
  by_contra hnone
  rw [file?_of_none (Option.not_isSome_iff_eq_none.mp hnone)] at h
  cases h

theorem entry_of_file? (h : d.file? place = some e) : d.entry? place = some e := by
  rw [file?] at h
  split at h
  · cases h
  · cases h
  · rw [← h]
    assumption

/-- What is no file is a directory, or nothing. -/
theorem entry_of_file?_eq_none (h : d.file? place = none) :
    d.entry? place = some .directory ∨ d.entry? place = none := by
  rw [file?] at h
  split at h
  · rename_i hentry
    exact .inl hentry
  · rename_i hentry
    exact .inr hentry
  · cases h

theorem file?_put (hplace : place ≠ []) (e : Entry) (place' : Place) :
    (d.put place e).file? place' =
      if place' = place then (if e = .directory then none else some e) else d.file? place' := by
  rw [file?, entry_put hplace]
  by_cases hsame : place' = place
  · rw [if_pos hsame, if_pos hsame]
    cases e <;> rfl
  · rw [if_neg hsame, if_neg hsame]
    rfl

theorem entry?_append (place : Place) (name : String) : d.entry? (place ++ [name]) =
    (d.entries.find? (·.1 == place ++ [name])).map (·.2) := by
  cases place <;> rfl

theorem isSome_entry?_iff : (d.entry? (place ++ [name])).isSome ↔
    ∃ old ∈ d.entries, old.1 = place ++ [name] := by
  rw [entry?_append, Option.isSome_map, List.find?_isSome]
  simp only [beq_iff_eq]

theorem isTree_iff : d.IsTree ↔ (d.entries.map (·.1)).Nodup ∧
    ∀ old ∈ d.entries, old.1 ≠ [] → d.entry? old.1.dropLast = some .directory := by
  constructor
  · refine fun h => ⟨h.nodup, fun old hold hne => ?_⟩
    refine @IsTree.above d h old.1.dropLast (old.1.getLast hne) ?_
    exact isSome_entry?_iff.mpr ⟨old, hold, (List.dropLast_append_getLast hne).symm⟩
  · rintro ⟨hnodup, habove⟩
    refine ⟨hnodup, fun hthere => ?_⟩
    obtain ⟨old, hold, hkey⟩ := isSome_entry?_iff.mp hthere
    have hplace := habove old hold (by simp [hkey])
    rwa [hkey, List.dropLast_concat] at hplace

instance (d : Disk) : Decidable d.IsTree := decidable_of_iff _ isTree_iff.symm

/-- The names in a directory are those of what is there. -/
theorem mem_namesIn : name ∈ d.namesIn place ↔ (d.entry? (place ++ [name])).isSome := by
  rw [isSome_entry?_iff, namesIn, List.mem_filterMap]
  constructor
  · rintro ⟨old, hold, hname⟩
    obtain ⟨hplace, hlast⟩ := Option.ite_none_right_eq_some.mp hname
    exact ⟨old, hold, by rw [← hplace, List.dropLast_append_getLast? _ hlast]⟩
  · rintro ⟨old, hold, hkey⟩
    exact ⟨old, hold, by simp [hkey]⟩

theorem IsTree.nodup_namesIn (h : d.IsTree) (place : Place) : (d.namesIn place).Nodup := by
  have hmap : d.namesIn place = (d.entries.map (·.1)).filterMap fun p =>
      if p.dropLast = place then p.getLast? else none := by
    rw [namesIn, List.filterMap_map]
    rfl
  rw [hmap]
  refine h.nodup.filterMap fun q q' name hq hq' => ?_
  obtain ⟨hplace, hlast⟩ := Option.ite_none_right_eq_some.mp hq
  obtain ⟨hplace', hlast'⟩ := Option.ite_none_right_eq_some.mp hq'
  rw [← List.dropLast_append_getLast? _ hlast, ← List.dropLast_append_getLast? _ hlast', hplace,
    hplace']

/-- In a tree nothing is in a directory that is missing. -/
theorem IsTree.missing (h : d.IsTree) (hplace : d.entry? place = none) (name : String) :
    d.entry? (place ++ [name]) = none := by
  by_contra hthere
  have habove := h.above (Option.isSome_iff_ne_none.mpr hthere)
  rw [hplace] at habove
  cases habove

/-- In a tree there is something wherever a path leads. -/
theorem IsTree.isSome_of_locate (h : d.IsTree) (hlocate : d.locate p = some place) :
    (d.entry? place).isSome := by
  obtain ⟨above, -, habove, hstep⟩ := locate_parent hlocate
  rw [step, if_neg (not_not.mpr habove)] at hstep
  split at hstep
  · cases hstep
    rw [habove]
    rfl
  · split at hstep
    · cases hstep
      rcases List.eq_nil_or_concat above with rfl | ⟨up, name, rfl⟩
      · rfl
      · rw [List.concat_eq_append] at habove ⊢
        rw [List.dropLast_concat, h.above (by rw [habove]; rfl)]
        rfl
    · obtain ⟨hthere, hsame⟩ := Option.ite_none_right_eq_some.mp hstep
      cases hsame
      exact hthere

/-- A tree gets a directory, or a text in a new file or an old one. -/
theorem IsTree.put (h : d.IsTree) (hplace : d.entry? place = some .directory)
    (hname : d.entry? (place ++ [name]) ≠ some .directory) (e : Entry) :
    (d.put (place ++ [name]) e).IsTree where
  nodup := by
    rw [Disk.put]
    split
    · have hkeys : (d.entries.map fun old => if old.1 = place ++ [name] then (place ++ [name], e)
          else old).map (·.1) = d.entries.map (·.1) := by
        rw [List.map_map]
        refine List.map_congr_left fun old _ => ?_
        rw [Function.comp_apply]
        split
        · exact Eq.symm ‹_›
        · rfl
      rw [hkeys]
      exact h.nodup
    · rename_i hnone
      rw [List.map_append, List.map_singleton]
      refine List.nodup_append.mpr ⟨h.nodup, List.nodup_singleton _, ?_⟩
      rintro _ hkey _ hsame rfl
      obtain ⟨old, hold, hold'⟩ := List.mem_map.mp hkey
      exact hnone (isSome_entry?_iff.mpr ⟨old, hold, hold'.trans (List.mem_singleton.mp hsame)⟩)
  above {place'} {name'} hthere := by
    have hne : place ++ [name] ≠ [] := by simp
    rw [entry_put hne] at hthere ⊢
    have hplace' : d.entry? place' = some .directory := by
      split at hthere
      · rename_i hsame
        obtain ⟨rfl, -⟩ := List.append_inj' hsame rfl
        exact hplace
      · exact h.above hthere
    rw [if_neg, hplace']
    rintro rfl
    exact hname hplace'

/-! ## Making directories -/

/-- The other disk has all that the one has, and is a tree if that is. -/
structure Lasts (d d' : Disk) : Prop where
  tree : d.IsTree → d'.IsTree
  grows : d.Grows d'

namespace Lasts

theorem refl (d : Disk) : d.Lasts d := ⟨id, id, id, rfl⟩

theorem trans (h : d.Lasts d') (h' : d'.Lasts d'') : d.Lasts d'' where
  tree hd := h'.tree (h.tree hd)
  grows := ⟨fun hplace => h'.grows.directories (h.grows.directories hplace),
    fun hplace => h'.grows.entries (h.grows.entries hplace), h'.grows.here.trans h.grows.here⟩

theorem put (hplace : d.entry? place = some .directory)
    (hname : d.entry? (place ++ [name]) ≠ some .directory) (e : Entry) :
    d.Lasts (d.put (place ++ [name]) e) :=
  ⟨fun h => h.put hplace hname e, .put hname e⟩

end Lasts

/-- The other disk has more directories.  Nothing else is new, and the files are as they were. -/
structure Spreads (d d' : Disk) : Prop extends Lasts d d' where
  file (place : Place) : d'.file? place = d.file? place

namespace Spreads

theorem refl (d : Disk) : d.Spreads d := ⟨.refl d, fun _ => rfl⟩

theorem trans (h : d.Spreads d') (h' : d'.Spreads d'') : d.Spreads d'' :=
  ⟨h.toLasts.trans h'.toLasts, fun place => (h'.file place).trans (h.file place)⟩

/-- One directory is made. -/
theorem put (hplace : d.entry? place = some .directory)
    (hname : d.entry? (place ++ [name]) = none) :
    d.Spreads (d.put (place ++ [name]) .directory) where
  toLasts := .put hplace (by simp [hname]) _
  file place' := by
    rw [file?_put (by simp), if_pos rfl]
    split
    · rename_i hsame
      rw [hsame, file?_of_none hname]
    · rfl

end Spreads

/-- A name that leads nowhere is one for a new directory. -/
theorem new_directory (hplace : d.entry? place = some .directory) (hname : isName name)
    (hstep : d.step place name = none) : d.entry? (place ++ [name]) = none ∧
      (d.put (place ++ [name]) .directory).step place name = some (place ++ [name]) := by
  have hpart : name ≠ "" ∧ name ≠ "." ∧ name ≠ ".." := by
    rw [isName, Bool.and_eq_true] at hname
    simpa using hname.2
  have hnone : d.entry? (place ++ [name]) = none := by
    rw [step_component hplace hpart] at hstep
    simpa using hstep
  refine ⟨hnone, ?_⟩
  rw [step_component ((Spreads.put hplace hnone).grows.directories hplace) hpart,
    entry_put (by simp), if_pos rfl]
  rfl

theorem spreads_makeFrom : ∀ (parts : List String) (d : Disk) (place : Place),
    d.Spreads (d.makeFrom place parts).1
  | [], d, place => .refl d
  | part :: parts, d, place => by
    rw [makeFrom]
    split
    · exact spreads_makeFrom parts d _
    · rename_i hstep
      split
      · rename_i hnew
        exact (Spreads.put hnew.1 (new_directory hnew.1 hnew.2 hstep).1).trans
          (spreads_makeFrom parts _ _)
      · exact .refl d

/-- If all directories are made, the parts lead to the last one. -/
theorem follow_makeFrom : ∀ {parts : List String} {d d' : Disk} {place place' : Place},
    d.makeFrom place parts = (d', some place') →
    parts.foldlM d'.step place = some place' ∧ d'.entry? place' = some .directory
  | [], d, d', place, place', h => by
    rw [makeFrom] at h
    split at h
    · cases h
      exact ⟨rfl, ‹_›⟩
    · cases h
  | part :: parts, d, d', place, place', h => by
    have spread {d : Disk} {next : Place} (h : d.makeFrom next parts = (d', some place')) :
        d.Spreads d' := by
      have hspreads := spreads_makeFrom parts d next
      rwa [h] at hspreads
    rw [makeFrom] at h
    split at h
    · rename_i next hstep
      rw [List.foldlM_cons, (spread h).grows.step hstep]
      exact follow_makeFrom h
    · rename_i hstep
      split at h
      · rename_i hnew
        rw [List.foldlM_cons,
          (spread h).grows.step (new_directory hnew.1 hnew.2 hstep).2]
        exact follow_makeFrom h
      · cases h

theorem spreads_makeDirectories (d : Disk) (p : DiskPath) :
    d.Spreads (d.makeDirectories p).1 := by
  rw [makeDirectories]
  split
  · exact spreads_makeFrom _ d _
  · exact .refl d

/-- If all directories are made, the path leads to the last one. -/
theorem locate_makeDirectories (hne : p.text ≠ "") (h : d.makeDirectories p = (d', some place)) :
    p.isAccepted ∧ d'.locate p = some place ∧ d'.entry? place = some .directory := by
  have hhere := (spreads_makeDirectories d p).grows.here
  rw [h] at hhere
  rw [makeDirectories] at h
  split at h
  · rename_i hp
    obtain ⟨hfollow, hplace⟩ := follow_makeFrom h
    refine ⟨hp, ?_, hplace⟩
    rw [locate, if_neg (by simp [hp, hne]), start, hhere]
    exact hfollow
  · cases h

/-! ## Writing -/

theorem isAccepted_of_write {s : String} (h : d.write p s = some d') : p.isAccepted := by
  rw [write] at h
  split at h
  · exact isAccepted_of_locate ‹_›
  · split at h
    · split at h
      · exact And.left ‹_›
      · cases h
    · cases h

/-- A file that is written in a directory is a new text there. -/
theorem put_of_write {s : String} (hne : p.text ≠ "") (hlast : p.text.toList.getLast? ≠ some '/')
    (hname : IsPart name) (hlocate : d.locate p = some place)
    (hplace : d.entry? place = some .directory) (h : d.write (p.join name) s = some d') :
    d' = d.put (place ++ [name]) (.text s) ∧ d.entry? (place ++ [name]) ≠ some .directory := by
  have hjoin : p.join name = ⟨p.text ++ "/" ++ name⟩ := by
    rcases DiskPath.join_cases hne hname.slash with ⟨-, hjoin⟩ | ⟨a, htext, -⟩
    · exact hjoin
    · exact absurd (by simp [htext]) hlast
  have hparent : (p.join name).parent = p := by
    rw [hjoin, DiskPath.parent_slash _ hname.slash, if_neg hne]
  have hlast : (p.join name).name = name := by
    rw [hjoin, DiskPath.name_slash _ hname.slash]
  have hstep := step_component hplace ⟨hname.nonempty, hname.notHere, hname.notUp⟩
  have leads (hp : (p.join name).isAccepted) : d.locate (p.join name) =
      if (d.entry? (place ++ [name])).isSome then some (place ++ [name]) else none := by
    rw [locate_join hne hname.slash hp, hlocate, Option.bind_some, hstep]
  rw [write] at h
  split at h
  · rename_i place' hthere
    rw [leads (isAccepted_of_locate hthere)] at hthere
    obtain ⟨-, hsame⟩ := Option.ite_none_right_eq_some.mp hthere
    obtain rfl : place ++ [name] = place' := by simpa using hsame
    split at h
    · cases h
    · cases h
      exact ⟨rfl, ‹_›⟩
  · rename_i hmissing
    rw [hparent, hlast, hlocate] at h
    dsimp only at h
    split at h
    · rename_i hnew
      cases h
      rw [leads hnew.1] at hmissing
      refine ⟨rfl, fun hdirectory => ?_⟩
      rw [hdirectory] at hmissing
      cases hmissing
    · cases h

end Disk

end PatchScript.Files
