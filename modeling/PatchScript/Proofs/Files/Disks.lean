import PatchScript.Proofs.Files.Paths

/-!
# What is written is found

A text that is written at a path is found there (`Disk.find?_write`).  A disk gets new entries
and new texts in the files, but what was a directory stays one, so each path leads where it led
before (`Disk.Grows`).

To write at a path, the directory is made that the name is looked up in.  If the path leads to a
file already, there is nothing to be made (`Disk.makeDirectories_parent`): a path leads where its
name leads from its parent (`Disk.locate_eq`).
-/

namespace PatchScript.Files

open Text (pieces)

/-! ## The last part of a path -/

theorem pieces_of_notMem {mark : Char} {cs : List Char} (h : mark ∉ cs) :
    pieces mark cs = [cs] := by
  induction cs with
  | nil => rfl
  | cons c cs ih =>
    rw [List.mem_cons, not_or] at h
    obtain ⟨p, ps, hcs, hcons⟩ := pieces_cons mark c cs
    rw [ih h.2] at hcs
    cases hcs
    rw [hcons, if_neg (Ne.symm h.1)]

namespace DiskPath

variable {p : DiskPath}

theorem notMem_name (p : DiskPath) : '/' ∉ p.name.toList := by
  rw [name, String.toList_ofList, Text.afterLast, List.mem_reverse]
  intro hmem
  exact absurd (List.all_eq_true.mp List.all_takeWhile _ hmem) (by decide)

theorem parts_slash_name (before : String) (p : DiskPath) :
    (DiskPath.mk (before ++ "/" ++ p.name)).parts = (DiskPath.mk before).parts ++ [p.name] := by
  have hname : (DiskPath.mk p.name).parts = [p.name] := by
    rw [parts, pieces_of_notMem p.notMem_name, List.map_singleton, String.ofList_toList]
  rw [parts_append_slash, hname]

/-- A path is only a name, or there is a slash before the name, and what is before the slash is
the parent, if there is anything before it. -/
theorem parent_cases (p : DiskPath) :
    (p.parent = ⟨"."⟩ ∧ p.parts = [p.name] ∧ p.isAbsolute = false) ∨
      (p.parent = ⟨"/"⟩ ∧ p.parts = ["", p.name] ∧ p.isAbsolute) ∨
      p.parent.text ≠ "" ∧ p.text = p.parent.text ++ "/" ++ p.name := by
  have hsplit : p.text.toList = (p.text.toList.reverse.dropWhile (· != '/')).reverse ++
      p.name.toList := by
    rw [name, String.toList_ofList, Text.afterLast, ← List.reverse_append,
      List.takeWhile_append_dropWhile, List.reverse_reverse]
  rw [parent]
  split
  · rename_i hnone
    rw [hnone, List.reverse_nil, List.nil_append] at hsplit
    refine .inl ⟨rfl, ?_, ?_⟩
    · rw [parts, hsplit, pieces_of_notMem p.notMem_name, List.map_singleton, String.ofList_toList]
    · rw [isAbsolute, decide_eq_false_iff_not, hsplit]
      exact fun hhead => p.notMem_name (List.mem_of_mem_head? hhead)
  · rename_i hslash
    rw [hslash, ← List.singleton_append] at hsplit
    have htext : p.text = "" ++ "/" ++ p.name := by
      rw [← String.toList_inj, hsplit]
      simp
    refine .inr (.inl ⟨rfl, ?_, ?_⟩)
    · have hparts := parts_slash_name "" p
      rwa [← htext] at hparts
    · rw [isAbsolute, hsplit]
      rfl
  · rename_i slash before hne hsome
    have hmark : slash = '/' := by
      have hhead := List.head?_dropWhile_not (· != '/') p.text.toList.reverse
      rw [hsome] at hhead
      simpa using hhead
    subst hmark
    refine .inr (.inr ⟨?_, ?_⟩)
    · intro hempty
      obtain rfl : before = [] := by simpa using hempty
      exact hne rfl rfl
    · rw [← String.toList_inj, hsplit, hsome]
      simp

/-- A disk that follows a path follows its parent. -/
theorem isAccepted_parent (h : p.isAccepted) : p.parent.isAccepted := by
  rcases p.parent_cases with ⟨hparent, -⟩ | ⟨hparent, -⟩ | ⟨-, htext⟩
  · rw [hparent]
    decide
  · rw [hparent]
    decide
  · rw [isAccepted, htext] at h
    rw [isAccepted]
    simp only [String.utf8ByteSize_append, String.toList_append, List.all_append, Bool.and_eq_true,
      decide_eq_true_eq] at h ⊢
    exact ⟨by omega, h.2.1.1⟩

end DiskPath

namespace Disk

variable {d d' : Disk} {p : DiskPath} {place place' : Place} {e : Entry}

/-! ## Following paths -/

theorem step_component {part : String} (hplace : d.entry? place = some .directory)
    (hpart : part ≠ "" ∧ part ≠ "." ∧ part ≠ "..") : d.step place part =
      if (d.entry? (place ++ [part])).isSome then some (place ++ [part]) else none := by
  rw [step, if_neg (by simpa using hplace), if_neg (by simp [hpart]), if_neg hpart.2.2]

/-- Steps are made from directories. -/
theorem entry_of_step {part : String} (h : d.step place part = some place') :
    d.entry? place = some .directory := by
  rw [step] at h
  split at h
  · cases h
  · rename_i hplace
    exact not_not.mp hplace

/-- A step that leads nowhere else can be left out. -/
theorem step_of_same {part : String} (hpart : part = "" ∨ part = ".") (place : Place)
    (next : String) : (d.step place part).bind (fun place => d.step place next) =
      d.step place next := by
  by_cases hplace : d.entry? place = some .directory
  · have hstep : d.step place part = some place := by
      rw [step, if_neg (not_not.mpr hplace), if_pos hpart]
    rw [hstep, Option.bind_some]
  · have hstep (part : String) : d.step place part = none := if_pos hplace
    rw [hstep, hstep, Option.bind_none]

/-- A path leads where its name leads from its parent. -/
theorem locate_eq (hp : p.isAccepted) (hne : p.text ≠ "") :
    d.locate p = (d.locate p.parent).bind fun place => d.step place p.name := by
  have hlocate {p : DiskPath} (hp : p.isAccepted) (hne : p.text ≠ "") :
      d.locate p = p.parts.foldlM d.step (d.start p) := if_neg (by simp [hp, hne])
  have hone (place : Place) (part : String) :
      [part].foldlM d.step place = d.step place part := by
    rw [List.foldlM_cons]
    exact Option.bind_fun_some _
  rw [hlocate hp hne]
  rcases p.parent_cases with ⟨hparent, hparts, hrelative⟩ | ⟨hparent, hparts, habsolute⟩ |
    ⟨hparent, htext⟩
  · have hdot : d.locate ⟨"."⟩ = ["."].foldlM d.step d.here := rfl
    have hstart : d.start p = d.here := by rw [start, hrelative]; rfl
    rw [hparent, hdot, hparts, hstart, hone, hone, step_of_same (.inr rfl)]
  · have hslash : d.locate ⟨"/"⟩ = some [] := rfl
    have hstart : d.start p = [] := by rw [start, habsolute]; rfl
    have hfirst : d.step [] "" = some [] := rfl
    rw [hparent, hslash, hparts, hstart, List.foldlM_cons, hfirst]
    exact hone [] p.name
  · have habsolute : p.isAbsolute = p.parent.isAbsolute := by
      rw [DiskPath.isAbsolute, htext, String.append_assoc]
      exact DiskPath.isAbsolute_append hparent _
    have hstart : d.start p = d.start p.parent := by rw [start, habsolute]; rfl
    have hparts : p.parts = p.parent.parts ++ [p.name] := by
      have hparts := DiskPath.parts_slash_name p.parent.text p
      rwa [← htext] at hparts
    rw [hlocate (DiskPath.isAccepted_parent hp) hparent, hparts, hstart, List.foldlM_append]
    exact congrArg _ (funext fun place => hone place p.name)

/-- A path that leads anywhere has a parent that leads to a directory, and its name leads on. -/
theorem locate_parent (h : d.locate p = some place) : ∃ above, d.locate p.parent = some above ∧
    d.entry? above = some .directory ∧ d.step above p.name = some place := by
  have hp : p.isAccepted ∧ p.text ≠ "" := by
    rw [locate] at h
    split at h
    · cases h
    · rename_i hp
      simp only [not_or, not_not] at hp
      exact ⟨hp.2, hp.1⟩
  rw [locate_eq hp.1 hp.2] at h
  obtain ⟨above, habove, hstep⟩ := Option.bind_eq_some_iff.mp h
  exact ⟨above, habove, entry_of_step hstep, hstep⟩

/-- Where a path leads already, no directories are made. -/
theorem makeFrom_eq : ∀ {parts : List String} {place : Place},
    parts.foldlM d.step place = some place' → d.entry? place' = some .directory →
    d.makeFrom place parts = (d, some place')
  | [], place, h, hplace => by
    cases h
    rw [makeFrom, if_pos hplace]
  | part :: parts, place, h, hplace => by
    rw [List.foldlM_cons] at h
    obtain ⟨next, hstep, h⟩ := Option.bind_eq_some_iff.mp h
    rw [makeFrom, hstep]
    exact makeFrom_eq h hplace

theorem makeDirectories_eq (h : d.locate p = some place)
    (hplace : d.entry? place = some .directory) : d.makeDirectories p = (d, some place) := by
  rw [locate] at h
  split at h
  · cases h
  · rename_i hp
    simp only [not_or, not_not] at hp
    rw [makeDirectories, if_pos hp.2, makeFrom_eq h hplace]

/-! ## Entries -/

theorem entry_put (hplace : place ≠ []) (e : Entry) (place' : Place) :
    Disk.entry? (d.put place e) place' = if place' = place then some e else d.entry? place' := by
  have hentry {d : Disk} {place : Place} (hplace : place ≠ []) :
      d.entry? place = (d.entries.find? (·.1 == place)).map (·.2) := by
    cases place with
    | nil => exact absurd rfl hplace
    | cons part place => rfl
  by_cases hempty : place' = []
  · rw [hempty, if_neg hplace.symm]
    rfl
  · rw [hentry hempty, hentry hempty, put]
    split
    · rename_i hthere
      rw [hentry hplace, Option.isSome_map, List.find?_isSome] at hthere
      obtain ⟨old, hold, hkey⟩ := hthere
      have hkeys : ((fun old : Place × Entry => old.1 == place') ∘ fun old =>
          if old.1 = place then (place, e) else old) = fun old => old.1 == place' := by
        funext old
        rw [Function.comp_apply]
        split
        · rename_i hold
          rw [hold]
        · rfl
      rw [List.find?_map, hkeys]
      cases hfind : d.entries.find? (fun old => old.1 == place') with
      | none =>
        have hother := List.find?_eq_none.mp hfind old hold
        rw [if_neg]
        · rfl
        · rintro rfl
          exact hother hkey
      | some found =>
        have hfound : found.1 = place' := by simpa using List.find?_some hfind
        simp only [Option.map_some, hfound]
        split <;> rfl
    · rename_i hnone
      rw [hentry hplace, Option.isSome_map, List.find?_isSome] at hnone
      rw [List.find?_append]
      split
      · rename_i hsame
        have hother : d.entries.find? (fun old => old.1 == place') = none :=
          List.find?_eq_none.mpr fun old hold hkey => hnone ⟨old, hold, hsame ▸ hkey⟩
        rw [hother, hsame]
        simp
      · rename_i hother
        simp [Ne.symm hother]

/-- The other disk has all that the one has, directories as directories. -/
structure Grows (d d' : Disk) : Prop where
  /-- A directory stays one. -/
  directories {place : Place} : d.entry? place = some .directory → d'.entry? place = some .directory
  /-- What is there is there. -/
  entries {place : Place} : (d.entry? place).isSome → (d'.entry? place).isSome
  /-- Paths start at the same place. -/
  here : d'.here = d.here

theorem ne_nil_of_entry (hplace : d.entry? place ≠ some .directory) : place ≠ [] := by
  rintro rfl
  exact hplace rfl

theorem Grows.put (hplace : d.entry? place ≠ some .directory) (e : Entry) :
    d.Grows (d.put place e) where
  directories {place'} h := by
    rw [entry_put (ne_nil_of_entry hplace), if_neg, h]
    rintro rfl
    exact hplace h
  entries {place'} h := by
    rw [entry_put (ne_nil_of_entry hplace)]
    split
    · rfl
    · exact h
  here := by
    rw [Disk.put]
    split <;> rfl

namespace Grows

variable (h : d.Grows d')

include h

theorem step {part : String} (hstep : d.step place part = some place') :
    d'.step place part = some place' := by
  have hdirectory := h.directories (entry_of_step hstep)
  rw [Disk.step] at hstep ⊢
  split at hstep
  · cases hstep
  · rw [if_neg (not_not.mpr hdirectory)]
    split at hstep
    · rename_i hsame
      rwa [if_pos hsame]
    · rename_i hsame
      rw [if_neg hsame]
      split at hstep
      · rename_i hup
        rwa [if_pos hup]
      · rename_i hup
        rw [if_neg hup]
        split at hstep
        · rename_i hthere
          rwa [if_pos (h.entries hthere)]
        · cases hstep

theorem follow : ∀ {parts : List String} {place : Place},
    parts.foldlM d.step place = some place' → parts.foldlM d'.step place = some place'
  | [], _, hfollow => hfollow
  | part :: parts, place, hfollow => by
    rw [List.foldlM_cons] at hfollow ⊢
    obtain ⟨next, hstep, hrest⟩ := Option.bind_eq_some_iff.mp hfollow
    exact Option.bind_eq_some_iff.mpr ⟨next, h.step hstep, follow hrest⟩

/-- Each path leads where it led before. -/
theorem locate (hlocate : d.locate p = some place) : d'.locate p = some place := by
  rw [Disk.locate] at hlocate ⊢
  split at hlocate
  · cases hlocate
  · rename_i hp
    rw [if_neg hp, start, h.here]
    exact h.follow hlocate

end Grows

/-- A text that is written at a path is found there. -/
theorem find?_write {s : String} (h : d.write p s = some d') : d'.find? p = some (.text s) := by
  have found {place : Place} (hplace : d.entry? place ≠ some .directory)
      (hlocate : (d.put place (.text s)).locate p = some place) :
      (d.put place (.text s)).find? p = some (.text s) := by
    rw [find?, hlocate, Option.bind_some, entry_put (ne_nil_of_entry hplace), if_pos rfl]
  rw [write] at h
  split at h
  · rename_i place hlocate
    split at h
    · cases h
    · rename_i hplace
      cases h
      exact found hplace ((Grows.put hplace _).locate hlocate)
  · rename_i hlocate
    split at h
    · rename_i place hparent
      split at h
      · rename_i hnew
        obtain ⟨hp, hplace, hname⟩ := hnew
        cases h
        have hparts : p.name ≠ "" ∧ p.name ≠ "." ∧ p.name ≠ ".." := by
          rw [isName, Bool.and_eq_true] at hname
          simpa using hname.2
        have hne : p.text ≠ "" := by
          intro hempty
          refine hparts.1 ?_
          rw [DiskPath.name, hempty]
          rfl
        rw [locate_eq hp hne, hparent, Option.bind_some, step_component hplace hparts] at hlocate
        have hmissing : d.entry? (place ++ [p.name]) ≠ some .directory := by
          intro hthere
          rw [hthere] at hlocate
          cases hlocate
        have hgrows := Grows.put hmissing (.text s)
        refine found hmissing ?_
        rw [locate_eq hp hne, hgrows.locate hparent, Option.bind_some,
          step_component (hgrows.directories hplace) hparts,
          entry_put (ne_nil_of_entry hmissing), if_pos rfl]
        rfl
      · cases h
    · cases h

end Disk

end PatchScript.Files
