import Mathlib.Data.List.DropRight
import PatchScript.Files.Scripts
import PatchScript.Proofs.Files.Trees
import PatchScript.Proofs.Reading
import PatchScript.Proofs.Text.Signs

/-!
# New scripts and lists of scripts

To make a script is to make a directory and to write a file in it, and another one with the
description if there is one (`Disk.withScript`).  To list scripts is to look for such files in the
directories of one place.  Which files there are is all that a list depends on, so the new script is
in it, and nothing else has changed (`listScripts_withScript`).
-/

namespace PatchScript.Files

open Run (Fault)

variable {d d' made : Disk} {place : Place} {collection file : DiskPath} {name : String}
  {description : Option String}

/-! ## Descriptions -/

theorem trimList_eq_self {cs : List Char} (hhead : ∀ c ∈ cs.head?, ¬Text.isBlank c)
    (hlast : ∀ c ∈ cs.getLast?, ¬Text.isBlank c) : Text.trimList cs = cs := by
  have keep {cs : List Char} (h : ∀ c ∈ cs.head?, ¬Text.isBlank c) :
      Text.trimStartList cs = cs := by
    cases cs with
    | nil => rfl
    | cons c cs => exact List.dropWhile_cons_of_neg (h c rfl)
  rw [Text.trimList, keep hhead, keep, List.reverse_reverse]
  rwa [List.head?_reverse]

/-- No blanks are around what is left. -/
theorem trim_trim (s : String) : Text.trim (Text.trim s) = Text.trim s := by
  rw [Text.trim, Text.trim, String.toList_ofList]
  congr 1
  have hstart (cs : List Char) : ∀ c ∈ (Text.trimStartList cs).head?, ¬Text.isBlank c := by
    intro c hc
    have hnot := List.head?_dropWhile_not Text.isBlank cs
    rw [show (cs.dropWhile Text.isBlank).head? = some c from hc] at hnot
    simpa using hnot
  refine trimList_eq_self (fun c hc => ?_) fun c hc => ?_
  · obtain ⟨rest, hrest⟩ : Text.trimList s.toList <+: Text.trimStartList s.toList :=
      List.rdropWhile_prefix Text.isBlank _
    refine hstart s.toList c ?_
    rw [← hrest, List.head?_append, Option.mem_def.mp hc]
    rfl
  · rw [Text.trimList, List.getLast?_reverse] at hc
    exact hstart _ c hc

theorem substance?_of_eq_some {s t : String} (h : substance? s = some t) :
    substance? t = some t := by
  rw [substance?] at h ⊢
  obtain ⟨hne, hsome⟩ := Option.ite_none_left_eq_some.mp h
  cases hsome
  rw [trim_trim, if_neg hne]

/-! ## Names -/

theorem isPart_of_isScriptName (h : isScriptName name) : IsPart name := by
  simp only [isScriptName, Bool.and_eq_true, bne_iff_ne, List.all_eq_true] at h
  obtain ⟨⟨⟨hne, hdot⟩, hdots⟩, hall⟩ := h
  exact ⟨fun hslash => (hall _ hslash).1 rfl, hne, hdot, hdots⟩

/-- The name of a script is listed as it is. -/
theorem replaceAll_of_isScriptName (h : isScriptName name) :
    Text.replaceAll name "\\" "/" = name := by
  simp only [isScriptName, Bool.and_eq_true, bne_iff_ne, List.all_eq_true] at h
  rw [← String.toList_inj, Text.toList_replaceAll]
  have hswapped : Text.swapped [] '\\' '/' name.toList = name.toList :=
    Text.swapped_of_notMem (fun hback => (h.2 _ hback).2 rfl) '/'
  exact hswapped

theorem isPart_entryFile : IsPart entryFile := by
  constructor <;> decide

theorem isPart_descriptionFile : IsPart descriptionFile := by
  constructor <;> decide

/-! ## Files of scripts -/

namespace Disk

/-- The disk with the files of a script in a directory. -/
def withScript (d : Disk) (place : Place) (name : String) (description : Option String) : Disk :=
  let entered := d.put (place ++ [entryFile]) (.text ("// " ++ name ++ "\n"))
  match description with
  | some s => entered.put (place ++ [descriptionFile]) (.text s)
  | none => entered

theorem file?_withScript (d : Disk) (place : Place) (name : String) (description : Option String)
    (q : Place) : (d.withScript place name description).file? q =
      if q = place ++ [descriptionFile] ∧ description.isSome then description.map .text
      else if q = place ++ [entryFile] then some (.text ("// " ++ name ++ "\n"))
      else d.file? q := by
  cases description with
  | none => simp [withScript, file?_put]
  | some s => simp [withScript, file?_put]

/-- A directory for a script, with all that leads there. -/
structure Founds (d made : Disk) (root : DiskPath) (name : String) (place : Place) : Prop where
  spreads : d.Spreads made
  start : made.locate root = some place
  directory : made.locate (root.join name) = some (place ++ [name])
  above : made.entry? place = some .directory
  entry : made.entry? (place ++ [name]) = some .directory

theorem founds_makeDirectories {place' : Place} (hne : collection.text ≠ "") (hname : IsPart name)
    (h : d.makeDirectories (collection.join name) = (made, some place')) :
    ∃ place, place' = place ++ [name] ∧ d.Founds made collection name place := by
  have hspreads := spreads_makeDirectories d (collection.join name)
  rw [h] at hspreads
  obtain ⟨hp, hlocate, hentry⟩ :=
    locate_makeDirectories (DiskPath.join_ne_empty hne hname.slash) h
  have hsteps := hlocate
  rw [locate_join hne hname.slash hp] at hsteps
  obtain ⟨place, hplace, hstep⟩ := Option.bind_eq_some_iff.mp hsteps
  have habove := entry_of_step hstep
  rw [step_component habove ⟨hname.nonempty, hname.notHere, hname.notUp⟩] at hstep
  obtain ⟨-, hsame⟩ := Option.ite_none_right_eq_some.mp hstep
  obtain rfl : place ++ [name] = place' := by simpa using hsame
  exact ⟨place, rfl, hspreads, hplace, hlocate, habove, hentry⟩

end Disk

/-- All that can come of a name, as it is after `scriptName`, and a description, as it is after
`substance?`: a result and a disk. -/
inductive Creates (d : Disk) (collection : DiskPath) (name : String) (description : Option String) :
    Except CreationFault DiskPath → Disk → Prop where
  | invalid : ¬isScriptName name →
      Creates d collection name description (.error (.invalidName name)) d
  | taken : isScriptName name → (d.locate (collection.join name)).isSome →
      Creates d collection name description (.error (.taken (collection.join name))) d
  | refused {d' : Disk} : d.locate (collection.join name) = none → d.Lasts d' →
      Creates d collection name description (.error .notWritten) d'
  | done {made : Disk} {place : Place} : isScriptName name →
      d.locate (collection.join name) = none → d.Founds made collection name place →
      ((collection.join name).join entryFile).isAccepted →
      made.Lasts (made.withScript (place ++ [name]) name description) →
      Creates d collection name description (.ok ((collection.join name).join entryFile))
        (made.withScript (place ++ [name]) name description)

/-- What `createScript` does. -/
theorem creates (d : Disk) (hne : collection.text ≠ "") (name : String)
    (description : Option String) :
    Creates d collection (scriptName name) (description.bind substance?)
      (createScript d collection name description).1
      (createScript d collection name description).2 := by
  rw [createScript]
  dsimp only
  generalize scriptName name = name
  generalize description.bind substance? = description
  split
  · exact .invalid ‹_›
  · rename_i hname
    replace hname : isScriptName name := not_not.mp hname
    split
    · exact .taken hname ‹_›
    · rename_i hnone
      replace hnone : d.locate (collection.join name) = none := by simpa using hnone
      have hspreads := Disk.spreads_makeDirectories d (collection.join name)
      cases hmade : d.makeDirectories (collection.join name) with
      | mk made place' =>
        rw [hmade] at hspreads
        cases place' with
        | none => exact .refused hnone hspreads.toLasts
        | some place' =>
          have hpart := isPart_of_isScriptName hname
          -- The directory is there.  From here on it can only be a write that is refused.
          obtain ⟨place, rfl, hfounds⟩ := Disk.founds_makeDirectories hne hpart hmade
          have hjoin := DiskPath.join_ne_empty hne hpart.slash
          have hlast := DiskPath.getLast?_join hne hpart
          simp only [Option.bind_some]
          cases hentered : made.write ((collection.join name).join entryFile)
              ("// " ++ name ++ "\n") with
          | none => exact .refused hnone hspreads.toLasts
          | some entered =>
            obtain ⟨rfl, hentry⟩ := Disk.put_of_write hjoin hlast isPart_entryFile
              hfounds.directory hfounds.entry hentered
            have haccepted := Disk.isAccepted_of_write hentered
            have hlasts := Disk.Lasts.put hfounds.entry hentry (.text ("// " ++ name ++ "\n"))
            cases description with
            | none => exact .done hname hnone hfounds haccepted hlasts
            | some s =>
              dsimp only
              cases hwritten : Disk.write _ ((collection.join name).join descriptionFile) s with
              | none => exact .refused hnone (hspreads.toLasts.trans hlasts)
              | some d' =>
                obtain ⟨rfl, hdescription⟩ := Disk.put_of_write hjoin hlast isPart_descriptionFile
                  (hlasts.grows.locate hfounds.directory) (hlasts.grows.directories hfounds.entry)
                  hwritten
                refine .done hname hnone hfounds haccepted (hlasts.trans ?_)
                exact .put (hlasts.grows.directories hfounds.entry) hdescription _

theorem Creates.lasts {result : Except CreationFault DiskPath}
    (h : Creates d collection name description result d') : d.Lasts d' := by
  cases h with
  | invalid => exact .refl d
  | taken => exact .refl d
  | refused _ h => exact h
  | done _ _ hfounds _ h => exact hfounds.spreads.toLasts.trans h

/-! ## Lists -/

/-- The names of the scripts in a directory. -/
def scriptNames (d : Disk) (place : Place) : List String :=
  (d.namesIn place).filter fun name => (d.file? (place ++ [name, entryFile])).isSome

/-- What is told about the script in a directory of this name. -/
def listed (d : Disk) (place : Place) (name : String) : Except Fault Listed := do
  return ⟨Text.replaceAll name "\\" "/", ← describe d (place ++ [name])⟩

theorem listScripts_eq (d : Disk) (place : Place) : listScripts d place =
    ((scriptNames d place).mergeSort fun a b => decide (a ≤ b)).mapM (listed d place) := by
  rw [listScripts, scriptNames]
  refine congrArg (fun names : List String =>
    (names.mergeSort fun a b => decide (a ≤ b)).mapM (listed d place)) ?_
  refine List.filter_congr fun name _ => ?_
  rw [Disk.file?]
  rcases d.entry? (place ++ [name, entryFile]) with _ | (_ | _ | _) <;> rfl

/-- Only files matter to a description. -/
theorem describe_eq (d : Disk) (place : Place) : describe d place =
    match d.file? (place ++ [descriptionFile]) with
    | some (.text s) => .ok (substance? s)
    | some (.binary _) => .error Origin.unreadable
    | _ => .ok none := by
  rw [describe, Disk.file?]
  rcases d.entry? (place ++ [descriptionFile]) with _ | (_ | _ | _) <;> rfl

theorem nodup_scriptNames (h : d.IsTree) (place : Place) : (scriptNames d place).Nodup :=
  (h.nodup_namesIn place).filter _

theorem mem_scriptNames (h : d.IsTree) : name ∈ scriptNames d place ↔
    (d.file? (place ++ [name, entryFile])).isSome := by
  rw [scriptNames, List.mem_filter, and_iff_right_iff_imp]
  intro hfile
  rw [List.append_cons] at hfile
  rw [Disk.mem_namesIn, h.above (Disk.isSome_of_file? hfile)]
  rfl

theorem pairwise_mergeSort (names : List String) :
    (names.mergeSort fun a b => decide (a ≤ b)).Pairwise (· ≤ ·) := by
  let le (a b : String) : Bool := decide (a ≤ b)
  have htrans (a b c : String) (hab : le a b) (hbc : le b c) : le a c :=
    decide_eq_true (String.le_trans (of_decide_eq_true hab) (of_decide_eq_true hbc))
  have htotal (a b : String) : le a b || le b a := by simpa [le] using String.le_total a b
  have hpairs := List.pairwise_mergeSort htrans htotal names
  simpa [le] using hpairs

theorem mergeSort_eq {names sorted : List String} (hperm : names.Perm sorted)
    (hsorted : sorted.Pairwise (· ≤ ·)) :
    (names.mergeSort fun a b => decide (a ≤ b)) = sorted :=
  List.Perm.eq_of_pairwise (fun _ _ _ _ hab hba => String.le_antisymm hab hba)
    (pairwise_mergeSort names) hsorted ((List.mergeSort_perm names _).trans hperm)

/-- One name more is put where it belongs in the order. -/
theorem mergeSort_insert {names more : List String} (hperm : more.Perm (name :: names))
    (hnodup : more.Nodup) : ∃ before after,
      (names.mergeSort fun a b => decide (a ≤ b)) = before ++ after ∧
      (more.mergeSort fun a b => decide (a ≤ b)) = before ++ name :: after ∧
      (before ++ name :: after).Pairwise (· < ·) := by
  have hmerged := List.mergeSort_perm more fun a b => decide (a ≤ b)
  obtain ⟨before, after, hmore⟩ :=
    List.append_of_mem (hmerged.mem_iff.mpr (hperm.mem_iff.mpr List.mem_cons_self))
  have hsorted := pairwise_mergeSort more
  have hdistinct := hmerged.nodup_iff.mpr hnodup
  rw [hmore] at hmerged hsorted hdistinct
  have hnames : (before ++ after).Perm names :=
    (List.perm_middle.symm.trans (hmerged.trans hperm)).cons_inv
  refine ⟨before, after, ?_, hmore, ?_⟩
  · refine mergeSort_eq hnames.symm (hsorted.sublist ?_)
    exact (List.Sublist.refl before).append (List.sublist_cons_self _ _)
  · refine (hsorted.and hdistinct).imp fun {a b} h => ?_
    by_contra hlt
    exact h.2 (String.le_antisymm h.1 (String.not_lt.mp hlt))

/-! ## A new script in the list -/

/-- Where the collection is already, there is nothing in place of a script that can be made. -/
theorem missing_of_located (htree : d.IsTree) (hfounds : d.Founds made collection name place)
    (hname : IsPart name) (hne : collection.text ≠ "")
    (hnone : d.locate (collection.join name) = none) (hthere : (d.locate collection).isSome) :
    d.entry? (place ++ [name]) = none := by
  obtain ⟨place', hplace'⟩ := Option.isSome_iff_exists.mp hthere
  obtain rfl : place' = place := by
    have hsame := hfounds.spreads.grows.locate hplace'
    rw [hfounds.start] at hsame
    exact (Option.some.inj hsame).symm
  have habove : d.entry? place' = some .directory := by
    have hfile := hfounds.spreads.file place'
    rw [Disk.file?_of_directory hfounds.above] at hfile
    refine (Disk.entry_of_file?_eq_none hfile.symm).resolve_right fun hmissing => ?_
    have hsome := htree.isSome_of_locate hplace'
    rw [hmissing] at hsome
    cases hsome
  rw [Disk.locate_join hne hname.slash (Disk.isAccepted_of_locate hfounds.directory), hplace',
    Option.bind_some,
    Disk.step_component habove ⟨hname.nonempty, hname.notHere, hname.notUp⟩] at hnone
  simpa using hnone

theorem file?_founded (hfounds : d.Founds made collection name place)
    (description : Option String) (q : Place) :
    (made.withScript (place ++ [name]) name description).file? q =
      if q = place ++ [name, descriptionFile] ∧ description.isSome then description.map .text
      else if q = place ++ [name, entryFile] then some (.text ("// " ++ name ++ "\n"))
      else d.file? q := by
  rw [Disk.file?_withScript, hfounds.spreads.file, List.append_assoc, List.append_assoc]
  rfl

/-- The files of two scripts, or of a script, are apart. -/
theorem place_eq_iff {name' file file' : String} :
    place ++ [name, file] = place ++ [name', file'] ↔ name = name' ∧ file = file' := by
  simp

theorem entryFile_ne_descriptionFile : entryFile ≠ descriptionFile := by decide

/-- The new script is there. -/
theorem hasScript_withScript (hfounds : d.Founds made collection name place) (hname : IsPart name)
    (hne : collection.text ≠ "") (haccepted : ((collection.join name).join entryFile).isAccepted)
    (hlasts : made.Lasts (made.withScript (place ++ [name]) name description)) :
    hasScript (made.withScript (place ++ [name]) name description) collection name := by
  have hentry : Disk.entry? (made.withScript (place ++ [name]) name description)
      (place ++ [name, entryFile]) = some (.text ("// " ++ name ++ "\n")) := by
    refine Disk.entry_of_file? ?_
    rw [file?_founded hfounds, if_pos rfl,
      if_neg fun h => entryFile_ne_descriptionFile (place_eq_iff.mp h.1).2]
  have hlocate : (made.withScript (place ++ [name]) name description).locate
      ((collection.join name).join entryFile) = some (place ++ [name] ++ [entryFile]) := by
    rw [Disk.locate_join (DiskPath.join_ne_empty hne hname.slash) isPart_entryFile.slash haccepted,
      hlasts.grows.locate hfounds.directory, Option.bind_some,
      Disk.step_component (hlasts.grows.directories hfounds.entry) (by decide), ← List.append_cons,
      hentry]
    rfl
  rw [hasScript, Origin.inCollection, Disk.isFile, Disk.find?, hlocate, Option.bind_some,
    ← List.append_cons, hentry]

/-- The scripts are the old ones and the new one. -/
theorem perm_scriptNames (htree : d.IsTree) (hfounds : d.Founds made collection name place)
    (hmissing : d.entry? (place ++ [name]) = none)
    (htree' : (made.withScript (place ++ [name]) name description).IsTree) :
    (scriptNames (made.withScript (place ++ [name]) name description) place).Perm
      (name :: scriptNames d place) := by
  have hnew : name ∉ scriptNames d place := by
    rw [mem_scriptNames htree, List.append_cons, Disk.file?_of_none (htree.missing hmissing _)]
    exact Bool.false_ne_true
  refine (List.perm_ext_iff_of_nodup (nodup_scriptNames htree' place)
    (List.nodup_cons.mpr ⟨hnew, nodup_scriptNames htree place⟩)).mpr fun other => ?_
  rw [mem_scriptNames htree', List.mem_cons, mem_scriptNames htree, file?_founded hfounds,
    if_neg fun h => entryFile_ne_descriptionFile (place_eq_iff.mp h.1).2]
  by_cases hother : other = name <;> simp [hother]

/-- Nothing else is told about the old scripts. -/
theorem listed_founded {other : String} (hfounds : d.Founds made collection name place)
    (hother : other ≠ name) :
    listed (made.withScript (place ++ [name]) name description) place other =
      listed d place other := by
  have hfile : (made.withScript (place ++ [name]) name description).file?
      (place ++ [other] ++ [descriptionFile]) =
        d.file? (place ++ [other] ++ [descriptionFile]) := by
    rw [← List.append_cons, file?_founded hfounds, if_neg fun h => hother (place_eq_iff.mp h.1).1,
      if_neg fun h => hother (place_eq_iff.mp h).1]
  rw [listed, listed, describe_eq, describe_eq, hfile]

theorem listed_new (htree : d.IsTree) (hfounds : d.Founds made collection name place)
    (hname : isScriptName name) (hmissing : d.entry? (place ++ [name]) = none)
    (hdescription : ∀ s ∈ description, substance? s = some s) :
    listed (made.withScript (place ++ [name]) name description) place name =
      .ok ⟨name, description⟩ := by
  have hdescribe : describe (made.withScript (place ++ [name]) name description)
      (place ++ [name]) = .ok description := by
    rw [describe_eq, ← List.append_cons, file?_founded hfounds]
    cases description with
    | none =>
      rw [if_neg (by simp), if_neg fun h => entryFile_ne_descriptionFile (place_eq_iff.mp h).2.symm,
        List.append_cons, Disk.file?_of_none (htree.missing hmissing _)]
    | some s =>
      rw [if_pos ⟨rfl, rfl⟩]
      exact congrArg Except.ok (hdescription s rfl)
  rw [listed, hdescribe, replaceAll_of_isScriptName hname]
  rfl

theorem mapM_congr {ε α β : Type} {f g : α → Except ε β} {as : List α} (h : ∀ a ∈ as, f a = g a) :
    as.mapM f = as.mapM g := by
  induction as with
  | nil => rfl
  | cons a as ih =>
    rw [List.forall_mem_cons] at h
    rw [List.mapM_cons, List.mapM_cons, h.1, ih h.2]

/-- A list of the scripts at a place gets one entry more.  The entries are in the order of the names
of their directories, before and after. -/
structure Inserted (d : Disk) (place : Place) (entry : Listed) (before after : List String)
    (old new : Except Fault (List Listed)) : Prop where
  old_eq : old = (before ++ after).mapM (listed d place)
  new_eq : new = do
    let bs ← before.mapM (listed d place)
    let as ← after.mapM (listed d place)
    return bs ++ entry :: as
  ordered : (before ++ entry.name :: after).Pairwise (· < ·)

theorem listScripts_withScript (htree : d.IsTree) (hfounds : d.Founds made collection name place)
    (hname : isScriptName name) (hmissing : d.entry? (place ++ [name]) = none)
    (hdescription : ∀ s ∈ description, substance? s = some s)
    (hlasts : made.Lasts (made.withScript (place ++ [name]) name description)) :
    ∃ before after, Inserted d place ⟨name, description⟩ before after (listScripts d place)
      (listScripts (made.withScript (place ++ [name]) name description) place) := by
  have htree' := hlasts.tree (hfounds.spreads.tree htree)
  obtain ⟨before, after, hold, hnew, hordered⟩ := mergeSort_insert
    (perm_scriptNames htree hfounds hmissing htree') (nodup_scriptNames htree' place)
  obtain ⟨-, hbehind, hacross⟩ := List.pairwise_append.mp hordered
  have hbefore : before.mapM (listed (made.withScript (place ++ [name]) name description) place) =
      before.mapM (listed d place) := by
    refine mapM_congr fun b hb => listed_founded hfounds ?_
    exact String.ne_of_lt (hacross b hb name List.mem_cons_self)
  have hafter : after.mapM (listed (made.withScript (place ++ [name]) name description) place) =
      after.mapM (listed d place) := by
    refine mapM_congr fun a ha => listed_founded hfounds ?_
    exact (String.ne_of_lt ((List.pairwise_cons.mp hbehind).1 a ha)).symm
  refine ⟨before, after, by rw [listScripts_eq, hold], ?_, hordered⟩
  rw [listScripts_eq, hnew, List.mapM_append, List.mapM_cons, hbefore, hafter,
    listed_new htree hfounds hname hmissing hdescription]
  refine bind_congr fun bs => ?_
  rw [ok_bind, bind_assoc]
  rfl

end PatchScript.Files
