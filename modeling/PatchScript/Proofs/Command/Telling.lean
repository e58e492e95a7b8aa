import PatchScript.Command.Perform
import PatchScript.Proofs.Files.Disks
import PatchScript.Proofs.Reading
import PatchScript.Proofs.Run.Reporting

/-!
# What is told can be read back

An action that runs a script shows a line that it was done, and a line for each diagnostic.  These
lines are told apart by the line feeds that end them, and in a line the code is what stands between
the first two colons.  No code has a colon, but a message may have anything in it that a script or
a document quotes.  So the diagnostics can be read back as long as no text that is quoted has a line
feed, and only then (`diagnostics_are_read_back_iff`).  Two runs with different diagnostics can even
show the same (`different_diagnostics_look_the_same`).
-/

namespace PatchScript.Command

open Files
open Run (Diagnostic Skipped)
open Text (pieces)

/-! ## Lines -/

/-- Lines one below the other. -/
def linesText (ls : List String) : String := String.join (ls.map (· ++ "\n"))

/-- The lines of a text, each of which is ended by a line feed. -/
def linesOf (s : String) : List String := (pieces '\n' s.toList).dropLast.map String.ofList

theorem length_pieces (mark : Char) (cs : List Char) :
    (pieces mark cs).length = cs.count mark + 1 := by
  induction cs with
  | nil => rfl
  | cons c cs ih =>
    obtain ⟨p, ps, hcs, hcons⟩ := pieces_cons mark c cs
    rw [hcs, List.length_cons] at ih
    rw [hcons, List.count_cons]
    split <;> simp_all

theorem pieces_linesText (ls : List String) : pieces '\n' (linesText ls).toList =
    (ls.flatMap fun l => pieces '\n' l.toList) ++ [[]] := by
  induction ls with
  | nil => rfl
  | cons l ls ih =>
    have hcons : (linesText (l :: ls)).toList = l.toList ++ '\n' :: (linesText ls).toList := by
      simp [linesText, String.toList_join]
    rw [hcons, pieces_append_mark, ih, List.flatMap_cons, List.append_assoc]

/-- Each line is cut where a line feed is in it. -/
theorem linesOf_linesText (ls : List String) :
    linesOf (linesText ls) = (ls.flatMap fun l => pieces '\n' l.toList).map String.ofList := by
  rw [linesOf, pieces_linesText, List.dropLast_concat]

/-- A line feed in a line makes one line more. -/
theorem length_linesOf (ls : List String) :
    (linesOf (linesText ls)).length = ls.length + (ls.flatMap String.toList).count '\n' := by
  rw [linesOf_linesText, List.length_map]
  induction ls with
  | nil => rfl
  | cons l ls ih =>
    rw [List.flatMap_cons, List.length_append, ih, length_pieces, List.flatMap_cons,
      List.count_append, List.length_cons]
    omega

/-- Lines are the lines of their text if no line feed is in them. -/
theorem linesOf_of_feedless {ls : List String} (h : ∀ l ∈ ls, '\n' ∉ l.toList) :
    linesOf (linesText ls) = ls := by
  rw [linesOf_linesText]
  induction ls with
  | nil => rfl
  | cons l ls ih =>
    rw [List.forall_mem_cons] at h
    rw [List.flatMap_cons, pieces_of_notMem h.1, List.map_append, ih h.2, List.map_singleton,
      String.ofList_toList]
    rfl

/-- If there are no more lines than there should be, none has a line feed. -/
theorem feedless_of_length {ls : List String} (h : (linesOf (linesText ls)).length = ls.length) :
    ∀ l ∈ ls, '\n' ∉ l.toList := by
  rw [length_linesOf, Nat.add_eq_left] at h
  exact fun l hl hfeed => List.count_eq_zero.mp h (List.mem_flatMap_of_mem hl hfeed)

/-! ## Diagnostics -/

/-- The line about a diagnostic. -/
def diagnosticLine (d : Diagnostic) : String := "DIAGNOSTIC:" ++ d.code ++ ":" ++ d.message

/-- The lines about a run that is done. -/
def resultLines (ds : List Diagnostic) : List String := "RESULT:OK" :: ds.map diagnosticLine

/-- What stands before the first mark and what stands behind it. -/
def cut (mark : Char) (cs : List Char) : List Char × List Char :=
  (cs.takeWhile (· != mark), (cs.dropWhile (· != mark)).tail)

/-- The diagnostic that a line is about, if it is about one. -/
def ofLine? (line : String) : Option Diagnostic :=
  let (tag, rest) := cut ':' line.toList
  let (code, message) := cut ':' rest
  if tag = "DIAGNOSTIC".toList then some ⟨String.ofList code, String.ofList message⟩ else none

/-- The diagnostics that are told behind the line that the action was done. -/
def readBack (shown : String) : Option (List Diagnostic) :=
  match linesOf shown with
  | first :: lines => if first = "RESULT:OK" then lines.mapM ofLine? else none
  | [] => none

theorem cut_append {mark : Char} {cs : List Char} (h : mark ∉ cs) (rest : List Char) :
    cut mark (cs ++ mark :: rest) = (cs, rest) := by
  have hall : ∀ c ∈ cs, c != mark := fun c hc => bne_iff_ne.mpr fun hmark => h (hmark ▸ hc)
  rw [cut, List.takeWhile_append_of_pos hall, List.dropWhile_append_of_pos hall,
    List.takeWhile_cons_of_neg (by simp), List.dropWhile_cons_of_neg (by simp), List.append_nil,
    List.tail_cons]

theorem toList_diagnosticLine (d : Diagnostic) : (diagnosticLine d).toList =
    "DIAGNOSTIC".toList ++ ':' :: (d.code.toList ++ ':' :: d.message.toList) := by
  simp [diagnosticLine]

/-- No code has a colon, so the message is what stands behind the second one. -/
theorem ofLine?_diagnosticLine (why : Skipped) :
    ofLine? (diagnosticLine why.diagnostic) = some why.diagnostic := by
  have hcode : ':' ∉ why.diagnostic.code.toList := fun h =>
    absurd (why.isCodeChar_of_mem_code ':' h) (by decide)
  rw [ofLine?, toList_diagnosticLine, cut_append (by decide)]
  dsimp only
  rw [cut_append hcode, if_pos rfl, String.ofList_toList, String.ofList_toList]

theorem mapM_ofLine? (whys : List Skipped) :
    ((whys.map Skipped.diagnostic).map diagnosticLine).mapM ofLine? =
      some (whys.map Skipped.diagnostic) := by
  induction whys with
  | nil => rfl
  | cons why whys ih =>
    rw [List.map_cons, List.map_cons, List.mapM_cons, ofLine?_diagnosticLine, ih]
    rfl

theorem length_of_mapM {α β : Type} {f : α → Option β} {as : List α} {bs : List β}
    (h : as.mapM f = some bs) : as.length = bs.length := by
  induction as generalizing bs with
  | nil =>
    cases h
    rfl
  | cons a as ih =>
    rw [List.mapM_cons] at h
    obtain ⟨b, -, h⟩ := Option.bind_eq_some_iff.mp h
    obtain ⟨bs', hrest, hbs⟩ := Option.bind_eq_some_iff.mp h
    cases hbs
    rw [List.length_cons, List.length_cons, ih hrest]

/-- As many lines are read as there are diagnostics, and one. -/
theorem length_of_readBack {shown : String} {ds : List Diagnostic} (h : readBack shown = some ds) :
    (linesOf shown).length = ds.length + 1 := by
  rw [readBack] at h
  split at h
  · rename_i first lines hlines
    split at h
    · rw [hlines, List.length_cons, length_of_mapM h]
    · cases h
  · cases h

/-- A line feed is in one of the lines if it is in one of the texts that are quoted. -/
theorem feedless_resultLines_iff {whys : List Skipped} :
    (∀ l ∈ resultLines (whys.map Skipped.diagnostic), '\n' ∉ l.toList) ↔
      ∀ why ∈ whys, '\n' ∉ why.quoted.toList := by
  have hline (why : Skipped) : '\n' ∈ (diagnosticLine why.diagnostic).toList ↔
      '\n' ∈ why.quoted.toList := by
    have hcode : '\n' ∉ why.diagnostic.code.toList := fun h =>
      absurd (why.isCodeChar_of_mem_code '\n' h) (by decide)
    rw [← why.lineFeed_mem_message, toList_diagnosticLine]
    simp [hcode]
  rw [resultLines, List.forall_mem_cons, List.forall_mem_map, List.forall_mem_map]
  simp only [hline]
  exact and_iff_right (by decide)

variable {whys : List Skipped}

theorem linesOf_resultLines_iff :
    linesOf (linesText (resultLines (whys.map Skipped.diagnostic))) =
      resultLines (whys.map Skipped.diagnostic) ↔ ∀ why ∈ whys, '\n' ∉ why.quoted.toList := by
  rw [← feedless_resultLines_iff]
  exact ⟨fun h => feedless_of_length (congrArg List.length h), linesOf_of_feedless⟩

theorem readBack_resultLines_iff :
    readBack (linesText (resultLines (whys.map Skipped.diagnostic))) =
      some (whys.map Skipped.diagnostic) ↔ ∀ why ∈ whys, '\n' ∉ why.quoted.toList := by
  constructor
  · intro h
    rw [← feedless_resultLines_iff]
    refine feedless_of_length ?_
    rw [length_of_readBack h, resultLines, List.length_cons, List.length_map (f := diagnosticLine)]
  · intro h
    rw [readBack, linesOf_resultLines_iff.mpr h]
    exact mapM_ofLine? whys

/-! ## Actions -/

/-- Does the action run a script? -/
def Action.runs : Action → Bool
  | .run _ | .exec _ => true
  | _ => false

/-- The diagnostics of the run that an invocation asks for, if it comes to its end. -/
def diagnosticsOf (seed : UInt32) (inv : Invocation) (d : Disk) : Option (List Diagnostic) := do
  let config ← (settings inv d).toOption
  let o ← (originOf config d inv.action).toOption.join
  (runOrigin seed config d o).result.toOption

variable {words : List String} {inv : Invocation}

theorem originOf_ne_none {config : Config} {d : Disk} {t : Action} (h : t.runs) :
    originOf config d t ≠ .ok none := by
  intro hnone
  cases t with
  | run name =>
    obtain ⟨place, -, hnone⟩ := bind_eq_ok hnone
    dsimp only at hnone
    split at hnone <;> cases hnone
  | exec file =>
    obtain ⟨path, -, hnone⟩ := bind_eq_ok hnone
    cases hnone
  | _ => cases h

/-- An action that runs a script does nothing else, if the script is there. -/
theorem doAction_of_runs (seed : UInt32) (config : Config) (d : Disk) {t : Action} (h : t.runs) :
    (∃ e, doAction seed config d t = (.error e, d)) ∨
      ∃ o, originOf config d t = .ok (some o) ∧
        doAction seed config d t = runAndTell seed config d o := by
  cases horigin : originOf config d t with
  | error e =>
    refine .inl ⟨e, ?_⟩
    cases t with
    | run script | exec script =>
      delta doAction
      dsimp only
      rw [horigin]
    | _ => cases h
  | ok o =>
    cases o with
    | none => exact absurd horigin (originOf_ne_none h)
    | some o =>
      refine .inr ⟨o, rfl, ?_⟩
      cases t with
      | run script | exec script =>
        delta doAction
        dsimp only
        rw [horigin]
      | _ => cases h

/-- Where an action that runs a script is done, the run comes to its end, and its diagnostics are
what is shown. -/
theorem answer_of_runs (seed : UInt32) (d : Disk) (hwords : Invocation.ofWords words = .ok inv)
    (hruns : inv.action.runs) (hok : (answer seed words d).1.code = 0) :
    ∃ whys : List Skipped, diagnosticsOf seed inv d = some (whys.map Skipped.diagnostic) ∧
      (answer seed words d).1.lines = resultLines (whys.map Skipped.diagnostic) := by
  have hanswer : answer seed words d = perform seed inv d := by rw [answer, hwords]
  rw [hanswer, perform] at hok ⊢
  rw [diagnosticsOf]
  cases hsettings : settings inv d with
  | error e =>
    rw [hsettings] at hok
    cases hok
  | ok config =>
    rw [hsettings] at hok
    dsimp only at hok ⊢
    obtain ⟨e, hdo⟩ | ⟨o, horigin, hdo⟩ := doAction_of_runs seed config d hruns
    · rw [hdo] at hok
      cases hok
    · rw [hdo, runAndTell] at hok ⊢
      cases hresult : (runOrigin seed config d o).result with
      | error e =>
        rw [hresult] at hok
        cases hok
      | ok ds =>
        obtain ⟨whys, rfl⟩ := Run.reported_of_runScript hresult
        refine ⟨whys, by simp [horigin, hresult, Except.toOption], ?_⟩
        have hline (told : Diagnostic) : "DIAGNOSTIC:" ++ told.render = diagnosticLine told := by
          rw [Diagnostic.render, diagnosticLine, String.append_assoc, String.append_assoc,
            String.append_assoc]
        simp only [hline]
        rfl

/-- What an action that runs a script shows when it is done is the line that it was done and one
for each diagnostic of the run, in order, all of which are about directives that did nothing.  The
text has just these lines if and only if no line feed is in a text that a diagnostic quotes, and
just then the diagnostics are read back from it. -/
theorem diagnostics_are_read_back_iff (seed : UInt32) (d : Disk)
    (hwords : Invocation.ofWords words = .ok inv) (hruns : inv.action.runs)
    (hok : (answer seed words d).1.code = 0) :
    ∃ whys : List Skipped, diagnosticsOf seed inv d = some (whys.map Skipped.diagnostic) ∧
      let shown := (answer seed words d).1.shown
      let lines := resultLines (whys.map Skipped.diagnostic)
      shown = linesText lines ∧
      (linesOf shown = lines ↔ ∀ why ∈ whys, '\n' ∉ why.quoted.toList) ∧
      (readBack shown = some (whys.map Skipped.diagnostic) ↔
        ∀ why ∈ whys, '\n' ∉ why.quoted.toList) := by
  obtain ⟨whys, hds, hlines⟩ := answer_of_runs seed d hwords hruns hok
  have hshown : (answer seed words d).1.shown =
      linesText (resultLines (whys.map Skipped.diagnostic)) := by
    rw [Reply.shown, hlines, linesText]
  refine ⟨whys, hds, hshown, ?_, ?_⟩
  · rw [hshown]
    exact linesOf_resultLines_iff
  · rw [hshown]
    exact readBack_resultLines_iff

/-- A document is not there, and its path has no line feed. -/
theorem diagnostics_are_read_back_of_missing_file :
    let d : Disk := ⟨[(["files"], .directory), (["files", "scripts"], .directory),
      (["files", "scripts", "s"], .directory),
      (["files", "scripts", "s", "index.mml"], .text "file 'x' \x7b \x7d")], []⟩
    let inv : Invocation := ⟨.run "s", none, none, none, none, false⟩
    let missing : Diagnostic := ⟨"FILE_NOT_FOUND", "File 'x' not found"⟩
    Invocation.ofWords ["run", "s"] = .ok inv ∧ inv.action.runs ∧
      (answer 7 ["run", "s"] d).1.code = 0 ∧ diagnosticsOf 7 inv d = some [missing] ∧
      readBack (answer 7 ["run", "s"] d).1.shown = some [missing] := by
  intro d inv missing
  have hwords : Invocation.ofWords ["run", "s"] = .ok inv := by rfl
  have hok : (answer 7 ["run", "s"] d).1.code = 0 := by decide +kernel
  have hmissing : diagnosticsOf 7 inv d = some [missing] := by decide +kernel
  obtain ⟨whys, hds, -, -, hread⟩ := diagnostics_are_read_back_iff 7 d hwords rfl hok
  have hwhys : whys.map Skipped.diagnostic = [missing] := Option.some.inj (hds.symm.trans hmissing)
  refine ⟨hwords, rfl, hok, hmissing, (hread.mpr fun why hwhy => ?_).trans (congrArg some hwhys)⟩
  have hwhy : why.diagnostic = missing :=
    List.mem_singleton.mp (hwhys ▸ List.mem_map_of_mem hwhy)
  rw [← why.lineFeed_mem_message, hwhy]
  decide

/-- A missing predecessor, whose name a document gives, is told of as another one and a missing
document would be. -/
theorem different_diagnostics_look_the_same :
    let disk (script document : String) : Disk := ⟨[(["files"], .directory),
      (["files", "scripts"], .directory), (["files", "scripts", "s"], .directory),
      (["files", "scripts", "s", "index.mml"], .text script), (["files", "temp"], .directory),
      (["files", "temp", "[media]"], .directory),
      (["files", "temp", "[media]", "d.xml"], .text document)], []⟩
    let one := disk "file 'd' \x7b change_add get('r/@t') at 2 \x7b \x7d \x7d"
      "<r t=\"x' not found&#10;DIAGNOSTIC:FILE_NOT_FOUND:File 'y\"/>"
    let two := disk "file 'd' \x7b change_add 'x' at 2 \x7b \x7d \x7d file 'y' \x7b \x7d" "<r/>"
    let inv : Invocation := ⟨.run "s", none, none, none, none, false⟩
    (answer 7 ["run", "s"] one).1.code = 0 ∧ (answer 7 ["run", "s"] two).1.code = 0 ∧
      (answer 7 ["run", "s"] one).1.shown = (answer 7 ["run", "s"] two).1.shown ∧
      (diagnosticsOf 7 inv one).map List.length = some 1 ∧
      (diagnosticsOf 7 inv two).map List.length = some 2 := by
  decide +kernel

end PatchScript.Command
