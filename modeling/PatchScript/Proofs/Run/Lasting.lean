import PatchScript.Proofs.Run.Accounts
import PatchScript.Proofs.Run.Cursors

/-!
# What lasts while a block is run

While the body of a file block is run, its document is the one at the bottom of the stands: what
scripts that are included open and close stands above it.  So it is changed only at elements that
it has, and what such changes keep holds of the document that the body leaves
(`Block.Runs.lasting`).
-/

namespace PatchScript.Run

open Xml (Document NodeId)
open Script (Term)
open Eval

/-! ## The bottom of the stands -/

/-- The document that was opened before all others. -/
def Stands.bottom (S : Stands) : Option Document := (S.saved.getLast?.getD S.live).document

theorem Stands.bottom_push (live above : Stand) (saved : List Stand) :
    (Stands.mk above (live :: saved)).bottom = (Stands.mk live saved).bottom := by
  rw [bottom, bottom, List.getLast?_cons]
  rfl

/-- What changes at elements keep. -/
def Lasts (P : Document → Prop) : Prop :=
  ∀ (d d' : Document) (id : NodeId) (e : Change), d.Reachable → d.isElement id → e.ActsOn d id →
    e.apply d = .ok d' → P d → P d'

variable {P : Document → Prop}

/-- A move keeps what lasts of the document at the bottom. -/
theorem Move.bottom (hP : Lasts P) {S T : Stands} (h : Move S T) (hS : S.Safe)
    (hbottom : ∀ d ∈ S.bottom, P d) : ∀ d ∈ T.bottom, P d := by
  -- Where the document stays the same, it does not matter whether it is at the bottom.
  have same {document : Option Document} {p q : Spot} {outer outer' : List Spot}
      {saved : List Stand} : (Stands.mk ⟨document, p, outer⟩ saved).bottom =
        (Stands.mk ⟨document, q, outer'⟩ saved).bottom := by
    rw [Stands.bottom, Stands.bottom]
    cases saved.getLast? <;> rfl
  cases h with
  | stays => exact hbottom
  | @changes d d' e p outer saved hacts happly =>
    intro d₁ hd₁
    rw [Stands.bottom] at hbottom hd₁
    cases hlast : saved.getLast? with
    | some a =>
      rw [hlast] at hbottom hd₁
      exact hbottom d₁ hd₁
    | none =>
      rw [hlast] at hbottom hd₁
      cases hd₁
      have hlive := hS _ List.mem_cons_self
      exact hP d d' _ e (hlive.reachable rfl) hlive.isElement hacts happly (hbottom d rfl)
  | finds | continues | leaves | fails =>
    rw [same]
    exact hbottom
  | opens | starts =>
    rw [Stands.bottom_push]
    exact hbottom
  | returns =>
    rw [Stands.bottom_push] at hbottom
    exact hbottom

theorem Trail.bottom (hP : Lasts P) {S T : Stands} {between : List Stands}
    (h : Trail S between T) (hS : S.Safe) (hbottom : ∀ d ∈ S.bottom, P d) :
    T.Safe ∧ ∀ d ∈ T.bottom, P d := by
  induction h with
  | nil => exact ⟨hS, hbottom⟩
  | cons hmove _ ih => exact ih (hmove.safe hS) (hmove.bottom hP hS hbottom)

/-! ## Blocks -/

variable {σ : Type} [DocumentStore σ] {host : Host} {b : Block σ}

/-- What changes at elements keep of the document that a block was given holds of the one that it
leaves.  This one can be made. -/
theorem Block.Runs.lasting (hσ : GivesReachable σ) (hP : Lasts P) (h : b.Runs host)
    (hloaded : P b.loaded) : b.left.Reachable ∧ P b.left := by
  obtain ⟨scripts, presets, hran⟩ := h.ran
  have hreachable : b.loaded.Reachable := hσ _ _ _ h.found
  have hsame := (Watched.wrapping σ).follows_evalBody host scripts presets b.body b.entered.watched
  have hentered : (Watched.wrapping σ).session b.entered.watched = b.entered := rfl
  rw [hentered, hran] at hsame
  have hclosed := congrArg (·.2.context.document) hsame
  have hgoes := Going.evalBody hσ (Going.waysAt hσ host scripts presets) b.body b.entered.watched
  obtain ⟨between, -, htrail⟩ := hgoes.through [] []
  have hsafe : Stands.Safe ⟨.fresh (some b.loaded), []⟩ :=
    List.forall_mem_singleton.mpr (.fresh fun d hd => by cases hd; exact hreachable)
  obtain ⟨hend, hleft⟩ := htrail.bottom hP hsafe fun d hd => by cases hd; exact hloaded
  have hdocument := hclosed.symm.trans h.left
  exact ⟨(hend _ List.mem_cons_self).reachable hdocument, hleft b.left hdocument⟩

/-- Something told keeps the diagnostics from being the same. -/
theorem ne_of_told {before after : List Diagnostic} {told : Diagnostic} (h : before <+: after) :
    after ++ [told] ≠ before := by
  intro heq
  have hlength := h.length_le
  rw [← heq, List.length_append, List.length_singleton] at hlength
  exact absurd hlength (Nat.not_succ_le_self _)

/-- Where there is a document at a path and no document is open, to open the file without a
failure is a block. -/
theorem exists_block_of_load {scripts presets : Nat} {path : String} {body : List (Term Nat)}
    {u t : Session σ} {d : Document} (halone : u.context.document = none)
    (hfound : DocumentStore.load u.store path = .ok (some d))
    (hfile : openFile path (evalBody (waysAt host scripts presets) body) u = (.ok (), t)) :
    ∃ b : Block σ, b.opened = u ∧ b.path = path ∧ b.body = body ∧ b.Runs host ∧
      evalBody (waysAt host scripts presets) body b.entered = (.ok (), b.closed) ∧
      b.Ends (.ok ()) t := by
  have keeps : Keeps (σ := σ) (evalBody (waysAt host scripts presets) body) :=
    .of_steady ((Keeps.waysAt host scripts presets).evalBody body fun _ _ => trivial)
  let asked : Session σ := { u with calls := u.calls ++ [.load path] }
  let entered := asked.comeTo (u.context.enterDocument d)
  obtain ⟨left, hleft⟩ := Option.isSome_iff_exists.mp (keeps entered).document
  let b : Block σ := ⟨path, body, u, d, (evalBody (waysAt host scripts presets) body entered).1,
    (evalBody (waysAt host scripts presets) body entered).2, left⟩
  have hruns : b.Runs host := ⟨halone, hfound, ⟨scripts, presets, rfl⟩, hleft⟩
  obtain ⟨r, t', hrun, hends⟩ := hruns.ends (w := waysAt host scripts presets) rfl
  cases hfile.symm.trans hrun
  have hresult : b.result = .ok () := by
    cases hends with
    | written hresult _ => exact hresult
  exact ⟨b, rfl, rfl, rfl, hruns, Prod.ext hresult rfl, hends⟩

/-- Where a file block does not fail and tells nothing, its document is there, its body comes to
an end on it, and what is left is written. -/
theorem exists_block_of_file {scripts presets : Nat} {path : Term Nat} {body : List (Term Nat)}
    {s t : Session σ} {r : Option String}
    (h : eval (waysAt host scripts presets) (.file path body) s = (.ok r, t))
    (hquiet : t.context.diagnostics = s.context.diagnostics) :
    ∃ (value : Option String) (b : Block σ),
      eval (waysAt host scripts presets) path s = (.ok value, b.opened) ∧
      b.path = value.getD "" ∧ b.body = body ∧ b.Runs host ∧
      evalBody (waysAt host scripts presets) body b.entered = (.ok (), b.closed) ∧
      b.Ends (.ok ()) t := by
  have keeps : Keeps (σ := σ) (eval (waysAt host scripts presets) path) :=
    .of_steady ((Keeps.waysAt host scripts presets).eval path fun _ _ => trivial)
  rw [eval] at h
  rw [context_bind_run] at h
  cases hopen : s.context.document with
  | some d =>
    rw [hopen] at h
    dsimp only at h
    rw [if_pos Option.isSome_some] at h
    obtain ⟨⟨⟩, u, hskip, h⟩ := bind_run_eq_ok h
    cases h
    cases hskip
    exact absurd hquiet (ne_of_told (List.prefix_refl _))
  | none =>
    rw [hopen] at h
    dsimp only at h
    rw [if_neg (by simp)] at h
    obtain ⟨value, u, hpath, h⟩ := bind_run_eq_ok h
    obtain ⟨⟨⟩, v, hfile, h⟩ := bind_run_eq_ok h
    cases h
    have hu := keeps s
    rw [hpath] at hu
    have hload := load_run (value.getD "") u
    cases hfound : DocumentStore.load u.store (value.getD "") with
    | error e =>
      rw [hfound] at hload
      rw [openFile] at hfile
      rw [bind_run_error hload] at hfile
      cases hfile
    | ok found =>
      cases found with
      | none =>
        rw [hfound] at hload
        rw [openFile] at hfile
        rw [bind_run_ok hload] at hfile
        cases hfile
        exact absurd hquiet (ne_of_told hu.diagnostics)
      | some d =>
        have halone : u.context.document = none := by
          have hsome := hu.document
          rw [hopen] at hsome
          exact Option.isSome_eq_false_iff.mp hsome |> Option.isNone_iff_eq_none.mp
        obtain ⟨b, rfl, hb⟩ := exists_block_of_load halone hfound hfile
        exact ⟨value, b, hpath, hb⟩

end PatchScript.Run
