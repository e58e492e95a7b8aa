import PatchScript.Proofs.Number.Whole
import PatchScript.Proofs.Run.Steps
import PatchScript.Proofs.Run.Templates
import PatchScript.Proofs.Text.Replacing
import PatchScript.Run.Eval

/-!
# Filling slots

A constant can be called with arguments.  Its text is made of *pieces*: characters that stand
for themselves, and slots.  To fill it is to put the texts of the arguments in the slots of
their numbers, all at once.

A call fills one slot after the other, each wherever it stands in the text made so far.  That
is the same as long as an opening bracket stands nowhere but at the start of a slot, neither in
the text nor in those that are put in.  Then no slot is made by what was put in, since it would
have to start there, and none is broken, since the characters of a slot are never replaced one
by one (`replaced_spelled`).

Arguments are evaluated in order, and a fault of one of them ends the call (`Gives`).
-/

namespace PatchScript.Run.Slots

open Script (Term)
open Eval
open Text (replaced replaced_cons replaced_append)

/-! ## Pieces -/

/-- A piece of a text. -/
inductive Piece where
  /-- A character that stands for itself. -/
  | mark (c : Char)
  /-- The slot of a number. -/
  | slot (k : Nat)
deriving DecidableEq

namespace Piece

/-- How a piece is spelled. -/
def spelling : Piece → List Char
  | mark c => [c]
  | slot k => (Run.slot k).toList

/-- A piece with a text in its slot, if there is one for its number. -/
def filled (text? : Nat → Option String) : Piece → List Piece
  | mark c => [mark c]
  | slot k =>
    match text? k with
    | some v => v.toList.map mark
    | none => [slot k]

end Piece

variable {ps : List Piece} {text v : String} {texts : List String} {k j : Nat}
  {text? : Nat → Option String} {cs : List Char}

/-- How pieces are spelled. -/
def spelled (ps : List Piece) : List Char := ps.flatMap Piece.spelling

/-- Pieces with texts in the slots, as far as there are texts for their numbers. -/
def filled (text? : Nat → Option String) (ps : List Piece) : List Piece :=
  ps.flatMap (Piece.filled text?)

/-- Texts by number, of which the first has the number `k`. -/
def numbered (k : Nat) (texts : List String) (j : Nat) : Option String :=
  if j < k then none else texts[j - k]?

/-- A text for one number. -/
def only (k : Nat) (v : String) (j : Nat) : Option String := if j = k then some v else none

/-- Every opening bracket of the text starts a slot. -/
def OnlySlots (cs : List Char) : Prop :=
  ∀ before after, cs = before ++ '[' :: after → ∃ k, (slot k).toList <+: '[' :: after

@[simp] theorem spelled_nil : spelled [] = [] := rfl

@[simp] theorem spelled_cons (p : Piece) (ps : List Piece) :
    spelled (p :: ps) = p.spelling ++ spelled ps := rfl

@[simp] theorem spelled_append (ps qs : List Piece) :
    spelled (ps ++ qs) = spelled ps ++ spelled qs := List.flatMap_append

@[simp] theorem filled_nil : filled text? [] = [] := rfl

@[simp] theorem filled_cons (p : Piece) (ps : List Piece) :
    filled text? (p :: ps) = p.filled text? ++ filled text? ps := rfl

@[simp] theorem filled_append (ps qs : List Piece) :
    filled text? (ps ++ qs) = filled text? ps ++ filled text? qs := List.flatMap_append

@[simp] theorem spelled_marks (cs : List Char) : spelled (cs.map .mark) = cs := by
  induction cs with
  | nil => rfl
  | cons c cs ih => rw [List.map_cons, spelled_cons, ih]; rfl

/-- In characters there is nothing to fill. -/
@[simp] theorem filled_marks (cs : List Char) : filled text? (cs.map .mark) = cs.map .mark := by
  induction cs with
  | nil => rfl
  | cons c cs ih => rw [List.map_cons, filled_cons, ih]; rfl

/-! ## Slots -/

theorem toList_slot (k : Nat) : (slot k).toList = '[' :: (Nat.toDigits 10 k ++ [']']) := by
  simp [slot, String.toList_append]

theorem slot_ne_nil (k : Nat) : (slot k).toList ≠ [] := by
  rw [toList_slot]
  exact List.cons_ne_nil _ _

/-- Behind its first character, a slot has no opening bracket. -/
theorem bracket_notMem (k : Nat) : '[' ∉ Nat.toDigits 10 k ++ [']'] := by
  intro h
  rcases List.mem_append.mp h with h | h
  · exact absurd (Decimal.isDigit_of_mem_toDigits h) (by decide)
  · cases List.mem_singleton.mp h

/-- The digits of a slot end at its closing bracket. -/
theorem takeWhile_digits (k : Nat) (rest : List Char) :
    (Nat.toDigits 10 k ++ [']'] ++ rest).takeWhile Text.isDigit = Nat.toDigits 10 k := by
  rw [List.append_assoc,
    List.takeWhile_append_of_pos fun c hc => Decimal.isDigit_of_mem_toDigits hc]
  simp [show Text.isDigit ']' = false from rfl]

/-- The slots of two numbers start differently. -/
theorem number_eq_of_slot (h : (slot k).toList <+: (slot j).toList ++ cs) : k = j := by
  rw [toList_slot, toList_slot, List.cons_append, List.cons_prefix_cons] at h
  obtain ⟨rest, hrest⟩ := h.2
  have hdigits := congrArg (List.takeWhile Text.isDigit) hrest
  rw [takeWhile_digits, takeWhile_digits] at hdigits
  rw [← Decimal.ofDigits_toDigits k, hdigits, Decimal.ofDigits_toDigits]

/-- Where an opening bracket stands in pieces without one, a slot starts. -/
theorem onlySlots_spelled (hps : Piece.mark '[' ∉ ps) : OnlySlots (spelled ps) := by
  induction ps with
  | nil => exact fun before after h => absurd h.symm (by simp)
  | cons p ps ih =>
    rw [List.mem_cons, not_or] at hps
    intro before after h
    rw [spelled_cons] at h
    rcases List.append_eq_append_iff.mp h with ⟨rest, rfl, hrest⟩ | ⟨rest, hp, hrest⟩
    · exact ih hps.2 rest after hrest
    · -- The bracket is in the first piece, or the first behind it.
      cases rest with
      | nil => exact ih hps.2 [] after (by simpa using hrest.symm)
      | cons c rest =>
        obtain ⟨rfl, rfl⟩ := List.cons.inj hrest
        cases p with
        | mark c =>
          have hc : '[' ∈ [c] := by rw [show [c] = before ++ '[' :: rest from hp]; simp
          exact absurd (congrArg Piece.mark (List.mem_singleton.mp hc)) hps.1
        | slot k =>
          cases before with
          | nil => exact ⟨k, by rw [show (slot k).toList = '[' :: rest from hp]; simp⟩
          | cons b before =>
            rw [Piece.spelling, toList_slot] at hp
            have hmem : '[' ∈ Nat.toDigits 10 k ++ [']'] := by simp [(List.cons.inj hp).2]
            exact absurd hmem (bracket_notMem k)

/-- A text whose opening brackets all start slots is made of other characters and of slots. -/
theorem exists_pieces : ∀ {cs : List Char}, OnlySlots cs →
    ∃ ps, spelled ps = cs ∧ Piece.mark '[' ∉ ps := by
  intro cs
  induction hlength : cs.length using Nat.strong_induction_on generalizing cs with
  | h n ih =>
    intro hcs
    have behind {before rest : List Char} (hne : before ≠ []) (hsplit : cs = before ++ rest) :
        ∃ ps, spelled ps = rest ∧ Piece.mark '[' ∉ ps := by
      refine ih rest.length ?_ rfl fun before' after h => ?_
      · have hpos := List.length_pos_iff.mpr hne
        rw [← hlength, hsplit, List.length_append]
        omega
      · exact hcs (before ++ before') after (by rw [hsplit, h, List.append_assoc])
    cases cs with
    | nil => exact ⟨[], rfl, List.not_mem_nil⟩
    | cons c cs =>
      by_cases hc : c = '['
      · subst hc
        obtain ⟨k, rest, hrest⟩ := hcs [] cs rfl
        obtain ⟨ps, hps, hmark⟩ := behind (slot_ne_nil k) hrest.symm
        refine ⟨.slot k :: ps, ?_, by simpa using hmark⟩
        rw [spelled_cons, hps]
        exact hrest
      · obtain ⟨ps, rfl, hmark⟩ := behind (List.cons_ne_nil c []) rfl
        exact ⟨.mark c :: ps, rfl, by simpa [Ne.symm hc] using hmark⟩

/-! ## One step -/

/-- What holds no opening bracket is kept. -/
theorem replaced_kept {xs : List Char} (hxs : '[' ∉ xs) (new cs : List Char) :
    replaced (slot k).toList new (xs ++ cs) = xs ++ replaced (slot k).toList new cs := by
  induction xs with
  | nil => rfl
  | cons x xs ih =>
    have hnot : ¬(slot k).toList <+: x :: (xs ++ cs) := by
      rw [toList_slot]
      intro h
      exact hxs ((List.cons_prefix_cons.mp h).1 ▸ List.mem_cons_self)
    rw [List.cons_append, replaced_cons hnot, ih fun h => hxs (List.mem_cons_of_mem x h)]
    rfl

/-- A step fills the slots of its number and does nothing else. -/
theorem replaced_spelled (hps : Piece.mark '[' ∉ ps) :
    replaced (slot k).toList v.toList (spelled ps) = spelled (filled (only k v) ps) := by
  induction ps with
  | nil => rfl
  | cons p ps ih =>
    rw [List.mem_cons, not_or] at hps
    rw [spelled_cons, filled_cons, spelled_append, ← ih hps.2]
    cases p with
    | mark c =>
      have hc : '[' ∉ [c] := fun h => hps.1 (congrArg Piece.mark (List.mem_singleton.mp h))
      exact replaced_kept hc _ _
    | slot j =>
      rw [Piece.spelling]
      by_cases hj : j = k
      · subst hj
        rw [replaced_append (slot_ne_nil j), Piece.filled, only, if_pos rfl, spelled_marks]
      · have hkept : ¬(slot k).toList <+: (slot j).toList ++ spelled ps := fun h =>
          hj (number_eq_of_slot h).symm
        rw [Piece.filled, only, if_neg hj]
        rw [toList_slot j, List.cons_append] at hkept ⊢
        rw [replaced_cons hkept, replaced_kept (bracket_notMem j)]
        simp [Piece.spelling, toList_slot]

/-! ## All steps -/

/-- The characters are those of the pieces and those of the texts put in. -/
theorem mark_notMem_filled {c : Char} (hps : Piece.mark c ∉ ps)
    (htexts : ∀ j v, text? j = some v → c ∉ v.toList) : Piece.mark c ∉ filled text? ps := by
  intro h
  obtain ⟨p, hp, hmark⟩ := List.mem_flatMap.mp h
  cases p with
  | mark c' =>
    rw [Piece.filled, List.mem_singleton] at hmark
    exact hps (hmark ▸ hp)
  | slot j =>
    rw [Piece.filled] at hmark
    split at hmark
    · rename_i v hv
      obtain ⟨c', hc', heq⟩ := List.mem_map.mp hmark
      exact htexts j v hv (Piece.mark.inj heq ▸ hc')
    · cases List.mem_singleton.mp hmark

/-- The first text is put in, and then the others. -/
theorem filled_filled (k : Nat) (v : String) (texts : List String) (ps : List Piece) :
    filled (numbered (k + 1) texts) (filled (only k v) ps) =
      filled (numbered k (v :: texts)) ps := by
  induction ps with
  | nil => rfl
  | cons p ps ih =>
    rw [filled_cons, filled_append, ih, filled_cons]
    congr 1
    cases p with
    | mark c => rfl
    | slot j =>
      rcases Nat.lt_trichotomy j k with hlt | rfl | hgt
      · have hsucc : j < k + 1 := Nat.lt_succ_of_lt hlt
        simp [Piece.filled, only, numbered, hlt, hsucc, hlt.ne]
      · simp [Piece.filled, only, numbered]
      · have hat : j - k = j - (k + 1) + 1 := by omega
        have hle : ¬j < k + 1 := by omega
        simp [Piece.filled, only, numbered, hat, hle, hgt.ne', Nat.not_lt_of_gt hgt]

/-- Texts without opening brackets that are put in one after the other are put in at once. -/
theorem fillSlotsFrom_spelled (htexts : ∀ v ∈ texts, '[' ∉ v.toList) (hps : Piece.mark '[' ∉ ps) :
    fillSlotsFrom k texts (String.ofList (spelled ps))
      = String.ofList (spelled (filled (numbered k texts) ps)) := by
  induction texts generalizing k ps with
  | nil =>
    have hnone (p : Piece) : p.filled (numbered k []) = [p] := by
      cases p <;> simp [Piece.filled, numbered]
    rw [fillSlotsFrom, filled, List.flatMap_congr fun p _ => hnone p, List.flatMap_singleton']
  | cons v texts ih =>
    rw [List.forall_mem_cons] at htexts
    have hstep : Text.replaceAll (String.ofList (spelled ps)) (slot k) v
        = String.ofList (spelled (filled (only k v) ps)) := by
      rw [← String.toList_inj, Text.toList_replaceAll, String.toList_ofList, String.toList_ofList,
        replaced_spelled hps]
    have hput : Piece.mark '[' ∉ filled (only k v) ps := by
      refine mark_notMem_filled hps fun j u hu => ?_
      rw [only] at hu
      split at hu
      · cases hu
        exact htexts.1
      · cases hu
    rw [fillSlotsFrom, hstep, ih htexts.2 hput, filled_filled]

/-! ## Calls -/

variable {σ : Type} [DocumentStore σ] {w : Ways σ} {s t u : Session σ} {a : Term Nat}
  {args before after : List (Term Nat)} {e : Fault}

/-- Terms that are evaluated one after the other, from one session to another, and the texts
that they have.  A term without a text counts as one with the empty text. -/
inductive Gives (w : Ways σ) : Session σ → List (Term Nat) → List String → Session σ → Prop where
  | nil (s : Session σ) : Gives w s [] [] s
  | cons {s t u : Session σ} {a : Term Nat} {args : List (Term Nat)} {value : Option String}
      {texts : List String} : eval w a s = (.ok value, t) → Gives w t args texts u →
      Gives w s (a :: args) (value.getD "" :: texts) u

/-- The first of the terms that fails, with its fault and the session that it leaves. -/
inductive Fails (w : Ways σ) : Session σ → List (Term Nat) → Fault → Session σ → Prop where
  | here {s u : Session σ} {a : Term Nat} {e : Fault} (args : List (Term Nat)) :
    eval w a s = (.error e, u) → Fails w s (a :: args) e u
  | behind {s t u : Session σ} {a : Term Nat} {args : List (Term Nat)} {value : Option String}
      {e : Fault} : eval w a s = (.ok value, t) → Fails w t args e u → Fails w s (a :: args) e u

theorem Gives.evalArgs_run (h : Gives w s args texts t) :
    ∃ values, evalArgs w args s = (.ok values, t) ∧ values.map (·.getD "") = texts := by
  induction h with
  | nil s => exact ⟨[], rfl, rfl⟩
  | @cons s t u a args value texts ha _ ih =>
    obtain ⟨values, hvalues, htexts⟩ := ih
    refine ⟨value :: values, ?_, by rw [List.map_cons, htexts]⟩
    rw [evalArgs]
    exact (bind_run_ok ha _).trans (bind_run_ok hvalues _)

theorem Fails.evalArgs_run (h : Fails w s args e u) : evalArgs w args s = (.error e, u) := by
  induction h with
  | here args ha =>
    rw [evalArgs]
    exact bind_run_error ha _
  | behind ha _ ih =>
    rw [evalArgs]
    exact (bind_run_ok ha _).trans (bind_run_error ih _)

/-- Either all terms have texts, or there is a first one that fails. -/
theorem gives_or_fails (w : Ways σ) : ∀ (args : List (Term Nat)) (s : Session σ),
    (∃ texts t, Gives w s args texts t) ∨ ∃ e u, Fails w s args e u
  | [], s => .inl ⟨[], s, .nil s⟩
  | a :: args, s => by
    cases ha : eval w a s with
    | mk result t =>
      cases result with
      | error e => exact .inr ⟨e, t, .here args ha⟩
      | ok value =>
        rcases gives_or_fails w args t with ⟨texts, u, h⟩ | ⟨e, u, h⟩
        · exact .inl ⟨_, u, .cons ha h⟩
        · exact .inr ⟨e, u, .behind ha h⟩

/-- A constant is called with the texts of its arguments. -/
theorem call_run_ok {name : String} (negative : Bool)
    (hname : s.context.func? name = some (.template text)) (h : Gives w s args texts t) :
    eval w (.call name args negative) s
      = (.ok (some (withSign negative (fillSlots text texts))), t) := by
  obtain ⟨values, hvalues, rfl⟩ := h.evalArgs_run
  have called : callName w name (evalFirst w none args) (evalArgs w args) s
      = (.ok (some (fillSlots text (values.map (·.getD "")))), t) := by
    rw [callName, context_bind_run, hname]
    exact bind_run_ok hvalues _
  rw [eval]
  exact bind_run_ok called _

theorem call_run_error {name : String} (negative : Bool)
    (hname : s.context.func? name = some (.template text)) (h : Fails w s args e u) :
    eval w (.call name args negative) s = (.error e, u) := by
  have called : callName w name (evalFirst w none args) (evalArgs w args) s = (.error e, u) := by
    rw [callName, context_bind_run, hname]
    exact bind_run_error h.evalArgs_run _
  rw [eval]
  exact bind_run_error called _

/-! ## Constants as functions -/

/-- A text is made of slots and of characters other than opening brackets if and only if all its
opening brackets start slots.  If a constant with such a text is called with arguments whose
texts have no opening brackets, the result is the text with all slots filled at once.  The slots
are numbered from 1, and those without an argument stay, as all other characters do.  If an
argument fails, the call fails as the first of them does.  There is no third case. -/
theorem slots_are_filled_at_once (w : Ways σ) (s : Session σ) {name text : String}
    (hname : s.context.func? name = some (.template text)) (args : List (Term Nat))
    (negative : Bool) :
    (OnlySlots text.toList ↔ ∃ ps, spelled ps = text.toList ∧ Piece.mark '[' ∉ ps) ∧
      (∀ ps, spelled ps = text.toList → Piece.mark '[' ∉ ps → ∀ texts t,
        Gives w s args texts t → (∀ v ∈ texts, '[' ∉ v.toList) →
        eval w (.call name args negative) s =
          (.ok (some (withSign negative
            (String.ofList (spelled (filled (numbered 1 texts) ps))))), t)) ∧
      (∀ e u, Fails w s args e u → eval w (.call name args negative) s = (.error e, u)) ∧
      ((∃ texts t, Gives w s args texts t) ∨ ∃ e u, Fails w s args e u) := by
  refine ⟨⟨exists_pieces, ?_⟩, ?_, fun e u h => call_run_error negative hname h,
    gives_or_fails w args s⟩
  · rintro ⟨ps, hps, hmark⟩
    exact hps ▸ onlySlots_spelled hmark
  · intro ps hps hmark texts t hargs htexts
    rw [call_run_ok negative hname hargs, fillSlots, ← fillSlotsFrom_spelled htexts hmark, hps,
      String.ofList_toList]

/-- What is put in for one number may look like the digits and the end of another slot. -/
theorem slots_are_filled_at_once_of_digits :
    let s := Session.withConstant "t" "[1][10][0]-[2]"
    let w : Ways MemoryStore := ⟨fun _ => pure (), fun _ => pure ()⟩
    s.context.func? "t" = some (.template "[1][10][0]-[2]") ∧
      OnlySlots "[1][10][0]-[2]".toList ∧
      eval w (.call "t" [.literal (.text "1]0]"), .name "x" true] false) s =
        (.ok (some "1]0][10][0]--x"), s) ∧
      eval w (.call "t" [.literal (.text "\x7bu\x7d"), .literal (.text "\x7bv\x7d")] false) s =
        (.error (.unresolved "u"), s) := by
  intro s w
  have hname : s.context.func? "t" = some (.template "[1][10][0]-[2]") := rfl
  let ps : List Piece := [.slot 1, .slot 10, .slot 0, .mark '-', .slot 2]
  have hps : spelled ps = "[1][10][0]-[2]".toList := by decide
  have hmark : Piece.mark '[' ∉ ps := by decide
  obtain ⟨honly, hfilled, -, -⟩ := slots_are_filled_at_once w s hname
    [.literal (.text "1]0]"), .name "x" true] false
  obtain ⟨-, -, hfails, -⟩ := slots_are_filled_at_once w s hname
    [.literal (.text "\x7bu\x7d"), .literal (.text "\x7bv\x7d")] false
  have hfirst : eval w (.literal (.text "1]0]")) s = (.ok (some "1]0]"), s) := rfl
  have hsecond : eval w (.name "x" true) s = (.ok (some "-x"), s) := rfl
  have hargs : Gives w s [.literal (.text "1]0]"), .name "x" true] ["1]0]", "-x"] s :=
    .cons hfirst (.cons hsecond (.nil s))
  refine ⟨hname, honly.mpr ⟨ps, hps, hmark⟩, ?_, hfails _ _ (.here _ rfl)⟩
  rw [hfilled ps hps hmark ["1]0]", "-x"] s hargs (by decide)]
  rfl

end PatchScript.Run.Slots
