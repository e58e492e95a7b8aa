import Mathlib.Data.List.Forall2
import PatchScript.Proofs.Run.Families
import PatchScript.Proofs.Run.Steps
import PatchScript.Proofs.Script.Soundness

/-!
# Values are pure

A value is a literal, a name, or a name with values for arguments.  What the parser makes
of the places where a script has a value, a selector or a position is one.

To evaluate a value changes nothing in the session, and it does not matter what the ways out
of terms lead to.  A call asks for the values of its arguments and then does one of three
things: it reads from the document, it fills the slots of a text, or it comes to the gate of
a preset.  The gate is closed, so the call fails.  It opens only to a call whose last argument
has the sentinel for its value, which is said to *forge* the sentinel.
-/

namespace PatchScript.Run

open Script (Term)
open Eval

/-! ## Values -/

/-- A term that is a value. -/
inductive IsValue {ι : Type} : Term ι → Prop where
  | literal (value : Script.Literal) : IsValue (.literal value)
  | name (name : String) (negative : Bool) : IsValue (.name name negative)
  | call (name : String) {args : List (Term ι)} (negative : Bool) :
    (∀ a ∈ args, IsValue a) → IsValue (.call name args negative)

theorem mem_numberAll {a : Term Nat} : ∀ {ts : List (Term Unit)} {n : Nat},
    a ∈ (Script.numberAll n ts).1 → ∃ t ∈ ts, ∃ m, a = (t.number m).1
  | [], _, h => absurd h List.not_mem_nil
  | t :: ts, n, h => by
    rw [Script.numberAll] at h
    rcases List.mem_cons.mp h with rfl | h
    · exact ⟨t, List.mem_cons_self, n, rfl⟩
    · obtain ⟨u, hu, m, rfl⟩ := mem_numberAll h
      exact ⟨u, List.mem_cons_of_mem t hu, m, rfl⟩

theorem IsValue.number {t : Term Unit} (h : IsValue t) (n : Nat) : IsValue (t.number n).1 := by
  induction h generalizing n with
  | literal value => exact .literal value
  | name name negative => exact .name name negative
  | call name negative _ ih =>
    refine .call name negative fun a ha => ?_
    obtain ⟨t, ht, m, rfl⟩ := mem_numberAll ha
    exact ih t ht m

/-! ### What the parser reads -/

namespace IsValue

open Script.Grammar

theorem refer (name : String) (negative : Bool) {args : Option (List (Term Unit))}
    (h : ∀ ts, args = some ts → ∀ a ∈ ts, IsValue a) : IsValue (refer name negative args) := by
  cases args with
  | none => exact .name name negative
  | some ts => exact .call name negative (h ts rfl)

mutual

theorem of_value : ∀ v : Value, IsValue v.term
  | .scalar _ _ => .literal _
  | .reference m word args => refer word.1.text m.isSome (of_arguments args)

theorem of_arguments : ∀ (args : Arguments) (ts : List (Term Unit)), args.terms? = some ts →
    ∀ a ∈ ts, IsValue a
  | .absent, _, h => nomatch h
  | .empty .., _, h => by
    cases h
    exact fun a ha => absurd ha List.not_mem_nil
  | .listed _ values _, _, h => by
    cases h
    exact of_values values

theorem of_values : ∀ (vs : Values), ∀ a ∈ vs.terms, IsValue a
  | .one v, _, h => by
    cases List.mem_singleton.mp h
    exact of_value v
  | .cons v _ rest, a, h => by
    rcases List.mem_cons.mp h with rfl | h
    · exact of_value v
    · exact of_values rest a h

end

theorem of_selector (s : Selector) : IsValue s.term := by
  cases s with
  | string s => exact .literal _
  | reference name args => exact refer name.1.text false (of_arguments args)

theorem of_position {p : Script.Grammar.Position} {t : Term Unit} (h : p.term? = some t) :
    IsValue t := by
  cases p with
  | absent => cases h
  | number at' m n =>
    cases h
    exact .literal _
  | reference at' m name args =>
    cases h
    exact refer name.1.text m.isSome (of_arguments args)

/-- What the parser reads in place of a value, a selector or a position is a value. -/
theorem of_read {ts rest : List Script.Token} {t : Term Unit}
    (h : Script.readValue ts = .ok (t, rest) ∨ Script.selector ts = .ok (t, rest) ∨
      Script.position? ts = .ok (some t, rest)) : IsValue t := by
  rcases h with h | h | h
  · obtain ⟨v, -, rfl⟩ := readValue_eq_ok h
    exact of_value v
  · obtain ⟨s, -, rfl⟩ := selector_eq_ok h
    exact of_selector s
  · obtain ⟨p, -, hp⟩ := position?_eq_ok h
    exact of_position hp

end IsValue

/-! ## Steps that rest -/

variable {σ α β : Type}

/-- Steps that have the result in the session and leave it as it is, whatever the ways out of
terms are. -/
def Rests (x : Ways σ → Eval σ α) (s : Session σ) (r : Except Fault α) : Prop :=
  ∀ w, x w s = (r, s)

namespace Rests

variable {x : Ways σ → Eval σ α} {s : Session σ} {f : Ways σ → α → Eval σ β}

theorem ret (a : α) (s : Session σ) : Rests (fun _ => pure a) s (.ok a) := fun _ => rfl

theorem seq {a : α} {r : Except Fault β} (hx : Rests x s (.ok a)) (hf : Rests (f · a) s r) :
    Rests (fun w => x w >>= f w) s r := by
  intro w
  exact (bind_run_ok (hx w) (f w)).trans (hf w)

theorem stop {e : Fault} (hx : Rests x s (.error e)) :
    Rests (fun w => x w >>= f w) s (.error e) :=
  fun w => bind_run_error (hx w) (f w)

/-- What comes after steps that rest has only to rest where they have a result. -/
theorem seq_of {r : Except Fault α} (hx : Rests x s r)
    (hf : ∀ a, r = .ok a → ∃ r', Rests (f · a) s r') :
    ∃ r', Rests (fun w => x w >>= f w) s r' := by
  cases r with
  | ok a =>
    obtain ⟨r', h⟩ := hf a rfl
    exact ⟨r', hx.seq h⟩
  | error e => exact ⟨.error e, hx.stop⟩

theorem look {f : Ways σ → Context → Eval σ β} {r : Except Fault β}
    (h : Rests (f · s.context) s r) : Rests (fun w => context >>= f w) s r :=
  fun w => h w

end Rests

theorem evalLiteral_rests (value : Script.Literal) (s : Session σ) :
    ∃ r, Rests (fun _ => evalLiteral value) s r := by
  cases value with
  | text text =>
    cases h : fillPlaceholders s.context.const? text with
    | ok filled =>
      refine ⟨.ok filled, .look fun _ => ?_⟩
      rw [h]
      rfl
    | error name =>
      refine ⟨.error (.unresolved name), .look fun _ => ?_⟩
      rw [h]
      rfl
  | number x => exact ⟨_, .ret _ s⟩
  | integer n => exact ⟨_, .ret _ s⟩
  | boolean b => exact ⟨_, .ret _ s⟩

theorem ask_rests (question : Xml.Document → Except XPath.Error α) (none' : α) (s : Session σ) :
    ∃ r, Rests (fun _ => ask question none') s r := by
  cases h : s.context.document with
  | none => exact ⟨_, fun _ => ask_run_none h⟩
  | some d => exact ⟨_, fun _ => ask_run_some h⟩

/-- Reading from the document changes nothing. -/
theorem callGet_rests (selector : Option String) (s : Session σ) :
    ∃ r, Rests (fun _ => callGet selector) s r := by
  cases selector with
  | none => exact ⟨_, .ret none s⟩
  | some text =>
    cases hstart : (if text.toList.head? = some fromTop then some Xml.Document.top
        else s.context.element?) with
    | none =>
      refine ⟨.ok none, .look fun _ => ?_⟩
      rw [hstart]
      rfl
    | some id =>
      let expression := String.ofList (text.toList.filter (· != fromTop))
      obtain ⟨r, hr⟩ := ask_rests (fun d => (XPath.evaluateString d id expression).map some) none s
      refine ⟨r, .look fun w => ?_⟩
      rw [hstart]
      exact hr w

variable [DocumentStore σ] {s : Session σ}

/-! ### Arguments -/

/-- Terms with the values that they have in the session. -/
abbrev Denote (s : Session σ) : List (Term Nat) → List (Option String) → Prop :=
  List.Forall₂ fun a v => Rests (eval · a) s (.ok v)

theorem Denote.getLast? {args : List (Term Nat)} {vs : List (Option String)} (h : Denote s args vs)
    {v : Option String} (hv : vs.getLast? = some v) :
    ∃ a, args.getLast? = some a ∧ Rests (eval · a) s (.ok v) := by
  induction h with
  | nil => cases hv
  | @cons a v' args vs ha hrest ih =>
    cases hrest with
    | nil =>
      cases hv
      exact ⟨a, rfl, ha⟩
    | cons hb hrest =>
      rw [List.getLast?_cons_cons] at hv ⊢
      exact ih hv

/-- Either all arguments have values, or one of them has a fault and it ends the evaluation. -/
theorem evalArgs_rests : ∀ {args : List (Term Nat)},
    (∀ a ∈ args, ∃ r, Rests (eval · a) s r) →
    (∃ vs, Denote s args vs ∧ Rests (evalArgs · args) s (.ok vs)) ∨
      ∃ a ∈ args, ∃ e, Rests (eval · a) s (.error e) ∧ Rests (evalArgs · args) s (.error e)
  | [], _ => .inl ⟨[], .nil, .ret [] s⟩
  | a :: args, h => by
    obtain ⟨r, hr⟩ := h a List.mem_cons_self
    cases r with
    | error e => exact .inr ⟨a, List.mem_cons_self, e, hr, hr.stop⟩
    | ok v =>
      rcases evalArgs_rests fun b hb => h b (List.mem_cons_of_mem a hb) with
        ⟨vs, hvs, hall⟩ | ⟨b, hb, e, he, hall⟩
      · exact .inl ⟨v :: vs, .cons hr hvs, hr.seq (hall.seq (.ret (v :: vs) s))⟩
      · exact .inr ⟨b, List.mem_cons_of_mem a hb, e, he, hr.seq hall.stop⟩

theorem evalFirst_rests {args : List (Term Nat)} (h : ∀ a ∈ args, ∃ r, Rests (eval · a) s r) :
    ∃ r, Rests (evalFirst · none args) s r := by
  cases args with
  | nil => exact ⟨.ok none, .ret none s⟩
  | cons a args => exact h a List.mem_cons_self

/-! ## Calls -/

/-- A value in which a preset is called with the sentinel as the value of the last argument. -/
inductive Forges (w : Ways σ) (s : Session σ) : Term Nat → Prop where
  | here {name : String} {args : List (Term Nat)} {a : Term Nat} {p : Preset} (negative : Bool) :
    s.context.func? name = some (.preset p) → args.getLast? = some a →
    (eval w a s).1 = .ok (some s.context.sentinel) → Forges w s (.call name args negative)
  | inside {args : List (Term Nat)} {a : Term Nat} (name : String) (negative : Bool) :
    a ∈ args → Forges w s a → Forges w s (.call name args negative)

/-- A call of a preset fails, unless the sentinel is forged. -/
theorem call_preset_rests {w : Ways σ} {name : String} {args : List (Term Nat)} {negative : Bool}
    {p : Preset} (hargs : ∀ a ∈ args, ∃ r, Rests (eval · a) s r)
    (hforges : ¬ Forges w s (.call name args negative))
    (hp : s.context.func? name = some (.preset p)) :
    Rests (eval · (.call name args negative)) s (.error (.presetUseRequired p.name)) ∨
      ∃ a ∈ args, ∃ e, Rests (eval · a) s (.error e) ∧
        Rests (eval · (.call name args negative)) s (.error e) := by
  have called {r : Except Fault (Option String)}
      (h : Rests (fun w => do callPreset w p (← evalArgs w args); return none) s r) :
      Rests (fun w => callName w name (evalFirst w none args) (evalArgs w args)) s r := by
    refine .look fun w => ?_
    rw [hp]
    exact h w
  rcases evalArgs_rests hargs with ⟨vs, hvs, hall⟩ | ⟨a, ha, e, he, hall⟩
  · refine .inl (Rests.stop (called (hall.seq (Rests.stop fun _ => gated_run_refused fun hlast => ?_))))
    obtain ⟨a, ha, hr⟩ := hvs.getLast? hlast
    exact hforges (.here negative hp ha (congrArg Prod.fst (hr w)))
  · exact .inr ⟨a, ha, e, he, Rests.stop (called hall.stop)⟩

/-- A call that forges the sentinel does what a `use` does. -/
theorem call_preset_of_forged {w : Ways σ} {name : String} {args : List (Term Nat)} {p : Preset}
    {vs : List (Option String)} (negative : Bool) (hp : s.context.func? name = some (.preset p))
    (hargs : evalArgs w args s = (.ok (vs ++ [some s.context.sentinel]), s)) :
    eval w (.call name args negative) s =
      (do enter w p vs; return some (withSign negative name)) s := by
  have opened : callPreset w p (vs ++ [some s.context.sentinel]) s = enter w p vs s := by
    rw [callPreset_eq, List.dropLast_concat, gated_run_opened List.getLast?_concat]
  have called : callName w name (evalFirst w none args) (evalArgs w args) s =
      (do enter w p vs; return none) s := by
    rw [callName, context_bind_run, hp]
    exact (bind_run_ok hargs _).trans (bind_run_congr opened _)
  refine (bind_run_congr called _).trans ?_
  simp only [bind_assoc, pure_bind]
  rfl

/-- A value has the same result whatever the ways out of terms are, and leaves the session as
it is, unless the sentinel is forged in it. -/
theorem IsValue.rests {t : Term Nat} (ht : IsValue t) {w : Ways σ} (hf : ¬ Forges w s t) :
    ∃ r, Rests (eval · t) s r := by
  induction ht with
  | literal value =>
    obtain ⟨r, hr⟩ := evalLiteral_rests value s
    exact hr.seq_of fun text _ => ⟨_, .ret _ s⟩
  | name name negative => exact ⟨_, .look (.ret _ s)⟩
  | @call name args negative _ ih =>
    have hargs : ∀ a ∈ args, ∃ r, Rests (eval · a) s r :=
      fun a ha => ih a ha fun h => hf (.inside name negative ha h)
    have named {r : Except Fault (Option String)}
        (h : Rests (fun w => callName w name (evalFirst w none args) (evalArgs w args)) s r) :
        ∃ r, Rests (eval · (.call name args negative)) s r :=
      h.seq_of fun v _ => ⟨_, .ret _ s⟩
    cases hcall : s.context.func? name with
    | none =>
      refine named (r := .ok none) (.look fun w => ?_)
      rw [hcall]
      rfl
    | some callee =>
      cases callee with
      | preset p =>
        rcases call_preset_rests hargs hf hcall with h | ⟨a, ha, e, -, h⟩
        · exact ⟨_, h⟩
        · exact ⟨_, h⟩
      | get =>
        obtain ⟨r, hr⟩ := evalFirst_rests hargs
        obtain ⟨r', hr'⟩ := hr.seq_of fun v _ => callGet_rests v s
        refine named (r := r') (.look fun w => ?_)
        rw [hcall]
        exact hr' w
      | template text =>
        have filled {r : Except Fault (Option String)}
            (h : Rests (fun w => do
              return some (fillSlots text ((← evalArgs w args).map (·.getD "")))) s r) :
            ∃ r, Rests (eval · (.call name args negative)) s r := by
          refine named (r := r) (.look fun w => ?_)
          rw [hcall]
          exact h w
        rcases evalArgs_rests hargs with ⟨vs, -, hall⟩ | ⟨a, ha, e, -, hall⟩
        · exact filled (hall.seq (.ret _ s))
        · exact filled hall.stop

/-! ## Values are pure -/

/-- What the parser reads in place of a value, a selector or a position is a value, and to
evaluate a value leaves the whole session as it is, whether this fails or not and whatever the
bodies of presets do.  If what is called is a preset, the call fails at its gate or in one of
its arguments.  Only a call whose last argument has the sentinel for its value comes into the
body. -/
theorem values_are_pure :
    (∀ (ts rest : List Script.Token) (t : Term Unit),
      Script.readValue ts = .ok (t, rest) ∨ Script.selector ts = .ok (t, rest) ∨
        Script.position? ts = .ok (some t, rest) → ∀ n, IsValue (t.number n).1) ∧
    ∀ (w : Ways σ) (s : Session σ) (t : Term Nat), IsValue t →
      (¬ Forges w s t → ∃ r, (∀ w', eval w' t s = (r, s)) ∧
        ∀ name args negative p, t = .call name args negative →
          s.context.func? name = some (.preset p) →
          r = .error (.presetUseRequired p.name) ∨
            ∃ a ∈ args, ∃ e, r = .error e ∧ ∀ w', eval w' a s = (.error e, s)) ∧
      ∀ name args negative p vs, t = .call name args negative →
        s.context.func? name = some (.preset p) → (∀ a ∈ args, ¬ Forges w s a) →
        (evalArgs w args s).1 = .ok (vs ++ [some s.context.sentinel]) →
        eval w t s = (do enter w p vs; return some (withSign negative name)) s := by
  refine ⟨fun ts rest t h n => (IsValue.of_read h).number n, fun w s t ht => ⟨fun hf => ?_, ?_⟩⟩
  · obtain ⟨r, hr⟩ := ht.rests hf
    refine ⟨r, hr, ?_⟩
    rintro name args negative p rfl hp
    have hargs : ∀ a ∈ args, ∃ r, Rests (eval · a) s r := by
      cases ht with
      | call _ _ hvalues =>
        exact fun a ha => (hvalues a ha).rests fun h => hf (.inside name negative ha h)
    have same {r' : Except Fault (Option String)}
        (h : Rests (eval · (.call name args negative)) s r') : r = r' :=
      congrArg Prod.fst ((hr w).symm.trans (h w))
    rcases call_preset_rests hargs hf hp with h | ⟨a, ha, e, he, h⟩
    · exact .inl (same h)
    · exact .inr ⟨a, ha, e, same h, he⟩
  · rintro name args negative p vs rfl hp hf hvs
    have hargs : ∀ a ∈ args, ∃ r, Rests (eval · a) s r := by
      cases ht with
      | call _ _ hvalues => exact fun a ha => (hvalues a ha).rests (hf a ha)
    refine call_preset_of_forged negative hp ?_
    rcases evalArgs_rests hargs with ⟨vs', -, hall⟩ | ⟨a, ha, e, -, hall⟩
    · have run : evalArgs w args s = (.ok vs', s) := hall w
      rw [run] at hvs
      exact run.trans (congrArg (·, s) hvs)
    · have run : evalArgs w args s = (.error e, s) := hall w
      rw [run] at hvs
      cases hvs

/-- A preset is called in an argument, and once more with the sentinel. -/
theorem values_are_pure_of_calls :
    let tokens : List Script.Token :=
      [(.identifier, "t"), (.operator, "("), (.string, "a"), (.operator, ","), (.identifier, "p"),
        (.operator, "("), (.string, "b"), (.operator, ")"), (.operator, ")")].map
        fun (kind, text) => ⟨kind, text, .point .origin⟩
    let source : Term Unit :=
      .call "t" [.literal (.text "a"), .call "p" [.literal (.text "b")] false] false
    let t : Term Nat := (source.number 0).1
    let forged : Term Nat := .call "p" [.literal (.text "b"), .literal (.text "key")] false
    let p : Preset := ⟨0, "p", ["x"], [.include "part"]⟩
    let s : Session MemoryStore := {
      context := { Context.new 7 [] with
        globals := [("p", .callable (.preset p)), ("t", .constant "[1]-[2]")]
        sentinel := "key" }
      store := ⟨[]⟩
      calls := [] }
    let w : Ways MemoryStore := ⟨fun _ => skip .fileNested, fun _ => throw .levels⟩
    Script.readValue tokens = .ok (source, []) ∧ IsValue t ∧ ¬ Forges w s t ∧
      (∃ r, ∀ w', eval w' t s = (r, s)) ∧ Forges w s forged ∧
      eval w forged s = (do enter w p [some "b"]; return some (withSign false "p")) s := by
  intro tokens source t forged p s w
  have hread : Script.readValue tokens = .ok (source, []) := rfl
  obtain ⟨built, rests⟩ := values_are_pure (σ := MemoryStore)
  have ht : IsValue t := built tokens [] source (.inl hread) 0
  have literal (value : Script.Literal) : ¬ Forges w s (.literal value) := fun h => nomatch h
  have hinner : ¬ Forges w s (.call "p" [.literal (.text "b")] false) := by
    rintro (⟨-, -, hlast, hkey⟩ | ⟨-, -, hmem, h⟩)
    · cases hlast
      have hkey : (.ok (some "b") : Except Fault (Option String)) = .ok (some "key") := hkey
      simp at hkey
    · cases List.mem_singleton.mp hmem
      exact literal _ h
  have hf : ¬ Forges w s t := by
    show ¬ Forges w s
      (.call "t" [.literal (.text "a"), .call "p" [.literal (.text "b")] false] false)
    rintro (⟨-, hp, -, -⟩ | ⟨-, -, hmem, h⟩)
    · cases hp
    · rcases List.mem_cons.mp hmem with rfl | hmem
      · exact literal _ h
      · cases List.mem_singleton.mp hmem
        exact hinner h
  have hforged : IsValue forged := by
    refine .call "p" false fun a ha => ?_
    rcases List.mem_cons.mp ha with rfl | ha
    · exact .literal _
    · cases List.mem_singleton.mp ha
      exact .literal _
  refine ⟨hread, ht, hf, ?_, .here false rfl rfl rfl, ?_⟩
  · obtain ⟨r, hr, -⟩ := (rests w s t ht).1 hf
    exact ⟨r, hr⟩
  · refine (rests w s forged hforged).2 "p" _ false p [some "b"] rfl rfl (fun a ha => ?_) rfl
    rcases List.mem_cons.mp ha with rfl | ha
    · exact literal _
    · cases List.mem_singleton.mp ha
      exact literal _

end PatchScript.Run
