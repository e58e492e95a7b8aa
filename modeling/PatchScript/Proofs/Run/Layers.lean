import Mathlib.Data.List.Chain
import PatchScript.Proofs.Run.Families

/-!
# Layers of scopes

A scope can be read in two ways: it has constants, and it has what is called.  A name that
stands for a constant is called as the template of the same text, and what is called as a
template is a constant.  Names are looked up on each side alone, from the innermost scope
outwards, and the two may find different scopes: a preset hides a constant from calls, but not
from placeholders.

Guards put scopes aside.  A preset sees no frame but its own, and a script that is included
sees no scope of the script that includes it.  The *layers* of a run are the scopes that it sees
and those that are put aside for later.  They change by `Turn`s, and no turn changes a scope but
by binding a name in it that was free.
-/

namespace PatchScript.Run

/-! ## Scopes -/

/-- The text of the constant that a name stands for in a scope. -/
def Scope.const? (s : Scope) (name : String) : Option String := (s.find? name).bind Binding.text?

/-- What is called by a name in a scope. -/
def Scope.func? (s : Scope) (name : String) : Option Callable :=
  (s.find? name).map Binding.toCallable

/-- What scripts bind names to: constants and presets. -/
abbrev Ordinary : Binding → Prop := Made fun _ => True

/-- The scope of a frame. -/
def Scope.IsLocal (s : Scope) : Prop := ∀ name b, s.find? name = some b → Ordinary b

/-- The global scope, in which `get` reads from the document. -/
structure Scope.IsGlobal (s : Scope) : Prop where
  get : s.find? "get" = some (.callable .get)
  others : ∀ name b, name ≠ "get" → s.find? name = some b → Ordinary b

/-- A scope with all that another one has. -/
def Scope.Extends (s' s : Scope) : Prop :=
  ∀ name b, s.find? name = some b → s'.find? name = some b

namespace Scope

variable {s : Scope} {name : String} {b : Binding}

theorem find?_cons (name' : String) :
    find? ((name, b) :: s) name' = if name = name' then some b else s.find? name' := by
  rw [find?]
  by_cases h : name = name'
  · rw [List.find?_cons_of_pos (by simpa using h), if_pos h]
    rfl
  · rw [List.find?_cons_of_neg (by simpa using h), if_neg h]
    rfl

theorem Extends.refl (s : Scope) : s.Extends s := fun _ _ h => h

theorem Extends.trans {s' s'' : Scope} (h : s'.Extends s) (h' : s''.Extends s') : s''.Extends s :=
  fun name b hb => h' name b (h name b hb)

theorem Extends.bind (h : s.find? name = none) (b : Binding) : Extends ((name, b) :: s) s := by
  intro name' b' hb
  rw [find?_cons]
  split
  · rename_i heq
    rw [← heq, h] at hb
    cases hb
  · exact hb

theorem IsLocal.bind (h : s.IsLocal) (name : String) (hb : Ordinary b) :
    IsLocal ((name, b) :: s) := by
  intro name' b' hfind
  rw [find?_cons] at hfind
  split at hfind
  · cases hfind
    exact hb
  · exact h name' b' hfind

/-- Since `get` is bound, it is not free, and no other binding comes before it. -/
theorem IsGlobal.bind (h : s.IsGlobal) (hfree : s.find? name = none) (hb : Ordinary b) :
    IsGlobal ((name, b) :: s) where
  get := Extends.bind hfree b "get" _ h.get
  others name' b' hname hfind := by
    rw [find?_cons] at hfind
    split at hfind
    · cases hfind
      exact hb
    · exact h.others name' b' hname hfind

theorem IsGlobal.initial : IsGlobal initial where
  get := rfl
  others name b hname hfind := by
    rw [Scope.initial, find?_cons, if_neg (Ne.symm hname)] at hfind
    cases hfind

end Scope

/-! ## Stacks of scopes -/

/-- Scopes of frames, the innermost first, with the global scope behind them. -/
inductive Stacked : List Scope → Prop where
  | globals {s : Scope} : s.IsGlobal → Stacked [s]
  | frame {s : Scope} {rest : List Scope} : s.IsLocal → Stacked rest → Stacked (s :: rest)

namespace Stacked

variable {stack : List Scope} {name : String}

theorem bind {s : Scope} {rest : List Scope} {b : Binding} (h : Stacked (s :: rest))
    (hfree : s.find? name = none) (hb : Ordinary b) : Stacked (((name, b) :: s) :: rest) := by
  cases h with
  | globals hs => exact .globals (hs.bind hfree hb)
  | frame hs hrest => exact .frame (hs.bind name hb) hrest

theorem split (h : Stacked stack) : ∃ frames globals, stack = frames ++ [globals] ∧
    globals.IsGlobal ∧ ∀ s ∈ frames, s.IsLocal := by
  induction h with
  | @globals s hs => exact ⟨[], s, rfl, hs, fun _ h => absurd h List.not_mem_nil⟩
  | @frame s rest hs _ ih =>
    obtain ⟨frames, globals, rfl, hglobals, hframes⟩ := ih
    exact ⟨s :: frames, globals, rfl, hglobals, List.forall_mem_cons.mpr ⟨hs, hframes⟩⟩

theorem isGlobal {frames : List Scope} {globals : Scope} (h : Stacked (frames ++ [globals])) :
    globals.IsGlobal := by
  obtain ⟨frames', globals', heq, hglobals, -⟩ := h.split
  obtain ⟨-, hlast⟩ := List.append_inj' heq rfl
  cases hlast
  exact hglobals

end Stacked

/-! ## Layers -/

/-- The scopes of a run. -/
structure Layers where
  /-- The scopes that are seen, the innermost first. -/
  live : List Scope
  /-- The scopes that were seen before and will be seen again, those that were put aside last
  first. -/
  saved : List (List Scope)

namespace Layers

/-- The layers at the start. -/
def start : Layers := ⟨[Scope.initial], []⟩

/-- All scopes, those that are there the longest last. -/
def stack (L : Layers) : List Scope := L.live ++ L.saved.flatten

/-- The scope at a height, counted from those that are there the longest. -/
def scope? (L : Layers) (height : Nat) : Option Scope := L.stack.reverse[height]?

/-- Every stack of scopes is one of frames with the global scope behind them. -/
def Sound (L : Layers) : Prop := ∀ stack ∈ L.live :: L.saved, Stacked stack

/-- The layers with more that is put aside. -/
def above (L : Layers) (saved : List (List Scope)) : Layers := ⟨L.live, L.saved ++ saved⟩

theorem above_nil (L : Layers) : L.above [] = L := by
  rw [above, List.append_nil]

end Layers

/-- How the layers of a run change when the run comes to another context. -/
inductive Turn : Layers → Layers → Prop where
  /-- Something else is changed. -/
  | stays (L : Layers) : Turn L L
  /-- A name that is free is bound in the innermost scope. -/
  | binds {s : Scope} {rest : List Scope} {saved : List (List Scope)} {name : String}
    {b : Binding} : s.find? name = none → Ordinary b →
    Turn ⟨s :: rest, saved⟩ ⟨((name, b) :: s) :: rest, saved⟩
  /-- A frame is entered. -/
  | enters (live : List Scope) (saved : List (List Scope)) : Turn ⟨live, saved⟩ ⟨[] :: live, saved⟩
  /-- A frame is left. -/
  | leaves (frame : Scope) {rest : List Scope} (saved : List (List Scope)) : rest ≠ [] →
    Turn ⟨frame :: rest, saved⟩ ⟨rest, saved⟩
  /-- A preset is entered, which sees a frame of its own and the global scope. -/
  | isolates (frames : List Scope) (globals : Scope) (saved : List (List Scope)) :
    Turn ⟨frames ++ [globals], saved⟩ ⟨[[], globals], (frames ++ [globals]) :: saved⟩
  /-- A preset is left. -/
  | rejoins (frame : Scope) (frames : List Scope) (globals : Scope) (saved : List (List Scope)) :
    Turn ⟨[frame, globals], (frames ++ [globals]) :: saved⟩ ⟨frames ++ [globals], saved⟩
  /-- A script is entered, which sees a global scope of its own. -/
  | starts (live : List Scope) (saved : List (List Scope)) :
    Turn ⟨live, saved⟩ ⟨[.initial], live :: saved⟩
  /-- A script is left. -/
  | ends (globals : Scope) (live : List Scope) (saved : List (List Scope)) :
    Turn ⟨[globals], live :: saved⟩ ⟨live, saved⟩

namespace Turn

variable {L M : Layers}

/-- Turns do not look at what is put aside the longest. -/
theorem above (h : Turn L M) (below : List (List Scope)) :
    Turn (L.above below) (M.above below) := by
  cases h with
  | stays => exact .stays _
  | binds hfree hb => exact .binds hfree hb
  | enters live saved => exact .enters live _
  | leaves frame saved hrest => exact .leaves frame _ hrest
  | isolates frames globals saved => exact .isolates frames globals _
  | rejoins frame frames globals saved => exact .rejoins frame frames globals _
  | starts live saved => exact .starts live _
  | ends globals live saved => exact .ends globals live _

/-- Every turn keeps the layers sound. -/
theorem sound (h : Turn L M) (hL : L.Sound) : M.Sound := by
  obtain ⟨hlive, hsaved⟩ := List.forall_mem_cons.mp hL
  cases h with
  | stays => exact hL
  | binds hfree hb => exact List.forall_mem_cons.mpr ⟨hlive.bind hfree hb, hsaved⟩
  | enters live saved =>
    refine List.forall_mem_cons.mpr ⟨.frame ?_ hlive, hsaved⟩
    intro name b hfind
    cases hfind
  | leaves frame saved hrest =>
    cases hlive with
    | globals => exact absurd rfl hrest
    | frame _ hlive => exact List.forall_mem_cons.mpr ⟨hlive, hsaved⟩
  | isolates frames globals saved =>
    refine List.forall_mem_cons.mpr ⟨.frame ?_ (.globals hlive.isGlobal), hL⟩
    intro name b hfind
    cases hfind
  | rejoins => exact hsaved
  | starts => exact List.forall_mem_cons.mpr ⟨.globals .initial, hL⟩
  | ends => exact hsaved

/-- A turn puts scopes on top of the others, takes scopes from the top, or binds a name in the
scope on top. -/
theorem stack (h : Turn L M) : (∃ added, M.stack = added ++ L.stack) ∨
    (∃ dropped, L.stack = dropped ++ M.stack) ∨
    ∃ s s' rest, L.stack = s :: rest ∧ M.stack = s' :: rest ∧ s'.Extends s := by
  cases h with
  | stays => exact .inl ⟨[], rfl⟩
  | binds hfree hb => exact .inr (.inr ⟨_, _, _, rfl, rfl, .bind hfree _⟩)
  | enters live saved => exact .inl ⟨[[]], rfl⟩
  | leaves frame saved hrest => exact .inr (.inl ⟨[frame], rfl⟩)
  | isolates frames globals saved => exact .inl ⟨[[], globals], rfl⟩
  | rejoins frame frames globals saved => exact .inr (.inl ⟨[frame, globals], rfl⟩)
  | starts live saved => exact .inl ⟨[.initial], rfl⟩
  | ends globals live saved => exact .inr (.inl ⟨[globals], rfl⟩)

/-- A scope that is still there has all that it had. -/
theorem lasting (h : Turn L M) {height : Nat} {s : Scope} (hs : L.scope? height = some s)
    (hheight : height < M.stack.length) : ∃ s', M.scope? height = some s' ∧ s'.Extends s := by
  rw [Layers.scope?] at hs ⊢
  rcases h.stack with ⟨added, hadded⟩ | ⟨dropped, hdropped⟩ | ⟨s₀, s₁, rest, hL, hM, hext⟩
  · refine ⟨s, ?_, .refl s⟩
    obtain ⟨hlt, -⟩ := List.getElem?_eq_some_iff.mp hs
    rw [hadded, List.reverse_append, List.getElem?_append_left hlt]
    exact hs
  · refine ⟨s, ?_, .refl s⟩
    rw [hdropped, List.reverse_append, List.getElem?_append_left (by simpa using hheight)] at hs
    exact hs
  · rw [hL, List.reverse_cons] at hs
    rw [hM, List.length_cons] at hheight
    rw [hM, List.reverse_cons]
    by_cases hlow : height < rest.length
    · have hlow' : height < rest.reverse.length := by simpa using hlow
      rw [List.getElem?_append_left hlow'] at hs ⊢
      exact ⟨s, hs, .refl s⟩
    · have htop : height = rest.reverse.length := by
        rw [List.length_reverse]
        omega
      rw [htop, List.getElem?_concat_length] at hs ⊢
      cases hs
      exact ⟨s₁, rfl, hext⟩

end Turn

/-! ## Paths -/

/-- Layers that turn into each other, from the first to the last, and those in between. -/
inductive Path : Layers → List Layers → Layers → Prop where
  | nil (L : Layers) : Path L [] L
  | cons {L M N : Layers} {ls : List Layers} : Turn L M → Path M ls N → Path L (M :: ls) N

namespace Path

variable {L M N : Layers} {ls ls' : List Layers}

theorem single (h : Turn L M) : Path L [M] M := .cons h (.nil M)

theorem append (h : Path L ls M) (h' : Path M ls' N) : Path L (ls ++ ls') N := by
  induction h with
  | nil => exact h'
  | cons hturn _ ih => exact .cons hturn (ih h')

theorem above (h : Path L ls N) (saved : List (List Scope)) :
    Path (L.above saved) (ls.map (·.above saved)) (N.above saved) := by
  induction h with
  | nil L => exact .nil _
  | cons hturn _ ih => exact .cons (hturn.above saved) ih

theorem isChain (h : Path L ls N) : (L :: ls).IsChain Turn := by
  induction h with
  | nil L => exact .singleton L
  | cons hturn _ ih => exact .cons_cons hturn ih

end Path

end PatchScript.Run
