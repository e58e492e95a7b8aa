import PatchScript.Run.Context

/-!
# The presets of a script

A script declares finitely many presets, at any depth.  They are told apart by their
marks, which `numberAll` counts through, and what a declared preset declares inside of
itself is declared by the script.
-/

namespace PatchScript.Run

open Script (Term)

/-! ## Declarations -/

mutual

/-- The presets that a term declares, at any depth. -/
def declarations : Term Nat → List Preset
  | .literal _ | .name .. | .include _ => []
  | .call _ args _ | .use _ args => declarationsOf args
  | .block body => declarationsOf body
  | .const _ value => declarations value
  | .preset mark name params body => ⟨mark, name, params, body⟩ :: declarationsOf body
  | .set attr value => declarations attr ++ declarations value
  | .removeAttribute selector | .removeElement selector | .removeAll selector =>
    declarations selector
  | .file head body | .add head body | .change head body | .changeAll head body
  | .changeOrAdd head body => declarations head ++ declarationsOf body
  | .addAt tag position body | .changeOrAddAt tag position body =>
    declarations tag ++ declarations position ++ declarationsOf body

/-- The presets that terms declare, at any depth. -/
def declarationsOf : List (Term Nat) → List Preset
  | [] => []
  | t :: ts => declarations t ++ declarationsOf ts

end

mutual

theorem length_declarations : ∀ t : Term Nat, (declarations t).length = t.presets
  | .literal _ | .name .. | .include _ => rfl
  | .call _ args _ | .use _ args => length_declarationsOf args
  | .block body => length_declarationsOf body
  | .const _ value => length_declarations value
  | .preset _ _ _ body => congrArg (· + 1) (length_declarationsOf body)
  | .set attr value => by
    rw [declarations, List.length_append, length_declarations attr, length_declarations value]
    rfl
  | .removeAttribute selector | .removeElement selector | .removeAll selector =>
    length_declarations selector
  | .file head body | .add head body | .change head body | .changeAll head body
  | .changeOrAdd head body => by
    rw [declarations, List.length_append, length_declarations head, length_declarationsOf body]
    rfl
  | .addAt tag position body | .changeOrAddAt tag position body => by
    rw [declarations, List.length_append, List.length_append, length_declarations tag,
      length_declarations position, length_declarationsOf body]
    rfl

/-- As many presets are declared as are counted. -/
theorem length_declarationsOf : ∀ ts : List (Term Nat),
    (declarationsOf ts).length = Script.presetsOf ts
  | [] => rfl
  | t :: ts => by
    rw [declarationsOf, List.length_append, length_declarations t, length_declarationsOf ts]
    rfl

end

mutual

theorem declarations_closed {p : Preset} : ∀ t : Term Nat, p ∈ declarations t →
    declarationsOf p.body ⊆ declarations t
  | .literal _, h | .name .., h | .include _, h => absurd h List.not_mem_nil
  | .call _ args _, h | .use _ args, h => declarationsOf_closed args h
  | .block body, h => declarationsOf_closed body h
  | .const _ value, h => declarations_closed value h
  | .preset mark name params body, h => by
    rw [declarations] at h ⊢
    rcases List.mem_cons.mp h with rfl | h
    · exact List.subset_cons_self _ _
    · exact List.Subset.trans (declarationsOf_closed body h) (List.subset_cons_self _ _)
  | .set attr value, h => by
    rw [declarations] at h ⊢
    rcases List.mem_append.mp h with h | h
    · exact List.Subset.trans (declarations_closed attr h) (List.subset_append_left _ _)
    · exact List.Subset.trans (declarations_closed value h) (List.subset_append_right _ _)
  | .removeAttribute selector, h | .removeElement selector, h | .removeAll selector, h =>
    declarations_closed selector h
  | .file head body, h | .add head body, h | .change head body, h | .changeAll head body, h
  | .changeOrAdd head body, h => by
    rw [declarations] at h ⊢
    rcases List.mem_append.mp h with h | h
    · exact List.Subset.trans (declarations_closed head h) (List.subset_append_left _ _)
    · exact List.Subset.trans (declarationsOf_closed body h) (List.subset_append_right _ _)
  | .addAt tag position body, h | .changeOrAddAt tag position body, h => by
    rw [declarations, List.append_assoc] at h ⊢
    rcases List.mem_append.mp h with h | h
    · exact List.Subset.trans (declarations_closed tag h) (List.subset_append_left _ _)
    · refine List.Subset.trans ?_ (List.subset_append_right _ _)
      rcases List.mem_append.mp h with h | h
      · exact List.Subset.trans (declarations_closed position h) (List.subset_append_left _ _)
      · exact List.Subset.trans (declarationsOf_closed body h) (List.subset_append_right _ _)

/-- What a declared preset declares is declared. -/
theorem declarationsOf_closed {p : Preset} : ∀ ts : List (Term Nat), p ∈ declarationsOf ts →
    declarationsOf p.body ⊆ declarationsOf ts
  | [], h => absurd h List.not_mem_nil
  | t :: ts, h => by
    rw [declarationsOf] at h ⊢
    rcases List.mem_append.mp h with h | h
    · exact List.Subset.trans (declarations_closed t h) (List.subset_append_left _ _)
    · exact List.Subset.trans (declarationsOf_closed ts h) (List.subset_append_right _ _)

end

mutual

theorem includes_of_declared {p : Preset} : ∀ t : Term Nat, p ∈ declarations t →
    Script.includesOf p.body ⊆ t.includes
  | .literal _, h | .name .., h | .include _, h => absurd h List.not_mem_nil
  | .call _ args _, h | .use _ args, h => includesOf_of_declared args h
  | .block body, h => includesOf_of_declared body h
  | .const _ value, h => includes_of_declared value h
  | .preset mark name params body, h => by
    rcases List.mem_cons.mp h with rfl | h
    · exact List.Subset.refl _
    · exact includesOf_of_declared body h
  | .set attr value, h => by
    rcases List.mem_append.mp h with h | h
    · exact List.subset_append_of_subset_left _ (includes_of_declared attr h)
    · exact List.subset_append_of_subset_right _ (includes_of_declared value h)
  | .removeAttribute selector, h | .removeElement selector, h | .removeAll selector, h =>
    includes_of_declared selector h
  | .file head body, h | .add head body, h | .change head body, h | .changeAll head body, h
  | .changeOrAdd head body, h => by
    rcases List.mem_append.mp h with h | h
    · exact List.subset_append_of_subset_left _ (includes_of_declared head h)
    · exact List.subset_append_of_subset_right _ (includesOf_of_declared body h)
  | .addAt tag position body, h | .changeOrAddAt tag position body, h => by
    rcases List.mem_append.mp h with h | h
    · refine List.subset_append_of_subset_left _ ?_
      rcases List.mem_append.mp h with h | h
      · exact List.subset_append_of_subset_left _ (includes_of_declared tag h)
      · exact List.subset_append_of_subset_right _ (includes_of_declared position h)
    · exact List.subset_append_of_subset_right _ (includesOf_of_declared body h)

/-- What a declared preset includes is included. -/
theorem includesOf_of_declared {p : Preset} : ∀ ts : List (Term Nat), p ∈ declarationsOf ts →
    Script.includesOf p.body ⊆ Script.includesOf ts
  | [], h => absurd h List.not_mem_nil
  | t :: ts, h => by
    rcases List.mem_append.mp h with h | h
    · exact List.subset_append_of_subset_left _ (includes_of_declared t h)
    · exact List.subset_append_of_subset_right _ (includesOf_of_declared ts h)

end

mutual

theorem includes_number : ∀ (n : Nat) (t : Term Unit), (t.number n).1.includes = t.includes
  | _, .literal _ | _, .name .. | _, .include _ => rfl
  | n, .call _ args _ | n, .use _ args => includesOf_numberAll n args
  | n, .block body => includesOf_numberAll n body
  | n, .const _ value => includes_number n value
  | n, .preset _ _ _ body => includesOf_numberAll (n + 1) body
  | n, .set attr value =>
    congr (congrArg (· ++ ·) (includes_number n attr)) (includes_number _ value)
  | n, .removeAttribute selector | n, .removeElement selector | n, .removeAll selector =>
    includes_number n selector
  | n, .file head body | n, .add head body | n, .change head body | n, .changeAll head body
  | n, .changeOrAdd head body =>
    congr (congrArg (· ++ ·) (includes_number n head)) (includesOf_numberAll _ body)
  | n, .addAt tag position body | n, .changeOrAddAt tag position body =>
    congr (congrArg (· ++ ·) (congr (congrArg (· ++ ·) (includes_number n tag))
      (includes_number _ position))) (includesOf_numberAll _ body)

/-- Numbering terms does not change what they include. -/
theorem includesOf_numberAll : ∀ (n : Nat) (ts : List (Term Unit)),
    Script.includesOf (Script.numberAll n ts).1 = Script.includesOf ts
  | _, [] => rfl
  | n, t :: ts => congr (congrArg (· ++ ·) (includes_number n t)) (includesOf_numberAll _ ts)

end

/-! ## Ways out -/

mutual

/-- The presets that a term declares and the scripts that it includes, at any depth, are
those of the properties. -/
def Covered (declared : Preset → Prop) (included : String → Prop) : Term Nat → Prop
  | .literal _ | .name .. => True
  | .include name => included name
  | .call _ args _ | .use _ args => CoveredAll declared included args
  | .block body => CoveredAll declared included body
  | .const _ value => Covered declared included value
  | .preset mark name params body =>
    declared ⟨mark, name, params, body⟩ ∧ CoveredAll declared included body
  | .set attr value => Covered declared included attr ∧ Covered declared included value
  | .removeAttribute selector | .removeElement selector | .removeAll selector =>
    Covered declared included selector
  | .file head body | .add head body | .change head body | .changeAll head body
  | .changeOrAdd head body => Covered declared included head ∧ CoveredAll declared included body
  | .addAt tag position body | .changeOrAddAt tag position body =>
    Covered declared included tag ∧ Covered declared included position ∧
      CoveredAll declared included body

/-- The presets that terms declare and the scripts that they include, at any depth, are
those of the properties. -/
def CoveredAll (declared : Preset → Prop) (included : String → Prop) : List (Term Nat) → Prop
  | [] => True
  | t :: ts => Covered declared included t ∧ CoveredAll declared included ts

end

section

variable {declared : Preset → Prop} {included : String → Prop}

mutual

theorem Covered.of_forall : ∀ t : Term Nat, (∀ p ∈ declarations t, declared p) →
    (∀ name ∈ t.includes, included name) → Covered declared included t
  | .literal _, _, _ | .name .., _, _ => trivial
  | .include name, _, hi => hi name (List.mem_singleton_self name)
  | .call _ args _, hd, hi | .use _ args, hd, hi => CoveredAll.of_forall args hd hi
  | .block body, hd, hi => CoveredAll.of_forall body hd hi
  | .const _ value, hd, hi => Covered.of_forall value hd hi
  | .preset mark name params body, hd, hi => by
    rw [declarations, List.forall_mem_cons] at hd
    exact ⟨hd.1, CoveredAll.of_forall body hd.2 hi⟩
  | .set attr value, hd, hi => by
    rw [declarations, List.forall_mem_append] at hd
    rw [Term.includes, List.forall_mem_append] at hi
    exact ⟨Covered.of_forall attr hd.1 hi.1, Covered.of_forall value hd.2 hi.2⟩
  | .removeAttribute selector, hd, hi | .removeElement selector, hd, hi
  | .removeAll selector, hd, hi => Covered.of_forall selector hd hi
  | .file head body, hd, hi | .add head body, hd, hi | .change head body, hd, hi
  | .changeAll head body, hd, hi | .changeOrAdd head body, hd, hi => by
    rw [declarations, List.forall_mem_append] at hd
    rw [Term.includes, List.forall_mem_append] at hi
    exact ⟨Covered.of_forall head hd.1 hi.1, CoveredAll.of_forall body hd.2 hi.2⟩
  | .addAt tag position body, hd, hi | .changeOrAddAt tag position body, hd, hi => by
    rw [declarations, List.forall_mem_append, List.forall_mem_append] at hd
    rw [Term.includes, List.forall_mem_append, List.forall_mem_append] at hi
    exact ⟨Covered.of_forall tag hd.1.1 hi.1.1, Covered.of_forall position hd.1.2 hi.1.2,
      CoveredAll.of_forall body hd.2 hi.2⟩

/-- What is known of all declarations and of all includes is known of the terms. -/
theorem CoveredAll.of_forall : ∀ ts : List (Term Nat), (∀ p ∈ declarationsOf ts, declared p) →
    (∀ name ∈ Script.includesOf ts, included name) → CoveredAll declared included ts
  | [], _, _ => trivial
  | t :: ts, hd, hi => by
    rw [declarationsOf, List.forall_mem_append] at hd
    rw [Script.includesOf, List.forall_mem_append] at hi
    exact ⟨Covered.of_forall t hd.1 hi.1, CoveredAll.of_forall ts hd.2 hi.2⟩

end

end

/-! ## Marks -/

/-- The presets have the marks from `n` on, up to `next`. -/
def Counted (n : Nat) (ps : List Preset) (next : Nat) : Prop :=
  ps.map (·.mark) = List.range' n ps.length ∧ next = n + ps.length

theorem Counted.nil (n : Nat) : Counted n [] n := ⟨rfl, rfl⟩

theorem Counted.cons {n next : Nat} {p : Preset} {ps : List Preset} (hp : p.mark = n)
    (h : Counted (n + 1) ps next) : Counted n (p :: ps) next := by
  obtain ⟨hmarks, rfl⟩ := h
  refine ⟨?_, by simp only [List.length_cons]; omega⟩
  rw [List.map_cons, hp, hmarks, List.length_cons, List.range'_succ]

theorem Counted.append {n middle next : Nat} {ps qs : List Preset} (hp : Counted n ps middle)
    (hq : Counted middle qs next) : Counted n (ps ++ qs) next := by
  obtain ⟨hps, rfl⟩ := hp
  obtain ⟨hqs, rfl⟩ := hq
  refine ⟨?_, by simp only [List.length_append]; omega⟩
  rw [List.map_append, hps, hqs, List.length_append, List.range'_append_1]

mutual

theorem number_counted : ∀ (n : Nat) (t : Term Unit),
    Counted n (declarations (t.number n).1) (t.number n).2
  | n, .literal _ | n, .name .. | n, .include _ => .nil n
  | n, .call _ args _ | n, .use _ args => numberAll_counted n args
  | n, .block body => numberAll_counted n body
  | n, .const _ value => number_counted n value
  | n, .preset _ _ _ body => .cons rfl (numberAll_counted (n + 1) body)
  | n, .set attr value => (number_counted n attr).append (number_counted _ value)
  | n, .removeAttribute selector | n, .removeElement selector | n, .removeAll selector =>
    number_counted n selector
  | n, .file head body | n, .add head body | n, .change head body | n, .changeAll head body
  | n, .changeOrAdd head body => (number_counted n head).append (numberAll_counted _ body)
  | n, .addAt tag position body | n, .changeOrAddAt tag position body =>
    ((number_counted n tag).append (number_counted _ position)).append (numberAll_counted _ body)

/-- Numbering terms counts the presets through that they declare. -/
theorem numberAll_counted : ∀ (n : Nat) (ts : List (Term Unit)),
    Counted n (declarationsOf (Script.numberAll n ts).1) (Script.numberAll n ts).2
  | n, [] => .nil n
  | n, t :: ts => (number_counted n t).append (numberAll_counted _ ts)

end

/-- No two presets of a script have the same mark. -/
theorem numberAll_marks_nodup (n : Nat) (ts : List (Term Unit)) :
    ((declarationsOf (Script.numberAll n ts).1).map (·.mark)).Nodup := by
  rw [(numberAll_counted n ts).1]
  exact List.nodup_range' ..

/-! ## Contexts -/

/-- Every preset that a name is bound to in the scope is one of the declared. -/
def Scope.Declares (declared : Preset → Prop) (s : Scope) : Prop :=
  ∀ name p, s.find? name = some (.callable (.preset p)) → declared p

/-- Every preset that a name is bound to in the context is one of the declared. -/
def Context.Declares (declared : Preset → Prop) (c : Context) : Prop :=
  ∀ s ∈ c.scopes, s.Declares declared

variable {declared : Preset → Prop}

theorem Scope.Declares.nil : Scope.Declares declared [] := fun _ _ h => by cases h

theorem Scope.Declares.cons {s : Scope} (h : s.Declares declared) {name : String} {b : Binding}
    (hb : ∀ p, b = .callable (.preset p) → declared p) :
    Scope.Declares declared ((name, b) :: s) := by
  intro name' p hp
  rw [Scope.find?] at hp
  rw [List.find?_cons] at hp
  split at hp
  · cases hp
    exact hb p rfl
  · exact h name' p hp

namespace Context.Declares

variable {c c' : Context}

theorem iff : c.Declares declared ↔
    (∀ s ∈ c.frames, s.Declares declared) ∧ c.globals.Declares declared := by
  rw [Context.Declares, Context.scopes]
  rw [List.forall_mem_append, List.forall_mem_singleton]

/-- Looking up what is called by a name finds declared presets only. -/
theorem of_func? {name : String} {p : Preset} (hc : c.Declares declared)
    (h : c.func? name = some (.preset p)) : declared p := by
  obtain ⟨s, hs, hfind⟩ := List.exists_of_findSome?_eq_some h
  obtain ⟨b, hb, hcall⟩ := Option.map_eq_some_iff.mp hfind
  cases b with
  | constant text => cases hcall
  | callable callee =>
    cases hcall
    exact hc s hs name p hb

theorem bind (h : c.Declares declared) {name : String} {b : Binding} (hc : c.bind name b = .ok c')
    (hb : ∀ p, b = .callable (.preset p) → declared p) : c'.Declares declared := by
  obtain ⟨hframes, hglobals⟩ := iff.mp h
  rw [Context.bind] at hc
  split at hc
  · cases hc
  · split at hc
    · rename_i frame rest hf
      cases hc
      rw [hf, List.forall_mem_cons] at hframes
      exact iff.mpr ⟨List.forall_mem_cons.mpr ⟨hframes.1.cons hb, hframes.2⟩, hglobals⟩
    · rename_i hf
      cases hc
      exact iff.mpr ⟨hframes, hglobals.cons hb⟩

/-- In a context that is entered, the frame that was made is empty. -/
theorem pushed (h : c.Declares declared) (hframes : c'.frames = [] :: c.frames)
    (hglobals : c'.globals = c.globals) : c'.Declares declared := by
  obtain ⟨hf, hg⟩ := iff.mp h
  rw [iff, hframes, hglobals, List.forall_mem_cons]
  exact ⟨⟨.nil, hf⟩, hg⟩

/-- In a context that is left, the frame that was made is gone. -/
theorem popped (h : c.Declares declared) (hframes : c'.frames = c.frames.tail)
    (hglobals : c'.globals = c.globals) : c'.Declares declared := by
  obtain ⟨hf, hg⟩ := iff.mp h
  rw [iff, hframes, hglobals]
  exact ⟨fun s hs => hf s (List.mem_of_mem_tail hs), hg⟩

theorem isolated (h : c.Declares declared) (hframes : c'.frames = [[]])
    (hglobals : c'.globals = c.globals) : c'.Declares declared := by
  rw [iff, hframes, hglobals, List.forall_mem_singleton]
  exact ⟨.nil, (iff.mp h).2⟩

/-- The frames of the context before, and the global scope of the one after. -/
theorem rejoined {before : Context} (hbefore : before.Declares declared)
    (h : c.Declares declared) (hframes : c'.frames = before.frames)
    (hglobals : c'.globals = c.globals) : c'.Declares declared := by
  rw [iff, hframes, hglobals]
  exact ⟨(iff.mp hbefore).1, (iff.mp h).2⟩

theorem new (seed : UInt32) (chain : List String) : (Context.new seed chain).Declares declared := by
  refine iff.mpr ⟨fun s hs => absurd hs List.not_mem_nil, ?_⟩
  exact Scope.Declares.nil.cons (fun p hp => by cases hp)

end Context.Declares

end PatchScript.Run
