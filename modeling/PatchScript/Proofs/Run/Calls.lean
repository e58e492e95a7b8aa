import PatchScript.Proofs.Run.Deeds

/-!
# The calls of a run

What a store is asked in a run is read off what the run does.  A block asks for its
document, then come the calls of the scripts that its body includes, and then it asks to
write, if its body came to an end without a fault.  A fault ends everything around it, so
a block whose body fails is the last to have called the store.
-/

namespace PatchScript.Run

variable {σ : Type} [DocumentStore σ] {host : Host} {names : List String} {s t : Session σ}
  {ds : List (Deed σ)} {r : Except Fault Unit}

/-! ## The calls of the store -/

namespace Block

omit [DocumentStore σ] in
theorem writes_of_ok {b : Block σ} (h : b.result = .ok ()) : b.writes = [.persist b.path] := by
  rw [writes, finished, h]
  rfl

omit [DocumentStore σ] in
theorem writes_of_error {b : Block σ} {e : Fault} (h : b.result = .error e) : b.writes = [] := by
  rw [writes, finished, h]
  rfl

theorem Ends.calls {b : Block σ} {r : Except Fault Unit} {t : Session σ} (h : b.Ends r t) :
    t.calls = b.closed.calls ++ b.writes := by
  cases h with
  | failed he => rw [writes_of_error he, List.append_nil]; rfl
  | written hok _ => rw [writes_of_ok hok]; rfl
  | refused hok _ => rw [writes_of_ok hok]; rfl

end Block

/-- The calls that the store gets are those of the deeds. -/
theorem Does.calls (h : Does host names s ds r t) : t.calls = s.calls ++ callsOf ds := by
  induction h with
  | nothing | fails | turns | changed => exact (List.append_nil _).symm
  | seq _ _ ih ih' => rw [ih', ih, callsOf_append, List.append_assoc]
  | within _ _ _ ih => exact ih
  | included _ _ _ _ ih =>
    rw [callsOf, Deed.calls, callsOf, List.append_nil]
    exact ih
  | absent | unread => rfl
  | @block names b ds r t _ _ hends ih =>
    have hopened : b.entered.calls = b.opened.calls ++ [.load b.path] := rfl
    rw [hends.calls, ih, hopened, callsOf, Deed.calls, callsOf]
    simp only [List.append_assoc, List.append_nil, List.cons_append, List.nil_append]

/-- A block has its calls in one piece: those that came before it, and behind them its own,
which are the load, what is asked inside of it, and the writing. -/
theorem Does.placed (h : Does host names s ds r t) : ∀ x ∈ blocksOf ds,
    s.calls <+: x.1.opened.calls ∧
      x.1.closed.calls = x.1.opened.calls ++ .load x.1.path :: callsOf x.2 ∧
      x.1.closed.calls ++ x.1.writes <+: t.calls := by
  induction h with
  | nothing | fails | turns | changed | absent | unread =>
    exact fun x hx => absurd hx List.not_mem_nil
  | seq h h' ih ih' =>
    intro x hx
    rw [blocksOf_append, List.mem_append] at hx
    rcases hx with hx | hx
    · obtain ⟨hopened, hinside, hclosed⟩ := ih x hx
      refine ⟨hopened, hinside, hclosed.trans ?_⟩
      rw [h'.calls]
      exact List.prefix_append _ _
    · obtain ⟨hopened, hinside, hclosed⟩ := ih' x hx
      refine ⟨List.IsPrefix.trans ?_ hopened, hinside, hclosed⟩
      rw [h.calls]
      exact List.prefix_append _ _
  | within _ _ _ ih => exact ih
  | included _ _ _ _ ih =>
    intro x hx
    rw [blocksOf, Deed.blocks, blocksOf, List.append_nil] at hx
    exact ih x hx
  | @block names b ds r t _ hdoes hends ih =>
    intro x hx
    rw [blocksOf, Deed.blocks, blocksOf, List.append_nil, List.mem_append] at hx
    rw [hends.calls]
    rcases hx with hx | hx
    · obtain ⟨hopened, hinside, hclosed⟩ := ih x hx
      exact ⟨(List.prefix_append _ _).trans hopened, hinside,
        hclosed.trans (List.prefix_append _ _)⟩
    · cases List.mem_singleton.mp hx
      refine ⟨List.prefix_refl _, ?_, List.prefix_refl _⟩
      have hopened : b.entered.calls = b.opened.calls ++ [.load b.path] := rfl
      rw [hdoes.calls, hopened, List.append_assoc]
      rfl

/-- Every block was run as the evaluator runs it, and its body did what was done inside. -/
theorem Does.inside (h : Does host names s ds r t) : ∀ x ∈ blocksOf ds, x.1.Runs host ∧
    ∃ names, Does host names x.1.entered x.2 x.1.result x.1.closed := by
  induction h with
  | nothing | fails | turns | changed | absent | unread =>
    exact fun x hx => absurd hx List.not_mem_nil
  | seq _ _ ih ih' =>
    intro x hx
    rw [blocksOf_append, List.mem_append] at hx
    exact hx.elim (ih x) (ih' x)
  | within _ _ _ ih => exact ih
  | included _ _ _ _ ih =>
    intro x hx
    rw [blocksOf, Deed.blocks, blocksOf, List.append_nil] at hx
    exact ih x hx
  | @block names _ _ _ _ hruns hdoes _ ih =>
    intro x hx
    rw [blocksOf, Deed.blocks, blocksOf, List.append_nil, List.mem_append] at hx
    rcases hx with hx | hx
    · exact ih x hx
    · cases List.mem_singleton.mp hx
      exact ⟨hruns, names, hdoes⟩

/-- A block whose body fails makes all fail that it is inside of, and is the last to have
called the store. -/
theorem Does.failed (h : Does host names s ds r t) : ∀ x ∈ blocksOf ds, ∀ e,
    x.1.result = .error e → r = .error e ∧ t.calls = x.1.closed.calls := by
  induction h with
  | nothing | fails | turns | changed | absent | unread =>
    exact fun x hx => absurd hx List.not_mem_nil
  | seq _ _ ih ih' =>
    intro x hx e he
    rw [blocksOf_append, List.mem_append] at hx
    rcases hx with hx | hx
    · cases (ih x hx e he).1
    · exact ih' x hx e he
  | within _ _ _ ih => exact ih
  | included _ _ _ _ ih =>
    intro x hx
    rw [blocksOf, Deed.blocks, blocksOf, List.append_nil] at hx
    exact ih x hx
  | @block names b ds r t _ _ hends ih =>
    intro x hx e he
    rw [blocksOf, Deed.blocks, blocksOf, List.append_nil, List.mem_append] at hx
    have hfault : b.result = .error e ∧ b.closed.calls = x.1.closed.calls := by
      rcases hx with hx | hx
      · exact ih x hx e he
      · cases List.mem_singleton.mp hx
        exact ⟨he, rfl⟩
    refine ⟨?_, by rw [hends.calls, Block.writes_of_error hfault.1, List.append_nil, hfault.2]⟩
    cases hends with
    | failed he' => rw [← he', hfault.1]
    | written hok _ => rw [hfault.1] at hok; cases hok
    | refused hok _ => rw [hfault.1] at hok; cases hok

/-- What stands in the one list or the other. -/
theorem at_append {α : Type} {x : α} {before as bs : List α} (h : before ++ [x] <+: as ++ bs) :
    before ++ [x] <+: as ∨ ∃ between, before = as ++ between ∧ between ++ [x] <+: bs := by
  rcases Nat.lt_or_ge before.length as.length with hlt | hge
  · refine .inl (List.prefix_of_prefix_length_le h (List.prefix_append _ _) ?_)
    rw [List.length_append, List.length_singleton]
    exact hlt
  · obtain ⟨between, rfl⟩ := List.prefix_of_prefix_length_le (List.prefix_append as bs)
      ((List.prefix_append before [x]).trans h) hge
    rw [List.append_assoc, List.prefix_append_right_inj] at h
    exact .inr ⟨between, rfl, h⟩

/-- Where the store is asked to write, a block has just come to the end of its body. -/
theorem Does.persisted (h : Does host names s ds r t) : ∀ before path,
    before ++ [.persist path] <+: callsOf ds → ∃ x ∈ blocksOf ds,
      x.1.path = path ∧ x.1.result = .ok () ∧ x.1.closed.calls = s.calls ++ before := by
  induction h with
  | nothing | fails | turns | changed =>
    intro before path hat
    have := hat.length_le
    simp [callsOf, Deed.calls] at this
  | @seq names s t u ds ds' r h _ ih ih' =>
    intro before path hat
    rw [callsOf_append] at hat
    rw [blocksOf_append]
    rcases at_append hat with hfirst | ⟨between, rfl, hlater⟩
    · obtain ⟨x, hx, hpath, hresult, hcalls⟩ := ih before path hfirst
      exact ⟨x, List.mem_append_left _ hx, hpath, hresult, hcalls⟩
    · obtain ⟨x, hx, hpath, hresult, hcalls⟩ := ih' between path hlater
      refine ⟨x, List.mem_append_right _ hx, hpath, hresult, ?_⟩
      rw [hcalls, h.calls, List.append_assoc]
  | within _ _ _ ih => exact ih
  | included _ _ _ _ ih =>
    intro before path hat
    rw [callsOf, Deed.calls, callsOf, List.append_nil] at hat
    rw [blocksOf, Deed.blocks, blocksOf, List.append_nil]
    exact ih before path hat
  | absent | unread =>
    intro before path hat
    obtain ⟨rest, hrest⟩ := hat
    cases before with
    | nil => cases hrest
    | cons c before => simp [callsOf, Deed.calls] at hrest
  | @block names b ds r t _ hinside _ ih =>
    intro before path hat
    rw [callsOf, Deed.calls, callsOf, List.append_nil, List.cons_append] at hat
    rw [blocksOf, Deed.blocks, blocksOf, List.append_nil]
    cases before with
    | nil => cases (List.cons_prefix_cons.mp hat).1
    | cons c before =>
      obtain ⟨hload, hrest⟩ := List.cons_prefix_cons.mp hat
      have hopened : b.entered.calls = b.opened.calls ++ [.load b.path] := rfl
      rw [hload]
      rcases at_append hrest with hinner | ⟨between, rfl, hend⟩
      · obtain ⟨x, hx, hpath, hresult, hcalls⟩ := ih before path hinner
        refine ⟨x, List.mem_append_left _ hx, hpath, hresult, ?_⟩
        rw [hcalls, hopened, List.append_assoc]
        rfl
      · cases hresult : b.result with
        | error e =>
          rw [Block.writes_of_error hresult] at hend
          simpa using hend.length_le
        | ok =>
          rw [Block.writes_of_ok hresult] at hend
          obtain ⟨rfl, rfl⟩ : between = [] ∧ b.path = path := by
            cases between with
            | nil => exact ⟨rfl, by cases (List.cons_prefix_cons.mp hend).1; rfl⟩
            | cons _ _ => simpa using hend.length_le
          refine ⟨(b, ds), List.mem_append_right _ (List.mem_singleton_self _), rfl, hresult, ?_⟩
          rw [hinside.calls, hopened, List.append_assoc, List.append_nil]
          rfl

/-! ## Without included scripts -/

/-- A time that a file is visited: a document is asked for, and then it may be written. -/
structure Visit where
  /-- The path. -/
  path : String
  /-- Is the document written? -/
  writes : Bool

/-- What the store is asked in a visit. -/
def Visit.calls (v : Visit) : List StoreCall :=
  .load v.path :: if v.writes then [.persist v.path] else []

omit [DocumentStore σ] in
/-- Changes of the open document ask nothing of the store. -/
theorem callsOf_eq_nil (hfiles : ∀ x ∈ ds, ¬x.IsFile) (hscripts : scriptsOf ds = []) :
    callsOf ds = [] := by
  induction ds with
  | nil => rfl
  | cons d ds ih =>
    obtain ⟨hfile, hrest⟩ := List.forall_mem_cons.mp hfiles
    cases d with
    | change e => exact ih hrest hscripts
    | script name inside => cases hscripts
    | missed path | block b inside => exact absurd trivial hfile

/-- Where no script is included, files are visited one after the other. -/
theorem Does.visits (h : Does host names s ds r t) (hs : s.context.document = none)
    (hscripts : scriptsOf ds = []) : ∃ visits : List Visit, callsOf ds = visits.flatMap Visit.calls := by
  induction h with
  | nothing | fails | turns | changed => exact ⟨[], rfl⟩
  | seq h _ ih ih' =>
    rw [scriptsOf_append, List.append_eq_nil_iff] at hscripts
    obtain ⟨visits, hvisits⟩ := ih hs hscripts.1
    obtain ⟨visits', hvisits'⟩ := ih' (h.closed hs) hscripts.2
    exact ⟨visits ++ visits', by rw [callsOf_append, List.flatMap_append, hvisits, hvisits']⟩
  | within hc _ _ ih => exact ih (hc.trans hs) hscripts
  | included => cases hscripts
  | @absent _ _ path | @unread _ _ path => exact ⟨[⟨path, false⟩], rfl⟩
  | @block names b ds r t _ hinside _ _ =>
    rw [scriptsOf, Deed.scripts, scriptsOf, List.append_nil] at hscripts
    have hquiet : callsOf ds = [] :=
      callsOf_eq_nil (hinside.open (d := b.loaded) rfl).1 hscripts
    refine ⟨[⟨b.path, b.finished⟩], ?_⟩
    rw [callsOf, Deed.calls, callsOf, hquiet, Block.writes]
    rfl

end PatchScript.Run
