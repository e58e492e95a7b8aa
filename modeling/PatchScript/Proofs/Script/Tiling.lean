import PatchScript.Proofs.Script.Trivia

/-!
# Tokens tile the source

The characters of a source stand at places that come one after the other, so a span of places cuts
a stretch out of it (`Span.cut`).  The stretches that the tokens of a source were read from follow
each other, with nothing between them but trivia (`Tiles`).  No character is lost or read twice.
-/

namespace PatchScript

/-! ## Places in order -/

namespace Location

/-- Does a place come before another one? -/
def isBefore (l l' : Location) : Bool :=
  l.line < l'.line || (l.line == l'.line && l.column < l'.column)

theorem isBefore_iff {l l' : Location} :
    l.isBefore l' ↔ l.line < l'.line ∨ l.line = l'.line ∧ l.column < l'.column := by
  simp [isBefore]

theorem not_isBefore_self (l : Location) : l.isBefore l = false := by
  simp [isBefore]

theorem isBefore_trans {l l' l'' : Location} (h : l.isBefore l') (h' : l'.isBefore l'') :
    l.isBefore l'' := by
  rw [isBefore_iff] at *
  omega

theorem isBefore_after (l : Location) (c : Char) : l.isBefore (l.after c) := by
  rw [isBefore_iff, after]
  split
  · exact .inl (Nat.lt_succ_self _)
  · exact .inr ⟨rfl, Nat.lt_succ_self _⟩

/-- The place behind a stretch comes behind every place before it. -/
theorem isBefore_afterAll {l l' : Location} (h : l.isBefore l') :
    ∀ cs : List Char, l.isBefore (l'.afterAll cs) := by
  intro cs
  induction cs generalizing l' with
  | nil => exact h
  | cons c cs ih => exact ih (isBefore_trans h (isBefore_after l' c))

/-- Characters with the places that they stand at, the first of them at `l`. -/
def placed : (l : Location) → List Char → List (Location × Char)
  | _, [] => []
  | l, c :: cs => (l, c) :: placed (l.after c) cs

theorem placed_append (l : Location) (cs ds : List Char) :
    placed l (cs ++ ds) = placed l cs ++ placed (l.afterAll cs) ds := by
  induction cs generalizing l with
  | nil => rfl
  | cons c cs ih => exact congrArg _ (ih (l.after c))

theorem map_snd_placed (l : Location) (cs : List Char) : (placed l cs).map (·.2) = cs := by
  induction cs generalizing l with
  | nil => rfl
  | cons c cs ih => exact congrArg _ (ih (l.after c))

/-- The characters of a stretch stand between its ends. -/
theorem of_mem_placed {l : Location} {cs : List Char} {x : Location × Char}
    (h : x ∈ placed l cs) : x.1.isBefore l = false ∧ x.1.isBefore (l.afterAll cs) := by
  induction cs generalizing l with
  | nil => cases h
  | cons c cs ih =>
    rcases List.mem_cons.mp h with rfl | h
    · exact ⟨not_isBefore_self l, isBefore_afterAll (isBefore_after l c) cs⟩
    · obtain ⟨hbehind, hbefore⟩ := ih h
      refine ⟨Bool.eq_false_iff.mpr fun hback => ?_, hbefore⟩
      rw [isBefore_trans hback (isBefore_after l c)] at hbehind
      cases hbehind

end Location

/-! ## What a span cuts out -/

/-- The characters of a source that stand in a span. -/
def Span.cut (s : Span) (source : List Char) : List Char :=
  ((Location.placed .origin source).filter fun x =>
    !x.1.isBefore s.start && x.1.isBefore s.stop).map (·.2)

/-- A span that starts behind the characters before a stretch and goes on for as long as the stretch
does cuts out the stretch. -/
theorem Span.cut_eq (before cs rest : List Char) :
    Span.cut ⟨Location.origin.afterAll before, (Location.origin.afterAll before).afterAll cs⟩
      (before ++ cs ++ rest) = cs := by
  let start := Location.origin.afterAll before
  have hbefore : ∀ x ∈ Location.placed .origin before,
      (!x.1.isBefore start && x.1.isBefore (start.afterAll cs)) = false := by
    intro x hx
    simp [start, (Location.of_mem_placed hx).2]
  have hcs : ∀ x ∈ Location.placed start cs,
      (!x.1.isBefore start && x.1.isBefore (start.afterAll cs)) = true := by
    intro x hx
    simp [Location.of_mem_placed hx]
  have hrest : ∀ x ∈ Location.placed (start.afterAll cs) rest,
      (!x.1.isBefore start && x.1.isBefore (start.afterAll cs)) = false := by
    intro x hx
    simp [(Location.of_mem_placed hx).1]
  rw [Span.cut, Location.placed_append, Location.placed_append, Location.afterAll_append,
    List.filter_append, List.filter_append, List.filter_eq_nil_iff.mpr (by simpa using hbefore),
    List.filter_eq_self.mpr hcs, List.filter_eq_nil_iff.mpr (by simpa using hrest),
    List.nil_append, List.append_nil, Location.map_snd_placed]

namespace Script

/-! ## Tiles -/

/-- The tokens are read from the characters, the first of which stands at `l`, each from a stretch
that its span cuts out of the source, with trivia before and between them and an ending behind
them. -/
inductive Tiles (source : List Char) : Location → List Token → List Char → Prop where
  | ending {l : Location} {cs : List Char} : Ending cs → Tiles source l [] cs
  | trivia {l : Location} {ts : List Token} {rest : List Char} (x : Trivia) :
    Tiles source (l.afterAll x.chars) ts rest → Tiles source l ts (x.chars ++ rest)
  | token {l : Location} {t : Token} {ts : List Token} {cs rest : List Char} :
    Spelled t.kind t.text cs → cs ≠ [] → t.span = ⟨l, l.afterAll cs⟩ → t.span.cut source = cs →
    Tiles source t.span.stop ts rest → Tiles source l (t :: ts) (cs ++ rest)

theorem Trivia.chars_ne_nil (x : Trivia) : x.chars ≠ [] := by
  cases x <;> exact nofun

/-- What is read from some place of a source on are tokens that tile the rest of it. -/
theorem tiles_of_lexFrom (n : Nat) : ∀ {before cs : List Char} {done ts : List Token},
    cs.length ≤ n → lexFrom 0 (Location.origin.afterAll before) done cs = .ok ts →
    ∃ new, ts = done.reverse ++ new ∧
      Tiles (before ++ cs) (Location.origin.afterAll before) new cs := by
  induction n with
  | zero =>
    intro before cs done ts hn h
    have hcs : cs = [] := List.length_eq_zero_iff.mp (Nat.le_zero.mp hn)
    subst hcs
    cases h
    exact ⟨[], (List.append_nil _).symm, .ending .nothing⟩
  | succ n ih =>
    intro before cs done ts hn h
    let l := Location.origin.afterAll before
    rcases front_cases h with
      hending | ⟨x, rest, rfl⟩ | ⟨kind, text, c, word, rest, rfl, hspelled, hlex⟩
    · rw [lexFrom_ending hending] at h
      cases h
      exact ⟨[], (List.append_nil _).symm, .ending hending⟩
    · rw [lexFrom_trivia, ← Location.afterAll_append] at h
      have hlt := List.length_pos_iff.mpr x.chars_ne_nil
      rw [List.length_append] at hn
      obtain ⟨new, hnew, htiles⟩ := ih (by omega) h
      rw [List.append_assoc, Location.afterAll_append] at htiles
      exact ⟨new, hnew, .trivia x htiles⟩
    · rw [lexFrom_token hlex hspelled.front.1, ← Location.afterAll_append] at h
      obtain ⟨new, rfl, htiles⟩ := ih (by simp at hn; omega) h
      let t : Token := ⟨kind, text, ⟨l, l.afterAll (c :: word)⟩⟩
      rw [List.append_assoc, Location.afterAll_append] at htiles
      have hcut : t.span.cut (before ++ (c :: word ++ rest)) = c :: word := by
        rw [← List.append_assoc]
        exact Span.cut_eq before (c :: word) rest
      have htoken : Tiles (before ++ (c :: word ++ rest)) l (t :: new) (c :: word ++ rest) :=
        .token hspelled nofun rfl hcut htiles
      refine ⟨t :: new, ?_, htoken⟩
      rw [List.reverse_cons, List.append_assoc, List.singleton_append, Location.afterAll_append]

theorem tiles_of_lex {source : String} {ts : List Token} (h : lex source = .ok ts) :
    Tiles source.toList .origin ts source.toList := by
  obtain ⟨new, hnew, htiles⟩ := tiles_of_lexFrom source.toList.length (Nat.le_refl _)
    (show lexFrom 0 (Location.origin.afterAll []) [] source.toList = .ok ts from h)
  rw [hnew]
  exact htiles

/-! ## What the tiles say of each token -/

/-- A token is spelled by the stretch that its span cuts out. -/
theorem Tiles.spelled {source cs : List Char} {l : Location} {ts : List Token}
    (h : Tiles source l ts cs) :
    ∀ t ∈ ts, t.span.cut source ≠ [] ∧ Spelled t.kind t.text (t.span.cut source) := by
  induction h with
  | ending => exact nofun
  | trivia _ _ ih => exact ih
  | token hspelled hne _ hcut _ ih =>
    refine List.forall_mem_cons.mpr ⟨?_, ih⟩
    rw [hcut]
    exact ⟨hne, hspelled⟩

/-- No token starts before the place that the tiling starts at. -/
theorem Tiles.start_le {source cs : List Char} {l : Location} {ts : List Token}
    (h : Tiles source l ts cs) : ∀ t ∈ ts, t.span.start.isBefore l = false := by
  have back {l l' : Location} {cs : List Char} (h : l'.isBefore (l.afterAll cs) = false) :
      l'.isBefore l = false := by
    refine Bool.eq_false_iff.mpr fun hbefore => ?_
    rw [Location.isBefore_afterAll hbefore] at h
    cases h
  induction h with
  | ending => exact nofun
  | trivia x _ ih => exact fun t ht => back (ih t ht)
  | token _ _ hspan _ _ ih =>
    rw [hspan] at ih
    refine List.forall_mem_cons.mpr ⟨?_, fun t ht => back (ih t ht)⟩
    rw [hspan]
    exact Location.not_isBefore_self _

/-- A token starts where the one before it stops, or behind that place. -/
theorem Tiles.ordered {source cs : List Char} {l : Location} {ts : List Token}
    (h : Tiles source l ts cs) :
    ts.Pairwise fun t t' => t'.span.start.isBefore t.span.stop = false := by
  induction h with
  | ending => exact .nil
  | trivia _ _ ih => exact ih
  | token _ _ _ _ hrest ih => exact .cons hrest.start_le ih

/-- The tokens of a source that is read tile it: the span of each cuts a stretch out of the source,
which is not empty and spells the token; the stretches follow each other, none of them starting
before the last one stops; and all that is not in one of them is trivia, but for the ending. -/
theorem tokens_tile_source {source : String} {ts : List Token} (h : lex source = .ok ts) :
    (∀ t ∈ ts, t.span.cut source.toList ≠ [] ∧
      Spelled t.kind t.text (t.span.cut source.toList)) ∧
    ts.Pairwise (fun t t' => t'.span.start.isBefore t.span.stop = false) ∧
    Tiles source.toList .origin ts source.toList := by
  have htiles := tiles_of_lex h
  exact ⟨htiles.spelled, htiles.ordered, htiles⟩

/-- A boolean with a letter behind it, a string over two lines, a number, and an open comment. -/
theorem tokens_tile_two_lines :
    let source := "truex /**/'a\nb'1.50--/*"
    let ts : List Token := [⟨.boolean, "true", ⟨⟨1, 1⟩, ⟨1, 5⟩⟩⟩,
      ⟨.identifier, "x", ⟨⟨1, 5⟩, ⟨1, 6⟩⟩⟩, ⟨.string, "a\nb", ⟨⟨1, 11⟩, ⟨2, 3⟩⟩⟩,
      ⟨.number, "1.5", ⟨⟨2, 3⟩, ⟨2, 7⟩⟩⟩, ⟨.operator, "-", ⟨⟨2, 7⟩, ⟨2, 8⟩⟩⟩,
      ⟨.operator, "-", ⟨⟨2, 8⟩, ⟨2, 9⟩⟩⟩]
    lex source = .ok ts ∧
      (∀ t ∈ ts, t.span.cut source.toList ≠ [] ∧
        Spelled t.kind t.text (t.span.cut source.toList)) ∧
      ts.Pairwise (fun t t' => t'.span.start.isBefore t.span.stop = false) ∧
      Tiles source.toList .origin ts source.toList := by
  intro source ts
  have hlex : lex source = .ok ts := by decide +kernel
  exact ⟨hlex, tokens_tile_source hlex⟩

end Script

end PatchScript
