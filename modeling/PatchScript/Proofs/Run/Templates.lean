import Mathlib.Data.List.TakeWhile
import PatchScript.Proofs.Text.Replacing
import PatchScript.Proofs.Run.Steps
import PatchScript.Run.Program

/-!
# Filling placeholders

A text is made of *parts*.  A part is a *mark*, a character that stands for itself, or a *hole*,
which a placeholder leaves for the constant of its word.  To fill a text is to put the characters
of the constants in the holes.  All holes are filled at once, and what is put in is not looked at
again.

A literal is filled in another way: one word after the other, and each wherever its placeholder
stands in the text made so far.  That text is again made of parts, the marks of the constants
among them, and the holes of the words that are still to come.  A step is right if the
placeholder of its word stands in no other place than the holes.  The marks of a constant can
spell a placeholder, alone or together with the marks next to them.  Such a placeholder is
*made*, and it is replaced too.

`replaced_spelled_iff` is about one step, `fillWords_iff` about the steps of a whole text.
-/

namespace PatchScript.Run

open Text (replaced replaced_nil replaced_cons replaced_append replacing_induction)

/-! ## Parts -/

/-- A part of a text. -/
inductive Part where
  /-- A character that stands for itself. -/
  | mark (c : Char)
  /-- The hole that the placeholder of a word leaves. -/
  | hole (word : String)
deriving DecidableEq

/-- The parts of a text.  `skip` counts the characters that still belong to the last of them. -/
def partsFrom : (skip : Nat) → List Char → List Part
  | _, [] => []
  | skip + 1, _ :: cs => partsFrom skip cs
  | 0, c :: cs =>
    let word := cs.takeWhile Text.isWord
    if c = '\x7b' ∧ word ≠ [] ∧ cs[word.length]? = some '\x7d' then
      .hole (String.ofList word) :: partsFrom (word.length + 1) cs
    else .mark c :: partsFrom 0 cs

/-- The parts of a text. -/
def parts (s : String) : List Part := partsFrom 0 s.toList

namespace Part

/-- The word that a part is the hole of. -/
def word? : Part → Option String
  | mark _ => none
  | hole word => some word

/-- How a part is spelled. -/
def spelling : Part → List Char
  | mark c => [c]
  | hole word => (placeholder word).toList

/-- A part with a text in its hole, if its word stands for one. -/
def filled (value? : String → Option String) : Part → List Part
  | mark c => [mark c]
  | hole word =>
    match value? word with
    | some value => value.toList.map mark
    | none => [hole word]

end Part

variable {ps : List Part} {w v : String} {value? : String → Option String}

/-- The words of the holes, in order. -/
def holes (ps : List Part) : List String := ps.filterMap Part.word?

/-- How parts are spelled. -/
def spelled (ps : List Part) : List Char := ps.flatMap Part.spelling

/-- Parts with texts in the holes whose words stand for one. -/
def filled (value? : String → Option String) (ps : List Part) : List Part :=
  ps.flatMap (Part.filled value?)

/-- The placeholder of a word, of marks. -/
def marksOf (w : String) : List Part := (placeholder w).toList.map .mark

/-- Do marks spell the placeholder of the word? -/
def IsMade (w : String) (ps : List Part) : Prop := marksOf w <:+: ps

/-- Can the word stand in a placeholder? -/
def IsWord (w : String) : Prop := w.toList ≠ [] ∧ ∀ c ∈ w.toList, Text.isWord c = true

/-- What the words of a list stand for. -/
def among (value? : String → Option String) (ws : List String) (u : String) : Option String :=
  if u ∈ ws then value? u else none

/-- One word stands for a text. -/
def only (w v : String) (u : String) : Option String := if u = w then some v else none

@[simp] theorem spelled_nil : spelled [] = [] := rfl

@[simp] theorem spelled_cons (p : Part) (ps : List Part) :
    spelled (p :: ps) = p.spelling ++ spelled ps := rfl

@[simp] theorem spelled_append (ps qs : List Part) :
    spelled (ps ++ qs) = spelled ps ++ spelled qs := List.flatMap_append

@[simp] theorem filled_nil : filled value? [] = [] := rfl

@[simp] theorem filled_cons (p : Part) (ps : List Part) :
    filled value? (p :: ps) = p.filled value? ++ filled value? ps := rfl

@[simp] theorem filled_append (ps qs : List Part) :
    filled value? (ps ++ qs) = filled value? ps ++ filled value? qs := List.flatMap_append

@[simp] theorem holes_append (ps qs : List Part) : holes (ps ++ qs) = holes ps ++ holes qs :=
  List.filterMap_append

@[simp] theorem holes_cons (p : Part) (ps : List Part) :
    holes (p :: ps) = p.word?.toList ++ holes ps := by
  cases p <;> rfl

@[simp] theorem spelled_marks (cs : List Char) : spelled (cs.map .mark) = cs := by
  induction cs with
  | nil => rfl
  | cons c cs ih => rw [List.map_cons, spelled_cons, ih]; rfl

/-- In marks there is nothing to fill. -/
@[simp] theorem filled_marks (cs : List Char) :
    filled value? (cs.map .mark) = cs.map .mark := by
  induction cs with
  | nil => rfl
  | cons c cs ih => rw [List.map_cons, filled_cons, ih]; rfl

/-! ## The parts of a text -/

theorem toList_placeholder (w : String) :
    (placeholder w).toList = '\x7b' :: (w.toList ++ ['\x7d']) := by
  simp [placeholder, String.toList_append]

theorem placeholder_ne_nil (w : String) : (placeholder w).toList ≠ [] := by
  rw [toList_placeholder]
  exact List.cons_ne_nil _ _

theorem marksOf_ne_nil (w : String) : marksOf w ≠ [] := fun h =>
  placeholder_ne_nil w (List.map_eq_nil_iff.mp h)

/-- A word ends at a closing brace. -/
theorem IsWord.takeWhile_closed (hw : IsWord w) (rest : List Char) :
    (w.toList ++ ['\x7d'] ++ rest).takeWhile Text.isWord = w.toList := by
  rw [List.append_assoc, List.takeWhile_append_of_pos hw.2]
  simp [show Text.isWord '\x7d' = false from rfl]

/-- Behind an opening brace, a word and a closing brace are the rest of a placeholder. -/
theorem takeWhile_eq_iff {cs : List Char} :
    (cs.takeWhile Text.isWord ≠ [] ∧ cs[(cs.takeWhile Text.isWord).length]? = some '\x7d') ↔
      ∃ w, IsWord w ∧ w.toList ++ ['\x7d'] <+: cs := by
  constructor
  · rintro ⟨hne, hclosed⟩
    obtain ⟨hlt, hget⟩ := List.getElem?_eq_some_iff.mp hclosed
    refine ⟨String.ofList (cs.takeWhile Text.isWord), ⟨by simpa using hne, fun c hc => ?_⟩, ?_⟩
    · exact List.mem_takeWhile_imp (by simpa using hc)
    · rw [String.toList_ofList, List.prefix_iff_eq_take, List.length_append, List.length_singleton,
        ← List.take_append_getElem hlt, hget,
        ← List.prefix_iff_eq_take.mp (List.takeWhile_prefix Text.isWord)]
  · rintro ⟨w, hw, rest, rfl⟩
    rw [hw.takeWhile_closed]
    exact ⟨hw.1, by simp⟩

/-- The parts spell the text. -/
theorem spelled_partsFrom (skip : Nat) (cs : List Char) :
    spelled (partsFrom skip cs) = cs.drop skip := by
  induction cs generalizing skip with
  | nil => cases skip <;> rfl
  | cons c cs ih =>
    cases skip with
    | succ skip => exact ih skip
    | zero =>
      rw [partsFrom]
      split
      · rename_i h
        obtain ⟨rfl, -, hclosed⟩ := h
        obtain ⟨hlt, hget⟩ := List.getElem?_eq_some_iff.mp hclosed
        rw [spelled_cons, ih, Part.spelling, toList_placeholder, String.toList_ofList]
        have hsplit := List.take_append_drop ((cs.takeWhile Text.isWord).length + 1) cs
        rw [← List.take_append_getElem hlt, hget,
          ← List.prefix_iff_eq_take.mp (List.takeWhile_prefix Text.isWord)] at hsplit
        rw [List.cons_append, hsplit, List.drop_zero]
      · rw [spelled_cons, ih]
        rfl

/-- The holes are those of the placeholders. -/
theorem holes_partsFrom (skip : Nat) (cs : List Char) :
    holes (partsFrom skip cs) = placeholdersFrom skip cs := by
  induction cs generalizing skip with
  | nil => cases skip <;> rfl
  | cons c cs ih =>
    cases skip with
    | succ skip => exact ih skip
    | zero =>
      rw [partsFrom, placeholdersFrom]
      split <;> rw [holes_cons, ih] <;> rfl

theorem isWord_of_mem_placeholdersFrom {skip : Nat} {cs : List Char}
    (h : w ∈ placeholdersFrom skip cs) : IsWord w := by
  induction cs generalizing skip with
  | nil => cases skip <;> cases h
  | cons c cs ih =>
    cases skip with
    | succ skip => exact ih h
    | zero =>
      rw [placeholdersFrom] at h
      split at h
      · rename_i hplace
        rcases List.mem_cons.mp h with rfl | h
        · exact ⟨by simpa using hplace.2.1,
            fun c hc => List.mem_takeWhile_imp (by simpa using hc)⟩
        · exact ih h
      · exact ih h

/-- No placeholder is left among the marks. -/
theorem not_made_partsFrom (hw : IsWord w) (skip : Nat) (cs : List Char) :
    ¬IsMade w (partsFrom skip cs) := by
  induction cs generalizing skip with
  | nil => cases skip <;> exact fun h => marksOf_ne_nil w (List.infix_nil.mp h)
  | cons c cs ih =>
    cases skip with
    | succ skip => exact ih skip
    | zero =>
      rw [partsFrom]
      split
      · intro h
        rcases List.infix_cons_iff.mp h with hprefix | hrest
        · rw [marksOf, toList_placeholder, List.map_cons, List.cons_prefix_cons] at hprefix
          cases hprefix.1
        · exact ih _ hrest
      · rename_i hplace
        intro h
        rcases List.infix_cons_iff.mp h with hprefix | hrest
        · rw [marksOf, toList_placeholder, List.map_cons, List.cons_prefix_cons] at hprefix
          obtain ⟨hc, ps, hps⟩ := hprefix
          have hspelled : w.toList ++ ['\x7d'] <+: cs := by
            have := congrArg spelled hps
            rw [spelled_append, spelled_marks, spelled_partsFrom, List.drop_zero] at this
            exact ⟨_, this⟩
          exact hplace ⟨(Part.mark.inj hc).symm, takeWhile_eq_iff.mpr ⟨w, hw, hspelled⟩⟩
        · exact ih _ hrest

/-! ## One step -/

/-- Characters without an opening brace that parts start with are marks. -/
theorem prefix_marks {xs : List Char} (hxs : '\x7b' ∉ xs) (h : xs <+: spelled ps) :
    xs.map .mark <+: ps := by
  induction xs generalizing ps with
  | nil => exact List.nil_prefix
  | cons x xs ih =>
    cases ps with
    | nil => exact absurd (List.prefix_nil.mp h) (List.cons_ne_nil x xs)
    | cons p ps =>
      rw [spelled_cons] at h
      cases p with
      | mark c =>
        obtain ⟨rfl, hrest⟩ := List.cons_prefix_cons.mp h
        exact List.cons_prefix_cons.mpr
          ⟨rfl, ih (fun hmem => hxs (List.mem_cons_of_mem x hmem)) hrest⟩
      | hole u =>
        rw [Part.spelling, toList_placeholder] at h
        obtain ⟨rfl, -⟩ := List.cons_prefix_cons.mp h
        exact absurd List.mem_cons_self hxs

theorem IsWord.brace_notMem (hw : IsWord w) : '\x7b' ∉ w.toList ++ ['\x7d'] := by
  intro h
  rcases List.mem_append.mp h with h | h
  · exact absurd (hw.2 _ h) (by decide)
  · cases List.mem_singleton.mp h

/-- What holds no opening brace is kept. -/
theorem replaced_kept {xs : List Char} (hxs : '\x7b' ∉ xs) (new cs : List Char) :
    replaced (placeholder w).toList new (xs ++ cs)
      = xs ++ replaced (placeholder w).toList new cs := by
  induction xs with
  | nil => rfl
  | cons x xs ih =>
    have hnot : ¬(placeholder w).toList <+: x :: (xs ++ cs) := by
      rw [toList_placeholder]
      intro h
      exact hxs ((List.cons_prefix_cons.mp h).1 ▸ List.mem_cons_self)
    rw [List.cons_append, replaced_cons hnot, ih fun h => hxs (List.mem_cons_of_mem x h)]
    rfl

/-- The placeholders of two words start differently. -/
theorem IsWord.eq_of_prefix {u : String} (hw : IsWord w) (hu : IsWord u) {cs : List Char}
    (h : (placeholder w).toList <+: (placeholder u).toList ++ cs) : w = u := by
  rw [toList_placeholder, toList_placeholder, List.cons_append, List.cons_prefix_cons] at h
  obtain ⟨rest, hrest⟩ := h.2
  have hwords := congrArg (List.takeWhile Text.isWord) hrest
  rw [hw.takeWhile_closed, hu.takeWhile_closed] at hwords
  exact String.toList_inj.mp hwords

/-- A part that no made placeholder starts with is replaced on its own. -/
theorem replaced_part (hw : IsWord w) {p : Part} (hp : ∀ u, p = .hole u → IsWord u)
    (hnot : ¬marksOf w <+: p :: ps) :
    replaced (placeholder w).toList v.toList (spelled (p :: ps))
      = spelled (p.filled (only w v))
        ++ replaced (placeholder w).toList v.toList (spelled ps) := by
  cases p with
  | mark c =>
    have hkept : ¬(placeholder w).toList <+: c :: spelled ps := by
      rw [toList_placeholder]
      intro h
      obtain ⟨rfl, hrest⟩ := List.cons_prefix_cons.mp h
      refine hnot ?_
      rw [marksOf, toList_placeholder]
      exact List.cons_prefix_cons.mpr ⟨rfl, prefix_marks hw.brace_notMem hrest⟩
    exact replaced_cons hkept v.toList
  | hole u =>
    rw [spelled_cons, Part.spelling]
    by_cases hu : u = w
    · subst hu
      rw [replaced_append (placeholder_ne_nil u), Part.filled, only, if_pos rfl, spelled_marks]
    · have hkept : ¬(placeholder w).toList <+: (placeholder u).toList ++ spelled ps := fun h =>
        hu (hw.eq_of_prefix (hp u rfl) h).symm
      rw [Part.filled, only, if_neg hu]
      rw [toList_placeholder u, List.cons_append] at hkept ⊢
      rw [replaced_cons hkept, replaced_kept (hp u rfl).brace_notMem]
      simp [Part.spelling, toList_placeholder]

section

variable (hw : IsWord w) (hps : ∀ u ∈ holes ps, IsWord u)
include hw hps

/-- A step makes the text longer or shorter than it should, by as much for every placeholder
that was made. -/
theorem length_replaced_spelled : ∃ n,
    (replaced (placeholder w).toList v.toList (spelled ps)).length
        + n * (placeholder w).toList.length
      = (spelled (filled (only w v) ps)).length + n * v.toList.length := by
  induction ps using replacing_induction (marksOf_ne_nil w) with
  | nil => exact ⟨0, by simp⟩
  | found ps ih =>
    obtain ⟨n, hn⟩ := ih fun u hu => hps u (by simp [holes_append, hu])
    refine ⟨n + 1, ?_⟩
    rw [spelled_append, marksOf, spelled_marks, replaced_append (placeholder_ne_nil w),
      filled_append, filled_marks, spelled_append, spelled_marks, List.length_append,
      List.length_append, Nat.succ_mul, Nat.succ_mul]
    omega
  | kept p ps hnot ih =>
    obtain ⟨n, hn⟩ := ih fun u hu => hps u (by simp [hu])
    have hp (u : String) (hu : p = .hole u) : IsWord u := hps u (by simp [hu, Part.word?])
    refine ⟨n, ?_⟩
    rw [replaced_part hw hp hnot, filled_cons, spelled_append, List.length_append,
      List.length_append]
    omega

/-- A step does nothing but fill the holes of its word if and only if no placeholder of the word
is made, or the word stands for its own placeholder. -/
theorem replaced_spelled_iff :
    replaced (placeholder w).toList v.toList (spelled ps) = spelled (filled (only w v) ps) ↔
      v = placeholder w ∨ ¬IsMade w ps := by
  induction ps using replacing_induction (marksOf_ne_nil w) with
  | nil => exact iff_of_true rfl (.inr fun h => marksOf_ne_nil w (List.infix_nil.mp h))
  | found ps ih =>
    have hps' (u : String) (hu : u ∈ holes ps) : IsWord u := hps u (by simp [holes_append, hu])
    have hmade : IsMade w (marksOf w ++ ps) := (List.prefix_append _ _).isInfix
    obtain ⟨n, hn⟩ := length_replaced_spelled (v := v) hw hps'
    rw [or_iff_left (not_not.mpr hmade), spelled_append, marksOf, spelled_marks,
      replaced_append (placeholder_ne_nil w), filled_append, filled_marks, spelled_append,
      spelled_marks]
    constructor
    · intro h
      -- What is made is as long as what stood there, or the whole text would not be as long.
      have hlength := congrArg List.length h
      rw [List.length_append, List.length_append] at hlength
      have hsame : v.toList.length = (placeholder w).toList.length := by
        have : (n + 1) * v.toList.length = (n + 1) * (placeholder w).toList.length := by
          rw [Nat.succ_mul, Nat.succ_mul]
          omega
        exact Nat.eq_of_mul_eq_mul_left n.succ_pos this
      exact String.toList_inj.mp (List.append_inj h hsame).1
    · intro h
      rw [(ih hps').mpr (.inl h), h]
  | kept p ps hnot ih =>
    have hp (u : String) (hu : p = .hole u) : IsWord u := hps u (by simp [hu, Part.word?])
    rw [replaced_part hw hp hnot, filled_cons, spelled_append, List.append_cancel_left_eq,
      ih fun u hu => hps u (by simp [hu]), IsMade, IsMade, List.infix_cons_iff, or_iff_right hnot]

end

/-! ## All steps -/

/-- The text with the holes of some words filled. -/
def filling (constant? : String → Option String) (ws : List String) (s : String) : String :=
  String.ofList (spelled (filled (among constant? ws) (parts s)))

/-- The constants keep the placeholders of the text apart: when the turn of a word comes, no
placeholder of it is made, or the word stands for its own placeholder. -/
def Apart (constant? : String → Option String) (s : String) : Prop :=
  ∀ before w after v, placeholders s = before ++ w :: after → constant? w = some v →
    v = placeholder w ∨ ¬IsMade w (filled (among constant? before) (parts s))

variable {constant? : String → Option String} {s : String} {before after ws : List String}

/-- Before any word has had its turn, no hole is filled. -/
theorem filled_among_nil (ps : List Part) : filled (among value? []) ps = ps := by
  induction ps with
  | nil => rfl
  | cons p ps ih => rw [filled_cons, ih]; cases p <;> rfl

/-- Holes are filled word by word. -/
theorem filled_filled (h : constant? w = some v) (ps : List Part) :
    filled (only w v) (filled (among constant? before) ps)
      = filled (among constant? (before ++ [w])) ps := by
  induction ps with
  | nil => rfl
  | cons p ps ih =>
    rw [filled_cons, filled_append, ih, filled_cons]
    congr 1
    cases p with
    | mark c => rfl
    | hole u =>
      by_cases hu : u = w
      · subst hu
        by_cases hmem : u ∈ before <;> simp [Part.filled, among, only, hmem, h]
      · by_cases hmem : u ∈ before
        · cases hconst : constant? u <;> simp [Part.filled, among, only, hmem, hconst, hu]
        · simp [Part.filled, among, only, hmem, hu]

/-- Once all words have had their turn, all holes are filled. -/
theorem filled_among (h : ∀ u ∈ holes ps, u ∈ ws) :
    filled (among value? ws) ps = filled value? ps := by
  induction ps with
  | nil => rfl
  | cons p ps ih =>
    rw [filled_cons, filled_cons, ih fun u hu => h u (by simp [hu])]
    congr 1
    cases p with
    | mark c => rfl
    | hole u =>
      have hu : u ∈ ws := h u (by simp [Part.word?])
      simp [Part.filled, among, hu]

/-- The holes that are left were there before. -/
theorem mem_holes_of_filled {u : String} (h : u ∈ holes (filled value? ps)) : u ∈ holes ps := by
  induction ps with
  | nil => exact h
  | cons p ps ih =>
    rw [filled_cons, holes_append, List.mem_append] at h
    rw [holes_cons, List.mem_append]
    refine h.imp (fun h => ?_) ih
    cases p with
    | mark c => exact h
    | hole u' =>
      rw [Part.filled] at h
      split at h
      · simp [holes, Part.word?] at h
      · exact h

/-- The marks are those of the text and those of the texts put in. -/
theorem mem_of_mark_mem_filled {c : Char} (h : Part.mark c ∈ filled value? ps) :
    .mark c ∈ ps ∨ ∃ u v, value? u = some v ∧ c ∈ v.toList := by
  obtain ⟨p, hp, hmark⟩ := List.mem_flatMap.mp h
  cases p with
  | mark c' =>
    rw [Part.filled, List.mem_singleton] at hmark
    exact .inl (hmark ▸ hp)
  | hole u =>
    rw [Part.filled] at hmark
    split at hmark
    · rename_i v hv
      obtain ⟨c', hc', heq⟩ := List.mem_map.mp hmark
      exact .inr ⟨u, v, hv, Part.mark.inj heq ▸ hc'⟩
    · cases List.mem_singleton.mp hmark

/-- Without an opening brace, but for those of its placeholders, a text is kept apart by
constants without one. -/
theorem apart_of_no_brace (hs : Part.mark '\x7b' ∉ parts s)
    (hconst : ∀ u v, constant? u = some v → '\x7b' ∉ v.toList) : Apart constant? s := by
  intro before w after v hsplit hv
  refine .inr fun hmade => ?_
  have hmem : Part.mark '\x7b' ∈ marksOf w := by
    rw [marksOf, toList_placeholder]
    exact List.mem_cons_self
  rcases mem_of_mark_mem_filled (hmade.subset hmem) with h | ⟨u, v', hv', hc⟩
  · exact hs h
  · rw [among] at hv'
    split at hv'
    · exact hconst u v' hv' hc
    · cases hv'

theorem fillWords_append (ws us : List String) (t : String) :
    fillWords constant? (ws ++ us) t =
      (fillWords constant? ws t).bind (fillWords constant? us) := by
  induction ws generalizing t with
  | nil => rfl
  | cons w ws ih =>
    rw [List.cons_append, fillWords, fillWords]
    cases constant? w with
    | some v => exact ih _
    | none => rfl

theorem fillWords_singleton (h : constant? w = some v) (t : String) :
    fillWords constant? [w] t = .ok (Text.replaceAll t (placeholder w) v) := by
  rw [fillWords, h]
  rfl

/-- Words that all stand for something give a text. -/
theorem fillWords_ok (h : ∀ u ∈ ws, constant? u ≠ none) (t : String) :
    ∃ r, fillWords constant? ws t = .ok r := by
  induction ws generalizing t with
  | nil => exact ⟨t, rfl⟩
  | cons w ws ih =>
    obtain ⟨v, hv⟩ := Option.ne_none_iff_exists'.mp (h w List.mem_cons_self)
    rw [fillWords, hv]
    exact ih (fun u hu => h u (List.mem_cons_of_mem w hu)) _

/-- The first word that stands for nothing is the one named. -/
theorem fillWords_stop (h : ∀ u ∈ before, constant? u ≠ none) (hw : constant? w = none)
    (t : String) : fillWords constant? (before ++ w :: after) t = .error w := by
  obtain ⟨r, hr⟩ := fillWords_ok h t
  rw [fillWords_append, hr, Except.bind, fillWords, hw]

/-- One step on a text in which the holes of some words are filled. -/
theorem fillWords_step (hbefore : fillWords constant? before s = .ok (filling constant? before s))
    (hw : IsWord w) (hv : constant? w = some v) :
    fillWords constant? (before ++ [w]) s = .ok (filling constant? (before ++ [w]) s) ↔
      v = placeholder w ∨ ¬IsMade w (filled (among constant? before) (parts s)) := by
  have hholes (u : String) (hu : u ∈ holes (filled (among constant? before) (parts s))) :
      IsWord u := by
    have := mem_holes_of_filled hu
    rw [parts, holes_partsFrom] at this
    exact isWord_of_mem_placeholdersFrom this
  rw [fillWords_append, hbefore, Except.bind, fillWords_singleton hv, Except.ok.injEq,
    ← replaced_spelled_iff hw hholes, ← String.toList_inj, Text.toList_replaceAll, filling, filling,
    String.toList_ofList, String.toList_ofList, filled_filled hv]

/-- The steps fill one hole after the other, and nothing else, if and only if the constants keep
the placeholders apart. -/
theorem fillWords_iff (h : ∀ u ∈ placeholders s, constant? u ≠ none) :
    (∀ before, before <+: placeholders s →
        fillWords constant? before s = .ok (filling constant? before s)) ↔
      Apart constant? s := by
  have isWord {before after : List String} {w : String}
      (hsplit : placeholders s = before ++ w :: after) : IsWord w :=
    isWord_of_mem_placeholdersFrom (show w ∈ placeholders s by simp [hsplit])
  constructor
  · intro hsteps before w after v hsplit hv
    have hstep : fillWords constant? (before ++ [w]) s =
        .ok (filling constant? (before ++ [w]) s) :=
      hsteps _ ⟨after, by simp [hsplit]⟩
    exact (fillWords_step (hsteps before ⟨w :: after, hsplit.symm⟩) (isWord hsplit) hv).mp hstep
  · intro hapart before
    induction before using List.reverseRecOn with
    | nil =>
      intro _
      rw [fillWords, filling, filled_among_nil, parts, spelled_partsFrom, List.drop_zero, String.ofList_toList]
    | append_singleton before w ih =>
      rintro ⟨after, hsplit⟩
      have hsplit : placeholders s = before ++ w :: after := by simp [← hsplit]
      obtain ⟨v, hv⟩ := Option.ne_none_iff_exists'.mp (h w (by simp [hsplit]))
      exact (fillWords_step (ih ⟨w :: after, hsplit.symm⟩) (isWord hsplit) hv).mpr
        (hapart before w after v hsplit hv)

/-! ## Literals -/

/-- The literal in a session, of which it changes nothing. -/
theorem evalLiteral_text_run {σ : Type} (s : String) (t : Session σ) :
    evalLiteral (.text s) t
      = ((fillPlaceholders t.context.const? s).mapError .unresolved, t) := by
  rw [evalLiteral, Eval.context_bind_run]
  cases fillPlaceholders t.context.const? s <;> rfl

/-- A literal is made of characters and of the holes of its placeholders, and all placeholders
of words leave a hole.  If a word stands for no constant, the first such word is named.  If all
words stand for constants, the literal has a value, each of its steps fills the holes of one
word and does nothing else if and only if the constants keep the placeholders apart, and then
the value is the literal with all holes filled at once. -/
theorem evalLiteral_text {σ : Type} (s : String) (t : Session σ) :
    spelled (parts s) = s.toList ∧ holes (parts s) = placeholders s ∧
      (∀ w, IsWord w → ¬IsMade w (parts s)) ∧
      (∀ before w after, placeholders s = before ++ w :: after →
        (∀ u ∈ before, t.context.const? u ≠ none) → t.context.const? w = none →
        evalLiteral (.text s) t = (.error (.unresolved w), t) ∧
          (Fault.unresolved w).report
            = ⟨"EVAL_TEMPLATE_UNRESOLVED", "Const '" ++ w ++ "' value is null", none⟩) ∧
      ((∀ u ∈ placeholders s, t.context.const? u ≠ none) →
        (∃ r, evalLiteral (.text s) t = (.ok r, t)) ∧
          ((∀ before, before <+: placeholders s →
              fillWords t.context.const? before s
                = .ok (filling t.context.const? before s)) ↔
            Apart t.context.const? s) ∧
          (Apart t.context.const? s →
            evalLiteral (.text s) t
              = (.ok (String.ofList (spelled (filled t.context.const? (parts s)))), t))) := by
  have hholes : holes (parts s) = placeholders s := holes_partsFrom 0 s.toList
  refine ⟨spelled_partsFrom 0 s.toList, hholes, fun w hw => not_made_partsFrom hw 0 s.toList,
    ?unresolved, ?resolved⟩
  case unresolved =>
    intro before w after hsplit hbefore hw
    rw [evalLiteral_text_run, fillPlaceholders, hsplit, fillWords_stop hbefore hw]
    exact ⟨rfl, rfl⟩
  case resolved =>
    intro h
    rw [evalLiteral_text_run, fillPlaceholders]
    refine ⟨?_, fillWords_iff h, fun hapart => ?_⟩
    · obtain ⟨r, hr⟩ := fillWords_ok h s
      rw [hr]
      exact ⟨r, rfl⟩
    · rw [(fillWords_iff h).mpr hapart _ List.prefix_rfl, filling,
        filled_among fun u hu => hholes ▸ hu]
      rfl

/-- A session with one constant in scope. -/
def Session.withConstant (name value : String) : Session MemoryStore where
  context := { Context.new 0 [] with globals := [(name, .constant value)] }
  store := ⟨[]⟩
  calls := []

theorem Session.withConstant_const? (name value u : String) :
    (Session.withConstant name value).context.const? u = only name value u := by
  by_cases h : u = name
  · simp [withConstant, Context.const?, Context.scopes, Context.new, Scope.find?, Binding.text?,
      only, h]
  · simp [withConstant, Context.const?, Context.scopes, Context.new, Scope.find?, only, h,
      Ne.symm h]

/-- A constant without braces is filled in twice, and a word without a constant is named. -/
theorem evalLiteral_text_of_one_constant :
    evalLiteral (.text "\x7ba\x7d-\x7bb\x7d-\x7bc\x7d") (.withConstant "a" "x")
        = (.error (.unresolved "b"), .withConstant "a" "x") ∧
      evalLiteral (.text "\x7ba\x7d-\x7ba\x7d") (.withConstant "a" "x")
        = (.ok "x-x", .withConstant "a" "x") := by
  constructor
  · obtain ⟨-, -, -, hunresolved, -⟩ :=
      evalLiteral_text "\x7ba\x7d-\x7bb\x7d-\x7bc\x7d" (.withConstant "a" "x")
    refine (hunresolved ["a"] "b" ["c"] (by decide +kernel) (fun u hu => ?_) ?_).1
    · rw [Session.withConstant_const?, List.mem_singleton.mp hu]
      exact Option.some_ne_none "x"
    · rw [Session.withConstant_const?]
      decide
  · obtain ⟨-, -, -, -, hresolved⟩ := evalLiteral_text "\x7ba\x7d-\x7ba\x7d" (.withConstant "a" "x")
    have hwords : placeholders "\x7ba\x7d-\x7ba\x7d" = ["a", "a"] := by decide +kernel
    obtain ⟨-, -, hvalue⟩ := hresolved fun u hu => by
      rw [hwords] at hu
      rw [Session.withConstant_const?, List.eq_of_mem_replicate (n := 2) hu]
      exact Option.some_ne_none "x"
    rw [hvalue (apart_of_no_brace (by decide +kernel) fun u v huv => ?_)]
    · rfl
    · rw [Session.withConstant_const?, only] at huv
      split at huv
      · cases huv
        decide
      · cases huv

/-- A constant that holds its own placeholder is filled in again where the placeholder stands
twice. -/
theorem evalLiteral_fills_again :
    evalLiteral (.text "\x7bn\x7d-\x7bn\x7d") (.withConstant "n" "\x7bn\x7d!")
        = (.ok "\x7bn\x7d!!-\x7bn\x7d!!", .withConstant "n" "\x7bn\x7d!") ∧
      String.ofList (spelled (filled (Session.withConstant "n" "\x7bn\x7d!").context.const?
        (parts "\x7bn\x7d-\x7bn\x7d"))) = "\x7bn\x7d!-\x7bn\x7d!" := by
  rw [evalLiteral_text_run]
  exact ⟨by rfl, by rfl⟩

end PatchScript.Run
