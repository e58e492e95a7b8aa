import PatchScript.Proofs.Text.Signs
import PatchScript.Proofs.Xml.Injectivity

/-!
# A sign in a tree

A sign behind a word can be replaced in all names, values, texts and comments of a tree.  What is
written for the tree then is what was written before, with the sign replaced in it
(`swapped_writeTop`): between the texts of a tree there is only markup, and the word and the sign
consist of characters of names.

So it is enough to go through what is written from one character of markup to the next.  Only
texts that stand next to each other would be taken for one, and a tree in normal form has none.
-/

namespace PatchScript.Xml

open Text (swapped swapped_append swapped_before swapped_cons swapped_of_notMem swapped_one
  swapped_separated)

/-! ## Swapping -/

variable {word : List Char} {a b : Char}

/-- A text with the sign `b` in place of the sign `a` wherever this stands behind the word. -/
def swappedText (word : List Char) (a b : Char) (s : String) : String :=
  String.ofList (swapped word a b s.toList)

mutual

/-- The tree with the sign swapped in all that it says. -/
def Tree.swapped (word : List Char) (a b : Char) : Tree → Tree
  | .document children => .document (allSwapped word a b children)
  | .element name attributes children =>
    .element (swappedText word a b name)
      (attributes.map fun n => (swappedText word a b n.1, swappedText word a b n.2))
      (allSwapped word a b children)
  | .text content => .text (swappedText word a b content)
  | .comment content => .comment (swappedText word a b content)

@[inherit_doc Tree.swapped]
def allSwapped (word : List Char) (a b : Char) : List Tree → List Tree
  | [] => []
  | t :: ts => t.swapped word a b :: allSwapped word a b ts

end

variable {t : Tree} {ts : List Tree} {e : Char → List Char}

@[simp] theorem toList_swappedText (s : String) :
    (swappedText word a b s).toList = swapped word a b s.toList := String.toList_ofList

theorem allSwapped_eq : allSwapped word a b ts = ts.map (Tree.swapped word a b) := by
  induction ts with
  | nil => rfl
  | cons t ts ih => rw [allSwapped, ih, List.map_cons]

@[simp] theorem isText_swapped (t : Tree) : (t.swapped word a b).isText = t.isText := by
  cases t <;> rfl

theorem any_isText_swapped : (allSwapped word a b ts).any Tree.isText = ts.any Tree.isText := by
  induction ts with
  | nil => rfl
  | cons t ts ih => rw [allSwapped, List.any_cons, List.any_cons, isText_swapped, ih]

theorem isEmpty_swapped : (allSwapped word a b ts).isEmpty = ts.isEmpty := by
  cases ts <;> rfl

mutual

/-- The names, values, texts and comments of a tree. -/
def Tree.strings : Tree → List String
  | .document children => stringsOf children
  | .element name attributes children =>
    name :: attributes.flatMap (fun n => [n.1, n.2]) ++ stringsOf children
  | .text content | .comment content => [content]

@[inherit_doc Tree.strings]
def stringsOf : List Tree → List String
  | [] => []
  | t :: ts => t.strings ++ stringsOf ts

end

mutual

/-- A tree is kept where the first sign stands behind the word nowhere. -/
theorem Tree.swapped_eq_self : ∀ {t : Tree}, (∀ s ∈ t.strings, swappedText word a b s = s) →
    t.swapped word a b = t
  | .document children, h => by rw [Tree.swapped, allSwapped_eq_self h]
  | .text content, h => by rw [Tree.swapped, h content (List.mem_singleton_self _)]
  | .comment content, h => by rw [Tree.swapped, h content (List.mem_singleton_self _)]
  | .element name attributes children, h => by
    rw [Tree.strings, List.cons_append, List.forall_mem_cons, List.forall_mem_append] at h
    obtain ⟨hname, hattributes, hchildren⟩ := h
    have hkept : attributes.map (fun n => (swappedText word a b n.1, swappedText word a b n.2)) =
        attributes := by
      rw [List.forall_mem_flatMap] at hattributes
      refine (List.map_congr_left fun n hn => ?_).trans (List.map_id attributes)
      have hpair := hattributes n hn
      rw [hpair n.1 (by simp), hpair n.2 (by simp)]
      rfl
    rw [Tree.swapped, hname, hkept, allSwapped_eq_self hchildren]

theorem allSwapped_eq_self : ∀ {ts : List Tree},
    (∀ s ∈ stringsOf ts, swappedText word a b s = s) → allSwapped word a b ts = ts
  | [], _ => rfl
  | t :: ts, h => by
    rw [stringsOf, List.forall_mem_append] at h
    rw [allSwapped, Tree.swapped_eq_self h.1, allSwapped_eq_self h.2]

end

section

variable {a' b' : Char}

/-- What the second swap makes of a text does not depend on whether it has been swapped before. -/
def Absorbs (word : List Char) (a b a' b' : Char) : Prop := ∀ s,
  swappedText word a' b' (swappedText word a b s) = swappedText word a' b' s

mutual

theorem Tree.swapped_swapped (h : Absorbs word a b a' b') : ∀ t : Tree,
    (t.swapped word a b).swapped word a' b' = t.swapped word a' b'
  | .document children => by
    rw [Tree.swapped, Tree.swapped, Tree.swapped, allSwapped_allSwapped h]
  | .text content | .comment content => by
    rw [Tree.swapped, Tree.swapped, Tree.swapped, h]
  | .element name attributes children => by
    rw [Tree.swapped, Tree.swapped, Tree.swapped, h, allSwapped_allSwapped h, List.map_map]
    refine congrArg (Tree.element _ · _) (List.map_congr_left fun n _ => ?_)
    rw [Function.comp_apply, h, h]

theorem allSwapped_allSwapped (h : Absorbs word a b a' b') : ∀ ts : List Tree,
    allSwapped word a' b' (allSwapped word a b ts) = allSwapped word a' b' ts
  | [] => rfl
  | t :: ts => by
    rw [allSwapped, allSwapped, allSwapped, Tree.swapped_swapped h, allSwapped_allSwapped h]

end

end

/-- The word and the signs behind it can stand in names and in texts, but not in markup. -/
structure IsSpelled (word : List Char) (a b : Char) : Prop where
  /-- The word and the signs consist of characters of names. -/
  parts : ∀ c ∈ word ++ [a, b], isTagNamePart c
  /-- There are none of the hyphens in them that comments start and end with. -/
  hyphen : '-' ∉ word ++ [a, b]
  /-- The first sign is in no reference. -/
  reference : a ∉ referenceChars
  /-- Names can start with either sign. -/
  starts : isNameStart a ∧ isNameStart b
  /-- Neither sign is blank. -/
  blank : Text.isBlank a = false ∧ Text.isBlank b = false

namespace IsSpelled

variable (h : IsSpelled word a b)

include h

theorem isTagNamePart_one {c : Char} (hc : c ∈ word ++ [a]) : isTagNamePart c := by
  refine h.parts c ?_
  rw [List.append_cons]
  exact List.mem_append_left [b] hc

theorem notMem {c : Char} (hc : isTagNamePart c = false) : c ∉ word ++ [a] := by
  intro hmem
  rw [h.isTagNamePart_one hmem] at hc
  cases hc

theorem hyphen_notMem : '-' ∉ word ++ [a] := by
  have hhyphen := h.hyphen
  rw [List.append_cons, List.mem_append, not_or] at hhyphen
  exact hhyphen.1

end IsSpelled

/-! ## Texts and values -/

/-- What is written for a character is the character or a reference. -/
def IsEscape (e : Char → List Char) : Prop :=
  ∀ c, e c = [c] ∨ isTagNamePart c = false ∧
    ∃ cs, e c = '&' :: (cs ++ [';']) ∧ ∀ x ∈ cs, x ∈ referenceChars

theorem isEscape_text : IsEscape escapeTextChar := by
  intro c
  rw [escapeTextChar]
  split
  · rename_i h
    exact .inr ⟨by rw [h]; decide, ['a', 'm', 'p'], rfl, by simp [referenceChars]⟩
  · split
    · rename_i h
      exact .inr ⟨by rw [h]; decide, ['l', 't'], rfl, by simp [referenceChars]⟩
    · split
      · rename_i h
        exact .inr ⟨by rw [h]; decide, ['g', 't'], rfl, by simp [referenceChars]⟩
      · exact .inl rfl

theorem isEscape_value : IsEscape escapeValueChar := by
  intro c
  rw [escapeValueChar]
  split
  · rename_i h
    exact .inr ⟨by rw [h]; decide, ['q', 'u', 'o', 't'], rfl, by simp [referenceChars]⟩
  · split
    · rename_i h
      exact .inr ⟨by rw [h]; decide, ['#', 'x', 'A'], rfl, by simp [referenceChars]⟩
    · split
      · rename_i h
        exact .inr ⟨by rw [h]; decide, ['#', 'x', 'D'], rfl, by simp [referenceChars]⟩
      · split
        · rename_i h
          exact .inr ⟨by rw [h]; decide, ['#', 'x', '9'], rfl, by simp [referenceChars]⟩
        · exact isEscape_text c

namespace IsEscape

variable (he : IsEscape e)

include he

theorem eq_singleton {c : Char} (hc : isTagNamePart c) : e c = [c] := by
  rcases he c with h | ⟨h, -⟩
  · exact h
  · rw [hc] at h
    cases h

/-- Characters of names are written as they are. -/
theorem flatMap_append {u : List Char} (hu : ∀ c ∈ u, isTagNamePart c) (cs : List Char) :
    (u ++ cs).flatMap e = u ++ cs.flatMap e := by
  induction u with
  | nil => rfl
  | cons c u ih =>
    rw [List.forall_mem_cons] at hu
    rw [List.cons_append, List.flatMap_cons, he.eq_singleton hu.1, ih hu.2]
    rfl

/-- What what is written starts with, the text starts with. -/
theorem prefix_of_prefix {u : List Char} (hu : ∀ c ∈ u, isTagNamePart c) : ∀ {cs : List Char},
    u <+: cs.flatMap e → u <+: cs := by
  induction u with
  | nil => exact fun _ => List.nil_prefix
  | cons c u ih =>
    intro cs h
    rw [List.forall_mem_cons] at hu
    cases cs with
    | nil => exact absurd (List.prefix_nil.mp h) (List.cons_ne_nil c u)
    | cons c' cs =>
      rw [List.flatMap_cons] at h
      rcases he c' with hsame | ⟨-, u', hreference, -⟩
      · rw [hsame, List.singleton_append, List.cons_prefix_cons] at h
        exact List.cons_prefix_cons.mpr ⟨h.1, ih hu.2 h.2⟩
      · rw [hreference, List.cons_append, List.cons_prefix_cons] at h
        have hpart := hu.1
        rw [h.1] at hpart
        exact absurd hpart (by decide)

/-- The sign is swapped in a text before or after it is written. -/
theorem flatMap_swapped (h : IsSpelled word a b) (cs : List Char) :
    swapped word a b (cs.flatMap e) = (swapped word a b cs).flatMap e := by
  have hword : ∀ c ∈ word, isTagNamePart c := fun c hc => h.parts c (List.mem_append_left _ hc)
  have hb : isTagNamePart b := h.parts b (by simp)
  have hone : ∀ c ∈ word ++ [a], isTagNamePart c := fun c => h.isTagNamePart_one
  induction cs using Text.replacing_induction (Text.append_sign_ne_nil word a) with
  | nil => rfl
  | found cs ih =>
    rw [he.flatMap_append hone, ← List.append_cons, ← List.append_cons, swapped_one, swapped_one,
      he.flatMap_append hword, List.flatMap_cons, he.eq_singleton hb, ih]
    rfl
  | kept c cs hprefix ih =>
    rw [swapped_cons hprefix, List.flatMap_cons, List.flatMap_cons, ← ih]
    rcases he c with hsame | ⟨-, u, hreference, hu⟩
    · rw [hsame, List.singleton_append, List.singleton_append, swapped_cons]
      intro hwritten
      refine hprefix (he.prefix_of_prefix hone ?_)
      rwa [List.flatMap_cons, hsame]
    · have hsign : a ∉ '&' :: u := by
        rintro (_ | ⟨_, ha⟩)
        · exact h.reference (by decide)
        · exact h.reference (hu a ha)
      have hsplit : e c ++ cs.flatMap e = ('&' :: u) ++ ';' :: cs.flatMap e := by
        simp [hreference]
      rw [hsplit, swapped_separated (h.notMem (by decide)), swapped_of_notMem hsign, hreference]
      simp

end IsEscape

/-! ## Markup -/

namespace IsSpelled

variable (h : IsSpelled word a b)

include h

theorem swapped_name {name : String} {c : Char} (hc : isTagNamePart c = false) (r : List Char) :
    swapped word a b (name.toList ++ c :: r) =
      (swappedText word a b name).toList ++ swapped word a b (c :: r) := by
  rw [swapped_before (h.notMem hc), toList_swappedText]

/-- A character of markup is kept. -/
theorem swapped_mark {c : Char} (hc : isTagNamePart c = false) (r : List Char) :
    swapped word a b (c :: r) = c :: swapped word a b r :=
  swapped_separated (h.notMem hc) b [] r

theorem swapped_markup {u : List Char} (hu : u.all fun c => c == '-' || !isTagNamePart c)
    (r : List Char) : swapped word a b (u ++ r) = u ++ swapped word a b r := by
  refine swapped_append (fun c hc => ?_) b r
  have hmark : c = '-' ∨ isTagNamePart c = false := by simpa using List.all_eq_true.mp hu c hc
  rcases hmark with rfl | hmark
  · exact h.hyphen_notMem
  · exact h.notMem hmark

theorem swapped_margin (depth : Nat) (inline : Bool) (r : List Char) :
    swapped word a b (margin depth inline ++ r) = margin depth inline ++ swapped word a b r := by
  refine h.swapped_markup (List.all_eq_true.mpr fun c hc => ?_) r
  rw [eq_of_mem_margin hc]
  decide

theorem swapped_writeAttribute (n : String × String) (r : List Char) :
    swapped word a b (writeAttribute n ++ r) =
      writeAttribute (swappedText word a b n.1, swappedText word a b n.2) ++
        swapped word a b r := by
  have hwrite (n : String × String) (r : List Char) : writeAttribute n ++ r =
      [' '] ++ (n.1.toList ++ '=' :: (['"'] ++ (escapeValue n.2 ++ '"' :: r))) := by
    simp [writeAttribute]
  have hquote (r : List Char) : swapped word a b ('=' :: (['"'] ++ r)) =
      '=' :: (['"'] ++ swapped word a b r) := h.swapped_markup (u := ['=', '"']) (by decide) r
  rw [hwrite, hwrite, h.swapped_markup (by decide), h.swapped_name (by decide), hquote,
    swapped_separated (h.notMem (by decide)), escapeValue, isEscape_value.flatMap_swapped h,
    escapeValue, toList_swappedText, toList_swappedText]

theorem swapped_attributes (r : List Char) : ∀ as : Attributes,
    swapped word a b (as.flatMap writeAttribute ++ r) =
      (as.map fun n => (swappedText word a b n.1, swappedText word a b n.2)).flatMap
        writeAttribute ++ swapped word a b r
  | [] => rfl
  | n :: as => by
    rw [List.flatMap_cons, List.append_assoc, h.swapped_writeAttribute, swapped_attributes r as,
      List.map_cons, List.flatMap_cons, List.append_assoc]

theorem swapped_tagEnd (closed : Bool) (r : List Char) :
    swapped word a b (tagEnd closed ++ r) = tagEnd closed ++ swapped word a b r := by
  refine h.swapped_markup ?_ r
  cases closed <;> decide

/-- Behind a name is markup. -/
theorem swapped_tag (name : String) (as : Attributes) (closed : Bool) (r : List Char) :
    swapped word a b (name.toList ++ (as.flatMap writeAttribute ++ (tagEnd closed ++ r))) =
      (swappedText word a b name).toList ++
        ((as.map fun n => (swappedText word a b n.1, swappedText word a b n.2)).flatMap
          writeAttribute ++ (tagEnd closed ++ swapped word a b r)) := by
  obtain ⟨c, cs, hbehind, hc⟩ := exists_cons_behind_name as closed r
  rw [hbehind, h.swapped_name hc, ← hbehind, h.swapped_attributes, h.swapped_tagEnd]

/-! ## Trees -/

/-- What is written for a text goes up to the markup behind it. -/
theorem swapped_text (content : String) {s : Char} (hs : isTagNamePart s = false)
    (r : List Char) : swapped word a b (escapeText content ++ s :: r) =
      escapeText (swappedText word a b content) ++ swapped word a b (s :: r) := by
  rw [swapped_before (h.notMem hs), escapeText, isEscape_text.flatMap_swapped h, escapeText,
    toList_swappedText]

theorem swapped_comment (content : String) (r : List Char) :
    swapped word a b ('<' :: '!' :: '-' :: '-' :: (content.toList ++ '-' :: '-' :: '>' :: r)) =
      '<' :: '!' :: '-' :: '-' :: ((swappedText word a b content).toList ++
        '-' :: '-' :: '>' :: swapped word a b r) := by
  have hstart (r : List Char) : swapped word a b ('<' :: '!' :: '-' :: '-' :: r) =
      '<' :: '!' :: '-' :: '-' :: swapped word a b r :=
    h.swapped_markup (u := ['<', '!', '-', '-']) (by decide) r
  have hend : swapped word a b ('-' :: '>' :: r) = '-' :: '>' :: swapped word a b r :=
    h.swapped_markup (u := ['-', '>']) (by decide) r
  rw [hstart, swapped_separated h.hyphen_notMem, hend, toList_swappedText]

theorem swapped_closeTag (name : String) (r : List Char) :
    swapped word a b ('<' :: '/' :: (name.toList ++ '>' :: r)) =
      '<' :: '/' :: ((swappedText word a b name).toList ++ '>' :: swapped word a b r) := by
  rw [h.swapped_mark (by decide), h.swapped_mark (by decide),
    swapped_separated (h.notMem (by decide)), toList_swappedText]

end IsSpelled

mutual

/-- The sign is swapped in what is written for a tree if it is swapped in the tree. -/
theorem swapped_write (h : IsSpelled word a b) (depth : Nat) (inline : Bool) :
    ∀ {t : Tree} (r : List Char), t.Normal → t.isText = false →
    swapped word a b (t.write depth inline ++ r) =
      (t.swapped word a b).write depth inline ++ swapped word a b r
  | .document _, _, ht, _ => ht.elim
  | .text _, _, _, ht => nomatch ht
  | .comment content, r, _, _ => by
    rw [Tree.swapped, write_comment, write_comment, h.swapped_margin, h.swapped_comment]
  | .element name as ts, r, ht, _ => by
    obtain ⟨-, -, hapart, hts⟩ := ht
    rw [Tree.swapped, write_element, write_element, h.swapped_margin, h.swapped_mark (by decide),
      h.swapped_tag, isEmpty_swapped]
    cases hempty : ts.isEmpty with
    | true => rfl
    | false =>
      simp only [Bool.false_eq_true, if_false]
      rw [writeContent, writeContent, any_isText_swapped]
      split
      · rw [swapped_writeInline h ('/' :: (name.toList ++ '>' :: r)) hts hapart,
          h.swapped_closeTag]
      · rename_i hlines
        have htexts : ts.any Tree.isText = false := by simp_all
        rw [List.append_assoc, swapped_writeLines h (depth + 1) _ hts htexts, List.cons_append,
          h.swapped_mark (by decide), h.swapped_margin, h.swapped_closeTag, List.append_assoc]
        rfl

theorem swapped_writeInline (h : IsSpelled word a b) (r : List Char) : ∀ {ts : List Tree},
    AllNormal ts → Apart ts → swapped word a b (writeInline 0 true ts ++ '<' :: r) =
      writeInline 0 true (allSwapped word a b ts) ++ swapped word a b ('<' :: r)
  | [], _, _ => rfl
  | t :: ts, hts, hapart => by
    rw [Apart, List.isChain_cons] at hapart
    have ih := swapped_writeInline h r hts.2 hapart.2
    rw [allSwapped, writeInline, writeInline, List.append_assoc, List.append_assoc]
    cases ht : t.isText with
    | false => rw [swapped_write h 0 true _ hts.1 ht, ih]
    | true =>
      obtain ⟨content, rfl⟩ := exists_of_isText ht
      obtain ⟨cs, hcs⟩ := exists_markup_of_head hts.2 (by simpa [ht] using hapart.1) r
      rw [← ih, hcs]
      exact h.swapped_text content (by decide) cs

theorem swapped_writeLines (h : IsSpelled word a b) (depth : Nat) (r : List Char) :
    ∀ {ts : List Tree}, AllNormal ts → ts.any Tree.isText = false →
    swapped word a b (writeLines depth ts ++ r) =
      writeLines depth (allSwapped word a b ts) ++ swapped word a b r
  | [], _, _ => rfl
  | t :: ts, hts, htexts => by
    rw [List.any_cons, Bool.or_eq_false_iff] at htexts
    rw [allSwapped, writeLines, writeLines]
    simp only [List.cons_append, List.append_assoc]
    rw [h.swapped_mark (by decide), swapped_write h depth false _ hts.1 htexts.1,
      swapped_writeLines h depth r hts.2 htexts.2]

end

/-- At the top, a text goes up to the end of its line. -/
theorem swapped_write_line (h : IsSpelled word a b) (ht : t.Normal) (ts : List Tree) :
    swapped word a b (t.write 0 false ++ writeLines 0 ts) =
      (t.swapped word a b).write 0 false ++ swapped word a b (writeLines 0 ts) := by
  cases htext : t.isText with
  | false => exact swapped_write h 0 false _ ht htext
  | true =>
    obtain ⟨content, rfl⟩ := exists_of_isText htext
    cases ts with
    | nil =>
      rw [writeLines, List.append_nil, Text.swapped_nil, List.append_nil, Tree.write, escapeText,
        isEscape_text.flatMap_swapped h, Tree.swapped, Tree.write, escapeText, toList_swappedText]
    | cons t ts => exact h.swapped_text content (by decide) _

theorem swapped_lines (h : IsSpelled word a b) (hts : AllNormal ts) :
    swapped word a b (writeLines 0 ts) = writeLines 0 (allSwapped word a b ts) := by
  induction ts with
  | nil => rfl
  | cons t ts ih =>
    rw [allSwapped, writeLines, writeLines, List.cons_append, h.swapped_mark (by decide),
      swapped_write_line h hts.1, ih hts.2, List.cons_append]

/-- The sign is swapped in what is written for trees if it is swapped in the trees. -/
theorem swapped_writeTop (h : IsSpelled word a b) (hts : AllNormal ts) :
    swappedText word a b (writeTop ts) = writeTop (allSwapped word a b ts) := by
  rw [← String.toList_inj, toList_swappedText]
  cases ts with
  | nil => rfl
  | cons t ts =>
    rw [allSwapped, toList_writeTop, toList_writeTop, swapped_write_line h hts.1,
      swapped_lines h hts.2]

/-! ## Trees in normal form -/

/-- What the two signs share, a text keeps, character by character. -/
theorem forall₂_of_signs (word : List Char) {p : Char → Bool} (hsigns : p a = p b)
    (cs : List Char) : List.Forall₂ (fun c c' => p c' = p c) cs (swapped word a b cs) := by
  refine (Text.forall₂_swapped word a b cs).imp fun c c' hc => ?_
  rcases hc with rfl | ⟨rfl, rfl⟩
  · rfl
  · exact hsigns.symm

theorem all_swapped (word : List Char) {p : Char → Bool} (hsigns : p a = p b) (cs : List Char) :
    (swapped word a b cs).all p = cs.all p := by
  have hpairs := forall₂_of_signs word hsigns cs
  generalize swapped word a b cs = cs' at hpairs
  induction hpairs with
  | nil => rfl
  | cons hp _ ih => rw [List.all_cons, List.all_cons, hp, ih]

theorem containsList_hyphens : ∀ {cs cs' : List Char},
    List.Forall₂ (fun c c' => ('-' == c') = ('-' == c)) cs cs' →
    Text.containsList ['-', '-'] cs' = Text.containsList ['-', '-'] cs
  | _, _, .nil => rfl
  | _, _, .cons hc .nil => by simp [Text.containsList, List.isPrefixOf]
  | _, _, .cons hc (.cons hd hrest) => by
    refine congrArg₂ (· || ·) ?_ (containsList_hyphens (.cons hd hrest))
    simp only [List.isPrefixOf, hc, hd]

namespace IsSpelled

variable (h : IsSpelled word a b)

include h

theorem isValidName_swapped {name : String} (hname : isValidName name) :
    isValidName (swappedText word a b name) := by
  have hstarts : isNameStart a = isNameStart b := h.starts.1.trans h.starts.2.symm
  have hparts : isNamePart a = isNamePart b :=
    (isNamePart_of_isNameStart h.starts.1).trans (isNamePart_of_isNameStart h.starts.2).symm
  obtain ⟨c, cs, hcs, hstart, hall⟩ := exists_cons_of_isValidName hname
  have hpairs := forall₂_of_signs word hstarts (c :: cs)
  have hnew := all_swapped word hparts (c :: cs)
  rw [hcs] at hall
  rw [isValidName, toList_swappedText, hcs]
  generalize swapped word a b (c :: cs) = cs' at hpairs hnew ⊢
  cases hpairs with
  | cons hc _ =>
    rw [List.all_eq_true.mpr hall, List.all_cons, Bool.and_eq_true] at hnew
    exact Bool.and_eq_true_iff.mpr ⟨hc.trans hstart, hnew.2⟩

theorem isBlankText_swapped (content : String) :
    isBlankText (swappedText word a b content) = isBlankText content := by
  rw [isBlankText, toList_swappedText, all_swapped word (h.blank.1.trans h.blank.2.symm),
    isBlankText]

theorem containsList_hyphens_swapped (cs : List Char) :
    Text.containsList ['-', '-'] (swapped word a b cs) = Text.containsList ['-', '-'] cs := by
  have hhyphen := h.hyphen
  simp only [List.mem_append, List.mem_cons, List.not_mem_nil, or_false, not_or] at hhyphen
  obtain ⟨-, ha, hb⟩ := hhyphen
  exact containsList_hyphens (forall₂_of_signs word (by simp [ha, hb]) cs)

end IsSpelled

mutual

theorem Tree.normal_swapped (h : IsSpelled word a b) :
    ∀ {t : Tree}, t.Normal → (t.swapped word a b).Normal
  | .document _, ht => ht.elim
  | .text content, ht => (h.isBlankText_swapped content).trans ht
  | .comment content, ht => by
    rw [Tree.swapped, Tree.Normal, toList_swappedText, h.containsList_hyphens_swapped]
    exact ht
  | .element _ _ _, ht => by
    obtain ⟨hname, has, hapart, hts⟩ := ht
    refine ⟨h.isValidName_swapped hname, ?_, ?_, allNormal_swapped h hts⟩
    · exact List.forall_mem_map.mpr fun n hn => h.isValidName_swapped (has n hn)
    · rw [Apart, allSwapped_eq, List.isChain_map]
      simp only [isText_swapped]
      exact hapart

/-- Trees in normal form are in normal form after a swap. -/
theorem allNormal_swapped (h : IsSpelled word a b) :
    ∀ {ts : List Tree}, AllNormal ts → AllNormal (allSwapped word a b ts)
  | [], _ => trivial
  | _ :: _, hts => ⟨Tree.normal_swapped h hts.1, allNormal_swapped h hts.2⟩

end

end PatchScript.Xml
