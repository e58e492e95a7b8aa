import PatchScript.Proofs.Xml.Building

/-!
# Texts that stand next to each other

A tree that is read can have texts that stand next to each other: there was a processing
instruction between them, which is left out of the tree.  They are written as one text.  So what
is written for a tree is what is written for the tree with these texts joined
(`Tree.write_joined`), and that one is in normal form (`Tree.normal_joined`).
-/

namespace PatchScript.Xml

/-! ## Joining -/

/-- The text of characters, if there are any. -/
def textTrees (cs : List Char) : List Tree := if cs.isEmpty then [] else [.text (String.ofList cs)]

mutual

/-- The tree with the texts that stand next to each other made one. -/
def Tree.joined : Tree → Tree
  | .element name attributes children => .element name attributes (joinAll [] children)
  | .document children => .document children
  | .text content => .text content
  | .comment content => .comment content

/-- The trees with the texts that stand next to each other made one, behind the characters of
texts that stand before them. -/
def joinAll (pending : List Char) : List Tree → List Tree
  | [] => textTrees pending
  | .text content :: ts => joinAll (pending ++ content.toList) ts
  | t :: ts => textTrees pending ++ t.joined :: joinAll [] ts

end

variable {t : Tree} {ts : List Tree} {pending : List Char}

theorem joinAll_cons (ht : t.isText = false) (pending : List Char) (ts : List Tree) :
    joinAll pending (t :: ts) = textTrees pending ++ t.joined :: joinAll [] ts := by
  cases t with
  | text => cases ht
  | document | comment | element => rfl

@[simp] theorem isText_joined (t : Tree) : t.joined.isText = t.isText := by
  cases t <;> rfl

/-- A text that is not blank has characters. -/
theorem toList_ne_nil {content : String} (h : isBlankText content = false) :
    content.toList ≠ [] := by
  intro hnil
  rw [isBlankText, hnil] at h
  cases h

/-! ## Writing -/

theorem isEmpty_joinAll : ∀ {ts : List Tree} {pending : List Char}, AllClean ts →
    (joinAll pending ts).isEmpty = (pending.isEmpty && ts.isEmpty)
  | [], pending, _ => by cases pending <;> rfl
  | t :: ts, pending, h => by
    rw [List.isEmpty_cons, Bool.and_false]
    cases ht : t.isText with
    | false =>
      rw [joinAll_cons ht]
      cases textTrees pending <;> rfl
    | true =>
      obtain ⟨content, rfl⟩ := exists_of_isText ht
      have hcontent := toList_ne_nil h.1
      rw [joinAll, isEmpty_joinAll h.2]
      simp [hcontent]

theorem any_isText_joinAll : ∀ {ts : List Tree} {pending : List Char}, AllClean ts →
    (joinAll pending ts).any Tree.isText = (!pending.isEmpty || ts.any Tree.isText)
  | [], pending, _ => by cases pending <;> rfl
  | t :: ts, pending, h => by
    cases ht : t.isText with
    | false =>
      rw [joinAll_cons ht, List.any_append, List.any_cons, List.any_cons, isText_joined, ht,
        any_isText_joinAll h.2]
      cases pending <;> rfl
    | true =>
      obtain ⟨content, rfl⟩ := exists_of_isText ht
      have hcontent := toList_ne_nil h.1
      rw [joinAll, any_isText_joinAll h.2]
      simp [hcontent, Tree.isText]

/-- Where there are no texts, none are joined. -/
theorem joinAll_lines : ∀ {ts : List Tree}, ts.any Tree.isText = false →
    joinAll [] ts = ts.map Tree.joined
  | [], _ => rfl
  | t :: ts, h => by
    rw [List.any_cons, Bool.or_eq_false_iff] at h
    rw [joinAll_cons h.1, joinAll_lines h.2]
    rfl

theorem writeInline_textTrees (depth : Nat) (inline : Bool) (cs : List Char) (ts : List Tree) :
    writeInline depth inline (textTrees cs ++ ts) =
      cs.flatMap escapeTextChar ++ writeInline depth inline ts := by
  cases cs with
  | nil => rfl
  | cons c cs =>
    show writeInline depth inline (.text (String.ofList (c :: cs)) :: ts) = _
    rw [writeInline, Tree.write, escapeText, String.toList_ofList]

mutual

/-- Joining texts does not change what is written. -/
theorem Tree.write_joined (depth : Nat) (inline : Bool) : ∀ {t : Tree}, t.Clean →
    t.joined.write depth inline = t.write depth inline
  | .document _, h => h.elim
  | .text _, _ => rfl
  | .comment _, _ => rfl
  | .element name attributes children, h => by
    have hempty : (joinAll [] children).isEmpty = children.isEmpty := isEmpty_joinAll h.2
    have hcontent : writeContent depth inline (joinAll [] children) =
        writeContent depth inline children := by
      rw [writeContent, writeContent, any_isText_joinAll h.2, writeInline_joinAll 0 true [] h.2]
      cases htexts : children.any Tree.isText with
      | true => simp
      | false => rw [joinAll_lines htexts, writeLines_joined (depth + 1) h.2]; rfl
    rw [Tree.joined, ← List.append_nil (Tree.write _ _ _), write_element, hempty, hcontent,
      ← write_element, List.append_nil]

theorem writeInline_joinAll (depth : Nat) (inline : Bool) (pending : List Char) :
    ∀ {ts : List Tree}, AllClean ts → writeInline depth inline (joinAll pending ts) =
      pending.flatMap escapeTextChar ++ writeInline depth inline ts
  | [], _ => by
    rw [joinAll, ← List.append_nil (textTrees pending), writeInline_textTrees]
  | t :: ts, h => by
    cases ht : t.isText with
    | false =>
      rw [joinAll_cons ht, writeInline_textTrees, writeInline, Tree.write_joined depth inline h.1,
        writeInline_joinAll depth inline [] h.2]
      rfl
    | true =>
      obtain ⟨content, rfl⟩ := exists_of_isText ht
      rw [joinAll, writeInline_joinAll depth inline (pending ++ content.toList) h.2,
        List.flatMap_append, List.append_assoc]
      rfl

theorem writeLines_joined (depth : Nat) : ∀ {ts : List Tree}, AllClean ts →
    writeLines depth (ts.map Tree.joined) = writeLines depth ts
  | [], _ => rfl
  | t :: ts, h => by
    rw [List.map_cons, writeLines, writeLines, Tree.write_joined depth false h.1,
      writeLines_joined depth h.2]

end

/-! ## Normal form -/

/-- Characters that come from texts: there are none, or they are not all blank. -/
def IsRun (cs : List Char) : Prop := cs = [] ∨ isBlankText (String.ofList cs) = false

theorem IsRun.append {content : String} (pending : List Char)
    (h : isBlankText content = false) : IsRun (pending ++ content.toList) := by
  refine .inr ?_
  rw [isBlankText] at h ⊢
  rw [String.toList_ofList, List.all_append, h, Bool.and_false]

/-- At most one text stands before a tree that is none. -/
theorem Apart.append_cons {run : List Tree} (hrun : run = [] ∨ ∃ content, run = [.text content])
    (ht : t.isText = false) (hts : Apart ts) : Apart (run ++ t :: ts) := by
  have hcons : Apart (t :: ts) := List.isChain_cons.mpr ⟨fun _ _ => .inl ht, hts⟩
  rcases hrun with rfl | ⟨content, rfl⟩
  · exact hcons
  · exact List.isChain_cons_cons.mpr ⟨.inr ht, hcons⟩

theorem textTrees_cases (cs : List Char) :
    textTrees cs = [] ∨ ∃ content, textTrees cs = [.text content] := by
  cases cs with
  | nil => exact .inl rfl
  | cons c cs => exact .inr ⟨_, rfl⟩

theorem apart_joinAll : ∀ (ts : List Tree) (pending : List Char), Apart (joinAll pending ts)
  | [], pending => by
    rw [joinAll]
    rcases textTrees_cases pending with h | ⟨content, h⟩ <;> rw [h]
    · exact .nil
    · exact .singleton _
  | t :: ts, pending => by
    cases ht : t.isText with
    | false =>
      rw [joinAll_cons ht]
      exact .append_cons (textTrees_cases pending) (by rwa [isText_joined]) (apart_joinAll ts [])
    | true =>
      obtain ⟨content, rfl⟩ := exists_of_isText ht
      exact apart_joinAll ts _

theorem allNormal_textTrees (h : IsRun pending) : AllNormal (textTrees pending) := by
  cases pending with
  | nil => trivial
  | cons c cs => exact ⟨h.resolve_left (List.cons_ne_nil c cs), trivial⟩

theorem allNormal_append {ts' : List Tree} :
    AllNormal (ts ++ ts') ↔ AllNormal ts ∧ AllNormal ts' := by
  simp only [allNormal_iff, List.forall_mem_append]

mutual

/-- A clean tree with its texts joined is in normal form. -/
theorem Tree.normal_joined : ∀ {t : Tree}, t.Clean → t.Sound → t.HasValidNames → t.joined.Normal
  | .document _, h, _, _ => h.elim
  | .text _, h, _, _ => h
  | .comment _, _, h, _ => containsList_of_isCommentText h
  | .element _ _ _, hclean, hsound, hnames =>
    ⟨hnames.1, hnames.2.1, apart_joinAll _ [],
      allNormal_joinAll (.inl rfl) hclean.2 hsound hnames.2.2⟩

theorem allNormal_joinAll : ∀ {ts : List Tree} {pending : List Char}, IsRun pending →
    AllClean ts → AllSound ts → HaveValidNames ts → AllNormal (joinAll pending ts)
  | [], _, hrun, _, _, _ => allNormal_textTrees hrun
  | t :: ts, pending, hrun, hclean, hsound, hnames => by
    cases ht : t.isText with
    | false =>
      rw [joinAll_cons ht, allNormal_append]
      exact ⟨allNormal_textTrees hrun, Tree.normal_joined hclean.1 hsound.1 hnames.1,
        allNormal_joinAll (.inl rfl) hclean.2 hsound.2 hnames.2⟩
    | true =>
      obtain ⟨content, rfl⟩ := exists_of_isText ht
      rw [joinAll]
      exact allNormal_joinAll (.append pending hclean.1) hclean.2 hsound.2 hnames.2

end

theorem joinAll_of_head (hhead : ∀ t ∈ ts.head?, t.isText = false) (pending : List Char) :
    joinAll pending ts = textTrees pending ++ joinAll [] ts := by
  cases ts with
  | nil => exact (List.append_nil _).symm
  | cons t ts =>
    rw [joinAll_cons (hhead t rfl), joinAll_cons (hhead t rfl)]
    rfl

mutual

/-- In a tree in normal form there is nothing to be joined. -/
theorem Tree.joined_eq : ∀ {t : Tree}, t.Normal → t.joined = t
  | .document _, h => h.elim
  | .text _, _ => rfl
  | .comment _, _ => rfl
  | .element _ _ _, ⟨_, _, hapart, hts⟩ => by rw [Tree.joined, joinAll_eq hts hapart]

theorem joinAll_eq : ∀ {ts : List Tree}, AllNormal ts → Apart ts → joinAll [] ts = ts
  | [], _, _ => rfl
  | t :: ts, hts, hapart => by
    rw [Apart, List.isChain_cons] at hapart
    have hrest := joinAll_eq hts.2 hapart.2
    cases ht : t.isText with
    | false =>
      rw [joinAll_cons ht, hrest, Tree.joined_eq hts.1]
      rfl
    | true =>
      obtain ⟨content, rfl⟩ := exists_of_isText ht
      have hcontent : ¬content.toList.isEmpty := by simpa using toList_ne_nil hts.1
      rw [joinAll, List.nil_append, joinAll_of_head (by simpa [ht] using hapart.1), hrest,
        textTrees, if_neg hcontent, String.ofList_toList]
      rfl

end

/-! ## Names and characters -/

theorem allWellNamed_textTrees (outer : Scope) (cs : List Char) (ts : List Tree) :
    allWellNamed outer (textTrees cs ++ ts) = allWellNamed outer ts := by
  cases cs with
  | nil => rfl
  | cons c cs => exact Bool.true_and _

mutual

theorem Tree.wellNamed_joined (outer : Scope) : ∀ t : Tree,
    t.joined.wellNamed outer = t.wellNamed outer
  | .document _ | .text _ | .comment _ => rfl
  | .element name attributes children => by
    rw [Tree.joined, Tree.wellNamed, Tree.wellNamed, allWellNamed_joinAll]

/-- Joining texts does not change what the elements are called. -/
theorem allWellNamed_joinAll (outer : Scope) (pending : List Char) : ∀ ts : List Tree,
    allWellNamed outer (joinAll pending ts) = allWellNamed outer ts
  | [] => by
    rw [joinAll, ← List.append_nil (textTrees pending), allWellNamed_textTrees]
  | t :: ts => by
    cases ht : t.isText with
    | false =>
      rw [joinAll_cons ht, allWellNamed_textTrees, allWellNamed, allWellNamed,
        Tree.wellNamed_joined, allWellNamed_joinAll]
    | true =>
      obtain ⟨content, rfl⟩ := exists_of_isText ht
      rw [joinAll, allWellNamed_joinAll, allWellNamed]
      exact (Bool.true_and _).symm

end

theorem allSound_textTrees (h : pending.all isXmlChar) : AllSound (textTrees pending) := by
  cases pending with
  | nil => trivial
  | cons c cs =>
    refine ⟨?_, trivial⟩
    rw [Tree.Sound, String.toList_ofList]
    exact h

mutual

theorem Tree.sound_joined : ∀ {t : Tree}, t.Sound → t.joined.Sound
  | .document _, h | .text _, h | .comment _, h => h
  | .element _ _ _, h => by
    rw [Tree.joined, Tree.Sound]
    exact allSound_joinAll rfl h

/-- Sound trees with their texts joined are sound. -/
theorem allSound_joinAll : ∀ {ts : List Tree} {pending : List Char}, pending.all isXmlChar →
    AllSound ts → AllSound (joinAll pending ts)
  | [], _, hpending, _ => allSound_textTrees hpending
  | t :: ts, pending, hpending, h => by
    cases ht : t.isText with
    | false =>
      rw [joinAll_cons ht, allSound_iff, List.forall_mem_append, List.forall_mem_cons,
        ← allSound_iff, ← allSound_iff]
      exact ⟨allSound_textTrees hpending, Tree.sound_joined h.1, allSound_joinAll rfl h.2⟩
    | true =>
      obtain ⟨content, rfl⟩ := exists_of_isText ht
      rw [joinAll]
      refine allSound_joinAll ?_ h.2
      rw [List.all_append, hpending, Bool.true_and]
      exact h.1

end

end PatchScript.Xml
