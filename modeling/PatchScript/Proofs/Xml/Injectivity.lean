import Mathlib.Data.List.Chain
import PatchScript.Proofs.Xml.Refusing

/-!
# Written trees are told apart

Two trees that are written alike are the same tree, if they are in the form that reading gives
them (`Tree.Normal`): no text is blank, no two texts stand next to each other, and no comment
has two hyphens in it.  What is written for a tree tells where it ends, so the lemmas are about
trees with something behind them.

What has to be told apart are the blanks that are written between trees and the blanks of
texts.  An element is written on one line if there is a text in it.  Otherwise what follows its
tag are a line end and spaces up to the next tag, and a text is never only that.
-/

namespace PatchScript.Xml

variable {r r' : List Char}

/-! ## Runs of characters -/

/-- Two runs that stop at the same kind of character are equal if they are read alike. -/
theorem run_inj {p : Char → Bool} {u u' : List Char} (hu : ∀ c ∈ u, p c) (hu' : ∀ c ∈ u', p c)
    (hr : ∀ c ∈ r.head?, p c = false) (hr' : ∀ c ∈ r'.head?, p c = false)
    (h : u ++ r = u' ++ r') : u = u' ∧ r = r' := by
  have hrun {u r : List Char} (hu : ∀ c ∈ u, p c) (hr : ∀ c ∈ r.head?, p c = false) :
      (u ++ r).takeWhile p = u := by
    rw [List.takeWhile_append_of_pos hu]
    cases r with
    | nil => simp
    | cons c r => simp [hr c rfl]
  obtain rfl : u = u' := by rw [← hrun hu hr, h, hrun hu' hr']
  exact ⟨rfl, List.append_cancel_left h⟩

theorem escapeText_inj {s s' : String} (h : escapeText s = escapeText s') : s = s' := by
  have hglyphs : glyphs (escapeText s) = glyphs (escapeText s') := by rw [h]
  rw [escapeText, escapeText, glyphsFrom_escape glyphsFrom_escapeTextChar,
    glyphsFrom_escape glyphsFrom_escapeTextChar] at hglyphs
  have hmap := Except.ok.inj hglyphs
  rw [List.map_inj_right fun c c' hc => congrArg Glyph.char hc] at hmap
  exact String.toList_inj.mp hmap

theorem escapeValue_inj {s s' : String} (h : escapeValue s = escapeValue s') : s = s' := by
  have hvalue := valueOf_escapeValue s
  rw [h, valueOf_escapeValue] at hvalue
  exact (Except.ok.inj hvalue).symm

/-- A comment ends where its hyphens do. -/
theorem comment_inj : ∀ {cs cs' : List Char}, Text.containsList ['-', '-'] cs = false →
    Text.containsList ['-', '-'] cs' = false →
    cs ++ '-' :: '-' :: '>' :: r = cs' ++ '-' :: '-' :: '>' :: r' → cs = cs' ∧ r = r'
  | [], [], _, _, h => by simpa using h
  | [], [c], _, _, h => by simp at h
  | [], c :: b :: cs, _, hcs, h => by
    simp only [List.nil_append, List.cons_append, List.cons.injEq] at h
    obtain ⟨rfl, rfl, -⟩ := h
    simp [Text.containsList] at hcs
  | [c], [], _, _, h => by simp at h
  | c :: b :: cs, [], hcs, _, h => by
    simp only [List.nil_append, List.cons_append, List.cons.injEq] at h
    obtain ⟨rfl, rfl, -⟩ := h
    simp [Text.containsList] at hcs
  | c :: cs, c' :: cs', hcs, hcs', h => by
    rw [Text.containsList, Bool.or_eq_false_iff] at hcs hcs'
    obtain ⟨rfl, hrest⟩ := List.cons.inj h
    obtain ⟨rfl, rfl⟩ := comment_inj hcs.2 hcs'.2 hrest
    exact ⟨rfl, rfl⟩

/-! ## Tags -/

theorem name_inj {name name' : String} {c c' : Char} (hname : isValidName name)
    (hname' : isValidName name') (hc : isNamePart c = false) (hc' : isNamePart c' = false)
    (h : name.toList ++ c :: r = name'.toList ++ c' :: r') :
    name = name' ∧ c = c' ∧ r = r' := by
  obtain ⟨-, -, -, -, hparts⟩ := exists_cons_of_isValidName hname
  obtain ⟨-, -, -, -, hparts'⟩ := exists_cons_of_isValidName hname'
  obtain ⟨hnames, hrest⟩ := run_inj hparts hparts' (by simpa using hc) (by simpa using hc') h
  obtain ⟨rfl, rfl⟩ := List.cons.inj hrest
  exact ⟨String.toList_inj.mp hnames, rfl, rfl⟩

/-- An attribute tells its name and its value. -/
theorem writeAttribute_inj {a a' : String × String} (ha : isValidName a.1)
    (ha' : isValidName a'.1) (h : writeAttribute a ++ r = writeAttribute a' ++ r') :
    a = a' ∧ r = r' := by
  simp only [writeAttribute, List.append_assoc, List.cons_append, List.nil_append] at h
  obtain ⟨hname, -, hvalue⟩ := name_inj ha ha' (by decide) (by decide) (List.cons.inj h).2
  obtain ⟨-, hvalue⟩ := List.cons.inj hvalue
  have hquote {s : String} : ∀ c ∈ escapeValue s, (c != '"') = true := by
    intro c hc
    simpa using (ne_of_mem_escapedValue hc).2
  obtain ⟨hvalue, hrest⟩ := run_inj hquote hquote (by simp) (by simp) hvalue
  exact ⟨Prod.ext hname (escapeValue_inj hvalue), (List.cons.inj hrest).2⟩

/-- A tag that goes on does not end. -/
theorem writeAttribute_ne_tagEnd {a : String × String} (ha : isValidName a.1) (closed : Bool) :
    writeAttribute a ++ r ≠ tagEnd closed ++ r' := by
  obtain ⟨c, cs, hname, hstart, -⟩ := exists_cons_of_isValidName ha
  intro h
  rw [writeAttribute, hname] at h
  cases closed with
  | false => cases h
  | true =>
    obtain ⟨-, h⟩ := List.cons.inj h
    exact (ne_of_isNameStart hstart).2.2 (List.cons.inj h).1

/-- The attributes of a tag are told, and how the tag ends. -/
theorem attributes_inj {closed closed' : Bool} : ∀ {as as' : Attributes},
    (∀ a ∈ as, isValidName a.1) → (∀ a ∈ as', isValidName a.1) →
    as.flatMap writeAttribute ++ (tagEnd closed ++ r) =
      as'.flatMap writeAttribute ++ (tagEnd closed' ++ r') →
    as = as' ∧ closed = closed' ∧ r = r'
  | [], [], _, _, h => by
    cases closed <;> cases closed' <;> simp_all [tagEnd]
  | [], a' :: as', _, has', h => by
    rw [List.flatMap_cons, List.append_assoc] at h
    exact absurd h.symm (writeAttribute_ne_tagEnd (List.forall_mem_cons.mp has').1 closed)
  | a :: as, [], has, _, h => by
    rw [List.flatMap_cons, List.append_assoc] at h
    exact absurd h (writeAttribute_ne_tagEnd (List.forall_mem_cons.mp has).1 closed')
  | a :: as, a' :: as', has, has', h => by
    rw [List.forall_mem_cons] at has has'
    rw [List.flatMap_cons, List.flatMap_cons, List.append_assoc, List.append_assoc] at h
    obtain ⟨rfl, hrest⟩ := writeAttribute_inj has.1 has'.1 h
    obtain ⟨rfl, hend⟩ := attributes_inj has.2 has'.2 hrest
    exact ⟨rfl, hend⟩

/-- The name of a tag is told, its attributes and how it ends. -/
theorem tag_inj {name name' : String} {as as' : Attributes} {closed closed' : Bool}
    (hname : isValidName name) (hname' : isValidName name') (has : ∀ a ∈ as, isValidName a.1)
    (has' : ∀ a ∈ as', isValidName a.1)
    (h : name.toList ++ (as.flatMap writeAttribute ++ (tagEnd closed ++ r)) =
      name'.toList ++ (as'.flatMap writeAttribute ++ (tagEnd closed' ++ r'))) :
    name = name' ∧ as = as' ∧ closed = closed' ∧ r = r' := by
  have hbehind (as : Attributes) (closed : Bool) (r : List Char) : ∃ c cs,
      as.flatMap writeAttribute ++ (tagEnd closed ++ r) = c :: cs ∧ isNamePart c = false := by
    cases as with
    | cons a as => exact ⟨' ', _, rfl, by decide⟩
    | nil =>
      cases closed with
      | false => exact ⟨'>', _, rfl, by decide⟩
      | true => exact ⟨' ', _, rfl, by decide⟩
  obtain ⟨c, cs, hcs, hc⟩ := hbehind as closed r
  obtain ⟨c', cs', hcs', hc'⟩ := hbehind as' closed' r'
  rw [hcs, hcs'] at h
  obtain ⟨rfl, rfl, rfl⟩ := name_inj hname hname' hc hc' h
  exact ⟨rfl, attributes_inj has has' (hcs.trans hcs'.symm)⟩

/-! ## Trees in normal form -/

/-- No two texts stand next to each other. -/
def Apart (ts : List Tree) : Prop := ts.IsChain fun t t' => t.isText = false ∨ t'.isText = false

mutual

/-- The tree is in the form that reading gives it. -/
def Tree.Normal : Tree → Prop
  | .document _ => False
  | .text content => isBlankText content = false
  | .comment content => Text.containsList ['-', '-'] content.toList = false
  | .element name attributes children =>
    isValidName name ∧ (∀ a ∈ attributes, isValidName a.1) ∧ Apart children ∧
      AllNormal children

@[inherit_doc Tree.Normal]
def AllNormal : List Tree → Prop
  | [] => True
  | t :: ts => t.Normal ∧ AllNormal ts

end

variable {t t' : Tree} {ts ts' : List Tree}

theorem allNormal_iff : AllNormal ts ↔ ∀ t ∈ ts, t.Normal := by
  induction ts with
  | nil => simp [AllNormal]
  | cons t ts ih => simp [AllNormal, ih]

mutual

theorem Tree.Normal.unbroken : ∀ {t : Tree}, t.Normal → t.Unbroken ∧ t.HasValidNames
  | .document _, h => h.elim
  | .text _, _ => ⟨trivial, trivial⟩
  | .comment _, h => ⟨h, trivial⟩
  | .element _ _ _, ⟨hname, has, _, hts⟩ => by
    obtain ⟨hwhole, hnames⟩ := AllNormal.unbroken hts
    exact ⟨hwhole, hname, has, hnames⟩

/-- What is in normal form is unbroken and has valid names. -/
theorem AllNormal.unbroken : ∀ {ts : List Tree}, AllNormal ts → AllUnbroken ts ∧ HaveValidNames ts
  | [], _ => ⟨trivial, trivial⟩
  | _ :: _, h => by
    obtain ⟨hwhole, hnames⟩ := Tree.Normal.unbroken h.1
    obtain ⟨hwholes, hrest⟩ := AllNormal.unbroken h.2
    exact ⟨⟨hwhole, hwholes⟩, hnames, hrest⟩

end

/-- What is written in an element. -/
def writeContent (depth : Nat) (inline : Bool) (ts : List Tree) : List Char :=
  if inline || ts.any Tree.isText then writeInline 0 true ts
  else writeLines (depth + 1) ts ++ '\n' :: margin depth inline

theorem write_element (depth : Nat) (inline : Bool) (name : String) (as : Attributes)
    (ts : List Tree) (r : List Char) :
    (Tree.element name as ts).write depth inline ++ r =
      margin depth inline ++ '<' :: (name.toList ++ (as.flatMap writeAttribute ++
        (tagEnd ts.isEmpty ++ (if ts.isEmpty then r
          else writeContent depth inline ts ++ '<' :: '/' :: (name.toList ++ '>' :: r))))) := by
  rw [Tree.write, writeContent]
  dsimp only [margin]
  cases ts.isEmpty with
  | true => simp [tagEnd]
  | false => simp [tagEnd]

theorem write_comment (depth : Nat) (inline : Bool) (content : String) (r : List Char) :
    (Tree.comment content).write depth inline ++ r =
      margin depth inline ++ '<' :: '!' :: '-' :: '-' ::
        (content.toList ++ '-' :: '-' :: '>' :: r) := by
  simp [Tree.write, margin]

/-- What is no text starts a tag or a comment, and neither ends an element nor starts an
instruction. -/
theorem exists_markup (ht : t.Normal) (hmarkup : t.isText = false) (depth : Nat) (inline : Bool)
    (r : List Char) : ∃ c cs, t.write depth inline ++ r = margin depth inline ++ '<' :: c :: cs ∧
      c ≠ '/' ∧ c ≠ '?' := by
  cases t with
  | document => exact ht.elim
  | text => cases hmarkup
  | comment content => exact ⟨_, _, write_comment depth inline content r, by decide⟩
  | element name as ts =>
    obtain ⟨c, cs, hname, hstart, -⟩ := exists_cons_of_isValidName ht.1
    rw [write_element, hname]
    exact ⟨c, _, rfl, (ne_of_isNameStart hstart).2.2, (ne_of_isNameStart hstart).2.1⟩

/-- Behind a text, markup follows. -/
theorem exists_markup_of_head (hts : AllNormal ts) (hhead : ∀ t ∈ ts.head?, t.isText = false)
    (r : List Char) : ∃ cs, writeInline 0 true ts ++ '<' :: r = '<' :: cs := by
  cases ts with
  | nil => exact ⟨r, rfl⟩
  | cons t ts =>
    obtain ⟨c, cs, h, -⟩ := exists_markup hts.1 (hhead t rfl) 0 true
      (writeInline 0 true ts ++ '<' :: r)
    rw [writeInline, List.append_assoc]
    exact ⟨c :: cs, h⟩

/-- A text ends where markup follows. -/
theorem text_inj {content : String} {cs : List Char} (hcs : ∀ c ∈ cs, c ≠ '<')
    (h : escapeText content ++ '<' :: r = cs ++ '<' :: r') : escapeText content = cs ∧ r = r' := by
  have htext : ∀ c ∈ escapeText content, (c != '<') = true := by
    intro c hc
    simpa using (ne_of_mem_escapedText hc).1
  obtain ⟨rfl, hrest⟩ := run_inj htext (by simpa using hcs) (by simp) (by simp) h
  exact ⟨rfl, (List.cons.inj hrest).2⟩

/-- The line ends and spaces between trees are no text. -/
theorem ne_margin {content : String} (h : isBlankText content = false) (depth : Nat) :
    escapeText content ≠ '\n' :: margin depth false := by
  intro heq
  have hmargin : '\n' :: margin depth false =
      escapeText (String.ofList ('\n' :: margin depth false)) := by
    rw [escapeText, String.toList_ofList, List.flatMap_cons, escape_margin]
    rfl
  obtain rfl := escapeText_inj (heq.trans hmargin)
  rw [isBlankText_margin] at h
  cases h

/-- What is written on one line because there is a text is not written on lines of their own. -/
theorem writeInline_ne_writeLines (hts : AllNormal ts) (hapart : Apart ts)
    (htext : ts.any Tree.isText) (hts' : AllNormal ts') (htext' : ts'.any Tree.isText = false)
    (hne : ts' ≠ []) (depth : Nat) :
    writeInline 0 true ts ++ '<' :: r ≠ writeLines depth ts' ++ r' := by
  obtain ⟨t', ts', rfl⟩ := List.exists_cons_of_ne_nil hne
  rw [List.any_cons, Bool.or_eq_false_iff] at htext'
  obtain ⟨c, cs, hmarkup, -⟩ :=
    exists_markup hts'.1 htext'.1 depth false (writeLines depth ts' ++ r')
  rw [writeLines, List.cons_append, List.cons_append, List.append_assoc, hmarkup]
  cases ts with
  | nil => cases htext
  | cons t ts =>
    rw [Apart, List.isChain_cons] at hapart
    rw [writeInline, List.append_assoc]
    cases ht : t.isText with
    | false =>
      obtain ⟨c, cs, hmarkup, -⟩ :=
        exists_markup hts.1 ht 0 true (writeInline 0 true ts ++ '<' :: r)
      rw [hmarkup]
      nofun
    | true =>
      have hhead : ∀ t ∈ ts.head?, t.isText = false := by
        simpa [ht] using hapart.1
      obtain ⟨content, rfl⟩ := exists_of_isText ht
      obtain ⟨cs, hcs⟩ := exists_markup_of_head hts.2 hhead r
      rw [Tree.write, hcs, ← List.cons_append]
      intro h
      have hblank : ∀ c ∈ '\n' :: margin depth false, c ≠ '<' := by
        refine List.forall_mem_cons.mpr ⟨by decide, fun c hc => ?_⟩
        rw [eq_of_mem_margin hc]
        decide
      exact ne_margin hts.1 depth (text_inj hblank h).1

/-- A text that is not blank starts with a character of its own. -/
theorem exists_cons_of_text {content : String} (h : isBlankText content = false) :
    ∃ c cs, escapeText content = c :: cs ∧ c ≠ '<' := by
  cases hcs : escapeText content with
  | nil =>
    have hempty : content = "" := escapeText_inj (hcs : escapeText content = escapeText "")
    rw [hempty] at h
    cases h
  | cons c cs => exact ⟨c, cs, rfl, (ne_of_mem_escapedText (hcs ▸ List.mem_cons_self)).1⟩

/-- An element does not end where something in it starts. -/
theorem write_ne_end (ht : t.Normal) : t.write 0 true ++ r ≠ '<' :: '/' :: r' := by
  intro h
  cases hmarkup : t.isText with
  | false =>
    obtain ⟨c, cs, hwrite, hc⟩ := exists_markup ht hmarkup 0 true r
    rw [hwrite] at h
    exact hc.1 (List.cons.inj (List.cons.inj h).2).1
  | true =>
    obtain ⟨content, rfl⟩ := exists_of_isText hmarkup
    obtain ⟨c, cs, hcs, hc⟩ := exists_cons_of_text ht
    rw [Tree.write, hcs] at h
    exact hc (List.cons.inj h).1

/-- A text does not start like what is no text. -/
theorem write_text_ne {content : String} (hcontent : isBlankText content = false) (ht : t.Normal)
    (hmarkup : t.isText = false) :
    (Tree.text content).write 0 true ++ r ≠ t.write 0 true ++ r' := by
  obtain ⟨c, cs, hcs, hc⟩ := exists_cons_of_text hcontent
  obtain ⟨c', cs', hwrite, -⟩ := exists_markup ht hmarkup 0 true r'
  rw [Tree.write, hcs, hwrite]
  intro h
  exact hc (List.cons.inj h).1

/-- The spaces in front of two tags do not tell them apart. -/
theorem margin_inj {depth depth' : Nat}
    (h : margin depth false ++ '<' :: r = margin depth' false ++ '<' :: r') : r = r' := by
  have hspace {depth : Nat} : ∀ c ∈ margin depth false, (c == ' ') = true := by
    intro c hc
    simp [eq_of_mem_margin hc]
  exact (List.cons.inj (run_inj hspace hspace (by simp) (by simp) h).2).2

/-- No lines end where one of them starts. -/
theorem writeLines_ne_end (hts : AllNormal (t :: ts)) (htext : (t :: ts).any Tree.isText = false)
    (depth : Nat) : writeLines (depth + 1) (t :: ts) ++ r ≠
      '\n' :: (margin depth false ++ '<' :: '/' :: r') := by
  rw [List.any_cons, Bool.or_eq_false_iff] at htext
  obtain ⟨c, cs, hwrite, hc⟩ := exists_markup hts.1 htext.1 (depth + 1) false
    (writeLines (depth + 1) ts ++ r)
  rw [writeLines, List.cons_append, List.cons_append, List.append_assoc, hwrite]
  intro h
  exact hc.1 (List.cons.inj (margin_inj (List.cons.inj h).2)).1

/-- What is in an element is told, given that its parts are. -/
theorem writeContent_inj {depth : Nat} {inline : Bool} (hts : AllNormal ts) (hts' : AllNormal ts')
    (hapart : Apart ts) (hapart' : Apart ts') (hne : ts ≠ []) (hne' : ts' ≠ [])
    (hinline : writeInline 0 true ts ++ '<' :: '/' :: r =
      writeInline 0 true ts' ++ '<' :: '/' :: r' → ts = ts' ∧ r = r')
    (hlines : ts.any Tree.isText = false → ts'.any Tree.isText = false →
      writeLines (depth + 1) ts ++ '\n' :: (margin depth false ++ '<' :: '/' :: r) =
        writeLines (depth + 1) ts' ++ '\n' :: (margin depth false ++ '<' :: '/' :: r') →
      ts = ts' ∧ r = r')
    (h : writeContent depth inline ts ++ '<' :: '/' :: r =
      writeContent depth inline ts' ++ '<' :: '/' :: r') : ts = ts' ∧ r = r' := by
  rw [writeContent, writeContent] at h
  cases inline with
  | true => exact hinline (by simpa using h)
  | false =>
    cases htext : ts.any Tree.isText with
    | true =>
      cases htext' : ts'.any Tree.isText with
      | true => exact hinline (by simpa [htext, htext'] using h)
      | false =>
        simp only [htext, htext', Bool.or_true, Bool.or_self, if_true, Bool.false_eq_true, if_false,
          List.append_assoc] at h
        exact absurd h (writeInline_ne_writeLines hts hapart htext hts' htext' hne' _)
    | false =>
      cases htext' : ts'.any Tree.isText with
      | true =>
        simp only [htext, htext', Bool.or_true, Bool.or_self, if_true, Bool.false_eq_true, if_false,
          List.append_assoc] at h
        exact absurd h.symm (writeInline_ne_writeLines hts' hapart' htext' hts htext hne _)
      | false => exact hlines htext htext' (by simpa [htext, htext'] using h)

mutual

/-- A tree that is no text is told by what is written for it, whatever follows. -/
theorem Tree.write_inj (depth : Nat) (inline : Bool) : ∀ {t t' : Tree} {r r' : List Char},
    t.Normal → t'.Normal → t.isText = false → t'.isText = false →
    t.write depth inline ++ r = t'.write depth inline ++ r' → t = t' ∧ r = r'
  | .document _, _, _, _, ht, _, _, _, _ => ht.elim
  | .text _, _, _, _, _, _, ht, _, _ => nomatch ht
  | _, .document _, _, _, _, ht', _, _, _ => ht'.elim
  | _, .text _, _, _, _, _, _, ht', _ => nomatch ht'
  | .comment content, .comment content', r, r', ht, ht', _, _, h => by
    rw [write_comment, write_comment, List.append_cancel_left_eq] at h
    simp only [List.cons.injEq, true_and] at h
    obtain ⟨hcontent, rfl⟩ := comment_inj ht ht' h
    exact ⟨by rw [String.toList_inj.mp hcontent], rfl⟩
  | .comment content, .element name' as' ts', r, r', _, ht', _, _, h => by
    obtain ⟨c, cs, hname, hstart, -⟩ := exists_cons_of_isValidName ht'.1
    rw [write_comment, write_element, List.append_cancel_left_eq, hname] at h
    obtain ⟨-, h⟩ := List.cons.inj h
    exact absurd (List.cons.inj h).1.symm (ne_of_isNameStart hstart).1
  | .element name as ts, .comment content', r, r', ht, _, _, _, h => by
    obtain ⟨c, cs, hname, hstart, -⟩ := exists_cons_of_isValidName ht.1
    rw [write_comment, write_element, List.append_cancel_left_eq, hname] at h
    obtain ⟨-, h⟩ := List.cons.inj h
    exact absurd (List.cons.inj h).1 (ne_of_isNameStart hstart).1
  | .element name as ts, .element name' as' ts', r, r', ht, ht', _, _, h => by
    obtain ⟨hname, has, hapart, hts⟩ := ht
    obtain ⟨hname', has', hapart', hts'⟩ := ht'
    rw [write_element, write_element, List.append_cancel_left_eq] at h
    obtain ⟨rfl, rfl, hempty, hcontent⟩ := tag_inj hname hname' has has' (List.cons.inj h).2
    cases hnil : ts.isEmpty with
    | true =>
      rw [hnil] at hempty
      simp only [hnil, ← hempty, if_true] at hcontent
      rw [List.isEmpty_iff.mp hnil, List.isEmpty_iff.mp hempty.symm]
      exact ⟨rfl, hcontent⟩
    | false =>
      rw [hnil] at hempty
      simp only [hnil, ← hempty, Bool.false_eq_true, if_false] at hcontent
      have hne : ts ≠ [] := by simpa using hnil
      have hne' : ts' ≠ [] := by simpa using hempty.symm
      obtain ⟨rfl, hend⟩ := writeContent_inj hts hts' hapart hapart' hne hne'
        (writeInline_inj hts hts' hapart hapart') (writeLines_inj depth hts hts') hcontent
      exact ⟨rfl, (List.cons.inj (List.append_cancel_left hend)).2⟩

theorem writeInline_inj : ∀ {ts ts' : List Tree} {r r' : List Char}, AllNormal ts →
    AllNormal ts' → Apart ts → Apart ts' →
    writeInline 0 true ts ++ '<' :: '/' :: r = writeInline 0 true ts' ++ '<' :: '/' :: r' →
    ts = ts' ∧ r = r'
  | [], [], _, _, _, _, _, _, h => by simpa [writeInline] using h
  | [], t' :: ts', r, r', _, hts', _, _, h => by
    rw [writeInline, writeInline, List.append_assoc] at h
    exact absurd h.symm (write_ne_end hts'.1)
  | t :: ts, [], r, r', hts, _, _, _, h => by
    rw [writeInline, writeInline, List.append_assoc] at h
    exact absurd h (write_ne_end hts.1)
  | t :: ts, t' :: ts', r, r', hts, hts', hapart, hapart', h => by
    rw [Apart, List.isChain_cons] at hapart hapart'
    rw [writeInline, writeInline, List.append_assoc, List.append_assoc] at h
    cases ht : t.isText with
    | false =>
      cases ht' : t'.isText with
      | false =>
        obtain ⟨rfl, hrest⟩ := Tree.write_inj 0 true hts.1 hts'.1 ht ht' h
        obtain ⟨rfl, rfl⟩ := writeInline_inj hts.2 hts'.2 hapart.2 hapart'.2 hrest
        exact ⟨rfl, rfl⟩
      | true =>
        obtain ⟨content', rfl⟩ := exists_of_isText ht'
        exact absurd h.symm (write_text_ne hts'.1 hts.1 ht)
    | true =>
      obtain ⟨content, rfl⟩ := exists_of_isText ht
      cases ht' : t'.isText with
      | false => exact absurd h (write_text_ne hts.1 hts'.1 ht')
      | true =>
        obtain ⟨content', rfl⟩ := exists_of_isText ht'
        obtain ⟨cs, hcs⟩ := exists_markup_of_head hts.2 (by simpa [ht] using hapart.1) ('/' :: r)
        obtain ⟨cs', hcs'⟩ :=
          exists_markup_of_head hts'.2 (by simpa [ht'] using hapart'.1) ('/' :: r')
        rw [hcs, hcs', Tree.write, Tree.write] at h
        obtain ⟨hcontent, rfl⟩ := text_inj (fun c hc => (ne_of_mem_escapedText hc).1) h
        obtain ⟨rfl, rfl⟩ := writeInline_inj hts.2 hts'.2 hapart.2 hapart'.2 (hcs.trans hcs'.symm)
        exact ⟨by rw [escapeText_inj hcontent], rfl⟩

theorem writeLines_inj (depth : Nat) : ∀ {ts ts' : List Tree} {r r' : List Char},
    AllNormal ts → AllNormal ts' → ts.any Tree.isText = false → ts'.any Tree.isText = false →
    writeLines (depth + 1) ts ++ '\n' :: (margin depth false ++ '<' :: '/' :: r) =
      writeLines (depth + 1) ts' ++ '\n' :: (margin depth false ++ '<' :: '/' :: r') →
    ts = ts' ∧ r = r'
  | [], [], _, _, _, _, _, _, h => by simpa [writeLines] using h
  | [], t' :: ts', r, r', _, hts', _, htext', h =>
    absurd h.symm (writeLines_ne_end hts' htext' depth)
  | t :: ts, [], r, r', hts, _, htext, _, h => absurd h (writeLines_ne_end hts htext depth)
  | t :: ts, t' :: ts', r, r', hts, hts', htext, htext', h => by
    rw [List.any_cons, Bool.or_eq_false_iff] at htext htext'
    rw [writeLines, writeLines] at h
    simp only [List.cons_append, List.append_assoc, List.cons.injEq, true_and] at h
    obtain ⟨rfl, hrest⟩ := Tree.write_inj (depth + 1) false hts.1 hts'.1 htext.1 htext'.1 h
    obtain ⟨rfl, rfl⟩ := writeLines_inj depth hts.2 hts'.2 htext.2 htext'.2 hrest
    exact ⟨rfl, rfl⟩

end

/-! ## Trees at the top -/

theorem lines_inj : ∀ {ts ts' : List Tree}, AllNormal ts → AllNormal ts' →
    ts.any Tree.isText = false → ts'.any Tree.isText = false →
    writeLines 0 ts = writeLines 0 ts' → ts = ts'
  | [], [], _, _, _, _, _ => rfl
  | [], _ :: _, _, _, _, _, h => by cases h
  | _ :: _, [], _, _, _, _, h => by cases h
  | t :: ts, t' :: ts', hts, hts', htext, htext', h => by
    rw [List.any_cons, Bool.or_eq_false_iff] at htext htext'
    obtain ⟨-, hwritten⟩ := List.cons.inj h
    obtain ⟨rfl, hrest⟩ := Tree.write_inj 0 false hts.1 hts'.1 htext.1 htext'.1 hwritten
    rw [lines_inj hts.2 hts'.2 htext.2 htext'.2 hrest]

/-- Trees are told by what is written for them at the top, if there are no texts among them. -/
theorem writeTop_inj (hts : AllNormal ts) (hts' : AllNormal ts')
    (htext : ts.any Tree.isText = false) (htext' : ts'.any Tree.isText = false)
    (h : writeTop ts = writeTop ts') : ts = ts' := by
  -- A line end more makes each tree a line.
  have hlines {ts : List Tree} (hne : ts ≠ []) :
      '\n' :: (writeTop ts).toList = writeLines 0 ts := by
    obtain ⟨t, ts, rfl⟩ := List.exists_cons_of_ne_nil hne
    rw [toList_writeTop, writeLines, List.cons_append]
  have hempty {ts : List Tree} (hts : AllNormal ts) (htext : ts.any Tree.isText = false)
      (h : writeTop [] = writeTop ts) : [] = ts := by
    cases ts with
    | nil => rfl
    | cons t ts =>
      rw [List.any_cons, Bool.or_eq_false_iff] at htext
      obtain ⟨c, cs, hwrite, -⟩ := exists_markup hts.1 htext.1 0 false (writeLines 0 ts)
      rw [← String.toList_inj, toList_writeTop, hwrite] at h
      cases h
  by_cases hne : ts = []
  · subst hne
    exact hempty hts' htext' h
  · by_cases hne' : ts' = []
    · subst hne'
      exact (hempty hts htext h.symm).symm
    · refine lines_inj hts hts' htext htext' ?_
      rw [← hlines hne, ← hlines hne', h]

end PatchScript.Xml
