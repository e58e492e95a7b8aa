import PatchScript.Proofs.Xml.Cutting

/-!
# What is cut from a source is sound

A source is read only if all its characters are characters of XML.  The characters of the texts
that are read from it are then characters of XML too: they stand in the source, or a reference
stands for them, or they are line feeds.  A comment is read only if it can be written again.

A reader of a part takes characters from the front and leaves the rest as it is, so what it
leaves is a suffix of what it was given.
-/

namespace PatchScript.Xml

/-! ## Characters -/

theorem isXmlChar_of_charOfCode? {n : Nat} {c : Char} (h : charOfCode? n = some c) :
    isXmlChar c := by
  rw [charOfCode?] at h
  split at h
  · cases h
  · dsimp only at h
    generalize (if n.isValidChar then Char.ofNat n else '\ufffd') = b at h
    split at h
    · rename_i hb
      cases h
      exact hb
    · cases h

/-- A reference stands for a character of XML. -/
theorem isXmlChar_of_referred? {body : List Char} {c : Char} (h : referred? body = some c) :
    isXmlChar c := by
  unfold referred? at h
  split at h
  · obtain ⟨n, -, hn⟩ := Option.bind_eq_some_iff.mp h
    exact isXmlChar_of_charOfCode? hn
  · obtain ⟨n, -, hn⟩ := Option.bind_eq_some_iff.mp h
    exact isXmlChar_of_charOfCode? hn
  · split at h <;> cases h <;> decide

theorem isXmlChar_of_glyphsFrom : ∀ {cs : List Char} {skip : Nat} {done gs : List Glyph},
    (∀ c ∈ cs, isXmlChar c) → (∀ g ∈ done, isXmlChar g.char) →
    glyphsFrom skip done cs = .ok gs → ∀ g ∈ gs, isXmlChar g.char := by
  intro cs
  induction cs with
  | nil =>
    intro skip done gs _ hdone h
    rw [glyphsFrom] at h
    cases h
    exact fun g hg => hdone g (List.mem_reverse.mp hg)
  | cons c cs ih =>
    intro skip done gs hcs hdone h
    obtain ⟨hc, hrest⟩ := List.forall_mem_cons.mp hcs
    cases skip with
    | succ skip => exact ih hrest hdone h
    | zero =>
      rw [glyphsFrom] at h
      split at h
      · dsimp only at h
        split at h
        · rename_i r hr
          split at h
          · exact ih hrest (List.forall_mem_cons.mpr ⟨isXmlChar_of_referred? hr, hdone⟩) h
          · cases h
        · cases h
      · exact ih hrest (List.forall_mem_cons.mpr ⟨hc, hdone⟩) h

theorem isXmlChar_of_pushLine {done : List Char} {c : Char} {last : Bool}
    (hdone : ∀ b ∈ done, isXmlChar b) (hc : isXmlChar c) :
    ∀ b ∈ pushLine done c last, isXmlChar b := by
  have hfeed : isXmlChar '\n' := by decide
  unfold pushLine
  split
  · have hrest := (List.forall_mem_cons.mp hdone).2
    split
    · simp only [List.forall_mem_cons]
      exact ⟨hfeed, hfeed, hrest⟩
    · split
      · exact List.forall_mem_cons.mpr ⟨hfeed, hrest⟩
      · simp only [List.forall_mem_cons]
        exact ⟨hc, hfeed, hrest⟩
  · split
    · exact List.forall_mem_cons.mpr ⟨hfeed, hdone⟩
    · exact List.forall_mem_cons.mpr ⟨hc, hdone⟩

theorem isXmlChar_of_joinLines : ∀ {gs : List Glyph} {keep : Bool} {done : List Char},
    (∀ g ∈ gs, isXmlChar g.char) → (∀ b ∈ done, isXmlChar b) →
    ∀ b ∈ joinLines keep done gs, isXmlChar b := by
  intro gs
  induction gs with
  | nil =>
    intro keep done _ hdone b hb
    rw [joinLines] at hb
    exact hdone b (List.mem_reverse.mp hb)
  | cons g gs ih =>
    intro keep done hgs hdone
    obtain ⟨hg, hrest⟩ := List.forall_mem_cons.mp hgs
    have hpushed : ∀ b ∈ g.char :: done, isXmlChar b := List.forall_mem_cons.mpr ⟨hg, hdone⟩
    rw [joinLines]
    split
    · exact ih hrest hpushed
    · split
      · exact ih hrest hpushed
      · exact ih hrest (isXmlChar_of_pushLine hdone hg)

/-- A text is read as characters of XML. -/
theorem isXmlChar_of_textOf {raw : List Char} {s : String} (hraw : ∀ c ∈ raw, isXmlChar c)
    (h : textOf raw = .ok s) : s.toList.all isXmlChar := by
  obtain ⟨gs, hgs, hs⟩ := bind_eq_ok h
  cases hs
  rw [String.toList_ofList, List.all_eq_true]
  have hglyphs := isXmlChar_of_glyphsFrom hraw (fun _ hg => absurd hg List.not_mem_nil) hgs
  exact isXmlChar_of_joinLines hglyphs fun _ hb => absurd hb List.not_mem_nil

/-- A section is read as characters of XML. -/
theorem isXmlChar_of_cdataOf {raw : List Char} (hraw : ∀ c ∈ raw, isXmlChar c) :
    (cdataOf raw).toList.all isXmlChar := by
  rw [cdataOf, String.toList_ofList, List.all_eq_true]
  refine isXmlChar_of_joinLines (List.forall_mem_map.mpr hraw) ?_
  exact fun _ hb => absurd hb List.not_mem_nil

/-! ## Pieces -/

/-- Does the piece hold characters of XML only, and can the comment stand in a document? -/
def Piece.Sound : Piece → Prop
  | .text raw | .cdata raw => ∀ c ∈ raw, isXmlChar c
  | .comment content => isCommentText content.toList
  | .openTag .. | .closeTag _ | .instruction => True

theorem quoted_suffix {cs raw rest : List Char} (h : quoted cs = .ok (raw, rest)) :
    rest <:+ cs := by
  cases cs with
  | nil => cases h
  | cons q cs =>
    rw [quoted] at h
    split at h
    · dsimp only at h
      split at h
      · rename_i c behind hdrop
        split at h
        · cases h
          have hbehind := List.dropWhile_suffix (fun c => c != q && c != '<') (l := cs)
          rw [hdrop] at hbehind
          exact (List.suffix_cons _ _).trans (hbehind.trans (List.suffix_cons _ _))
        · cases h
      · cases h
    · cases h

theorem equals_suffix {cs rest : List Char} (h : equals cs = .ok rest) : rest <:+ cs := by
  rw [equals] at h
  split at h
  · rename_i behind hdrop
    cases h
    have hbehind := List.dropWhile_suffix isSpace (l := cs)
    rw [hdrop] at hbehind
    exact (List.dropWhile_suffix _).trans ((List.suffix_cons _ _).trans hbehind)
  · cases h

theorem qname_suffix {cs rest : List Char} {q : QName} (h : qname cs = .ok (q, rest)) :
    rest <:+ cs := by
  rw [qname_rest h]
  exact List.dropWhile_suffix _

theorem attribute_suffix {cs rest : List Char} {a : QName × List Char}
    (h : attribute? cs = .ok (a, rest)) : rest <:+ cs := by
  obtain ⟨⟨name, behind⟩, hname, h⟩ := bind_eq_ok h
  obtain ⟨behind', hequals, h⟩ := bind_eq_ok h
  obtain ⟨⟨raw, behind''⟩, hquoted, h⟩ := bind_eq_ok h
  cases h
  exact (quoted_suffix hquoted).trans ((equals_suffix hequals).trans (qname_suffix hname))

theorem tagFrom_suffix : ∀ {steps : Nat} {cs rest : List Char}
    {a : List (QName × String) × Bool}, tagFrom steps cs = .ok (a, rest) → rest <:+ cs := by
  intro steps
  induction steps with
  | zero => exact fun h => by cases h
  | succ n ih =>
    intro cs rest a h
    have hinner := List.dropWhile_suffix isSpace (l := cs)
    rw [tagFrom] at h
    split at h
    · rename_i hdrop
      cases h
      rw [hdrop] at hinner
      exact (List.suffix_cons _ _).trans ((List.suffix_cons _ _).trans hinner)
    · rename_i hdrop
      cases h
      rw [hdrop] at hinner
      exact (List.suffix_cons _ _).trans hinner
    · split at h
      · obtain ⟨⟨⟨name, raw⟩, behind⟩, hattribute, h⟩ := bind_eq_ok h
        obtain ⟨value, -, h⟩ := bind_eq_ok h
        obtain ⟨⟨⟨attributes, closed⟩, behind'⟩, hrest, h⟩ := bind_eq_ok h
        cases h
        exact (ih hrest).trans ((attribute_suffix hattribute).trans hinner)
      · cases h

/-- What stands before a mark and what follows it are parts of what was there. -/
theorem upTo_eq {mark : List Char} : ∀ {cs done content rest : List Char},
    upTo mark done cs = .ok (content, rest) → done.reverse ++ cs = content ++ (mark ++ rest) := by
  intro cs
  induction cs with
  | nil => exact fun h => by cases h
  | cons c cs ih =>
    intro done content rest h
    rw [upTo] at h
    split at h
    · rename_i hmark
      cases h
      rw [List.prefix_iff_eq_append.mp (List.isPrefixOf_iff_prefix.mp hmark)]
    · rw [← ih h, List.reverse_cons, List.append_assoc]
      rfl

theorem upTo_suffix {mark cs content rest : List Char} (h : upTo mark [] cs = .ok (content, rest)) :
    rest <:+ cs := by
  have heq := upTo_eq h
  rw [List.reverse_nil, List.nil_append] at heq
  rw [heq]
  exact (List.suffix_append _ _).trans (List.suffix_append _ _)

theorem isXmlChar_of_upTo {mark cs content rest : List Char} (hcs : ∀ c ∈ cs, isXmlChar c)
    (h : upTo mark [] cs = .ok (content, rest)) : ∀ c ∈ content, isXmlChar c := by
  have heq := upTo_eq h
  rw [List.reverse_nil, List.nil_append] at heq
  rw [heq] at hcs
  exact fun c hc => hcs c (List.mem_append_left _ hc)

theorem commentFrom_reads {cs rest : List Char} {p : Piece} (h : commentFrom cs = .ok (p, rest)) :
    rest <:+ cs ∧ ((∀ c ∈ cs, isXmlChar c) → p.Sound) := by
  obtain ⟨⟨content, behind⟩, hcontent, h⟩ := bind_eq_ok h
  dsimp only at h
  split at h
  · cases h
  · rename_i hhyphens
    cases h
    refine ⟨upTo_suffix hcontent, fun hcs => ?_⟩
    have hchars := List.all_eq_true.mpr (isXmlChar_of_upTo hcs hcontent)
    rw [Bool.not_eq_true, Bool.or_eq_false_iff] at hhyphens
    rw [Piece.Sound, String.toList_ofList, isCommentText, hchars, hhyphens.1]
    simpa using hhyphens.2

theorem instructionFrom_reads {cs rest : List Char} {p : Piece}
    (h : instructionFrom cs = .ok (p, rest)) : rest <:+ cs ∧ p.Sound := by
  rw [instructionFrom] at h
  dsimp only at h
  split at h
  · cases h
  · split at h
    · cases h
    · obtain ⟨⟨content, behind⟩, hcontent, h⟩ := bind_eq_ok h
      cases h
      exact ⟨(upTo_suffix hcontent).trans (List.dropWhile_suffix _), trivial⟩

/-- A piece is read from the front, and it is sound if all is characters of XML. -/
theorem piece_reads {steps : Nat} {c : Char} {cs rest : List Char} {p : Piece}
    (h : piece steps c cs = .ok (p, rest)) :
    rest <:+ c :: cs ∧ ((∀ b ∈ c :: cs, isXmlChar b) → p.Sound) := by
  unfold piece at h
  split at h
  · split at h
    · rename_i behind
      have hbehind : behind <:+ c :: '!' :: '-' :: '-' :: behind := ⟨[c, '!', '-', '-'], rfl⟩
      obtain ⟨hrest, hsound⟩ := commentFrom_reads h
      exact ⟨hrest.trans hbehind, fun hcs => hsound fun b hb => hcs b (hbehind.subset hb)⟩
    · rename_i behind
      have hbehind : behind <:+
          c :: '!' :: '[' :: 'C' :: 'D' :: 'A' :: 'T' :: 'A' :: '[' :: behind :=
        ⟨[c, '!', '[', 'C', 'D', 'A', 'T', 'A', '['], rfl⟩
      obtain ⟨⟨content, behind'⟩, hcontent, h⟩ := bind_eq_ok h
      cases h
      exact ⟨(upTo_suffix hcontent).trans hbehind, fun hcs =>
        isXmlChar_of_upTo (fun b hb => hcs b (hbehind.subset hb)) hcontent⟩
    · cases h
    · obtain ⟨hrest, hsound⟩ := instructionFrom_reads h
      exact ⟨hrest.trans ⟨[c, '?'], rfl⟩, fun _ => hsound⟩
    · rename_i behind
      obtain ⟨⟨name, behind'⟩, hname, h⟩ := bind_eq_ok h
      dsimp only at h
      split at h
      · rename_i hdrop
        cases h
        have hspaces := List.dropWhile_suffix isSpace (l := behind')
        rw [hdrop] at hspaces
        refine ⟨(List.suffix_cons _ _).trans (hspaces.trans ((qname_suffix hname).trans ?_)),
          fun _ => trivial⟩
        exact ⟨[c, '/'], rfl⟩
      · cases h
    · obtain ⟨⟨name, behind⟩, hname, h⟩ := bind_eq_ok h
      obtain ⟨⟨⟨attributes, closed⟩, behind'⟩, htag, h⟩ := bind_eq_ok h
      cases h
      exact ⟨(tagFrom_suffix htag).trans ((qname_suffix hname).trans (List.suffix_cons _ _)),
        fun _ => trivial⟩
  · dsimp only at h
    split at h
    · cases h
    · cases h
      refine ⟨List.dropWhile_suffix _, fun hcs b hb => hcs b ?_⟩
      exact (List.takeWhile_prefix _).subset hb

theorem piecesFrom_sound : ∀ {steps : Nat} {done ps : List Piece} {cs : List Char},
    (∀ c ∈ cs, isXmlChar c) → (∀ p ∈ done, p.Sound) → piecesFrom steps done cs = .ok ps →
    ∀ p ∈ ps, p.Sound := by
  intro steps
  induction steps with
  | zero =>
    intro done ps cs _ hdone h
    cases cs with
    | nil =>
      cases h
      exact fun p hp => hdone p (List.mem_reverse.mp hp)
    | cons c cs => cases h
  | succ n ih =>
    intro done ps cs hcs hdone h
    cases cs with
    | nil =>
      cases h
      exact fun p hp => hdone p (List.mem_reverse.mp hp)
    | cons c cs =>
      obtain ⟨⟨p, rest⟩, hp, h⟩ := bind_eq_ok h
      obtain ⟨hrest, hsound⟩ := piece_reads hp
      exact ih (fun b hb => hcs b (hrest.subset hb))
        (List.forall_mem_cons.mpr ⟨hsound hcs, hdone⟩) h

/-! ## The start of a document -/

theorem declarationSpace_suffix {cs rest : List Char} (h : declarationSpace cs = .ok rest) :
    rest <:+ cs := by
  rw [declarationSpace] at h
  split at h
  · cases h
    exact List.dropWhile_suffix _
  · split at h
    · cases h
      exact List.suffix_refl _
    · cases h

theorem declarationPart_suffix {name : String} {cs rest : List Char}
    (h : declarationPart name cs = .ok rest) : rest <:+ cs := by
  rw [declarationPart] at h
  split at h
  · obtain ⟨⟨a, behind⟩, hattribute, h⟩ := bind_eq_ok h
    exact (declarationSpace_suffix h).trans (attribute_suffix hattribute)
  · cases h
    exact List.suffix_refl _

theorem declarationFrom_suffix {cs rest : List Char} (h : declarationFrom cs = .ok rest) :
    rest <:+ cs := by
  rw [declarationFrom] at h
  dsimp only at h
  split at h
  · cases h
  · obtain ⟨cs₁, h₁, h⟩ := bind_eq_ok h
    obtain ⟨cs₂, h₂, h⟩ := bind_eq_ok h
    obtain ⟨cs₃, h₃, h⟩ := bind_eq_ok h
    split at h
    · rename_i hdrop
      cases h
      have hspaces := List.dropWhile_suffix isSpace (l := cs₃)
      rw [hdrop] at hspaces
      have hparts := (declarationPart_suffix h₃).trans
        ((declarationPart_suffix h₂).trans (declarationPart_suffix h₁))
      refine List.IsSuffix.trans ⟨['?', '>'], rfl⟩ (hspaces.trans (hparts.trans ?_))
      exact List.dropWhile_suffix _
    · cases h

/-- What is cut into pieces consists of characters of XML. -/
theorem isXmlChar_of_pieces {source : List Char} {ps : List Piece} (h : pieces source = .ok ps) :
    source.all isXmlChar := by
  cases hall : source.all isXmlChar with
  | true => rfl
  | false =>
    unfold pieces at h
    rw [hall] at h
    cases h

/-- The pieces of a document are sound. -/
theorem pieces_sound {source : List Char} {ps : List Piece} (h : pieces source = .ok ps) :
    ∀ p ∈ ps, p.Sound := by
  have hall := List.all_eq_true.mp (isXmlChar_of_pieces h)
  unfold pieces at h
  extract_lets start read checked at h
  split at h
  · cases h
  · -- What is cut is what follows the mark of byte order and the declaration.
    have cut {behind : List Char} (hbehind : behind <:+ source)
        (h : piecesFrom source.length [] behind = .ok ps) : ∀ p ∈ ps, p.Sound :=
      piecesFrom_sound (fun c hc => hall c (hbehind.subset hc))
        (fun _ hp => absurd hp List.not_mem_nil) h
    have hmark : start <:+ source := by
      unfold start
      split
      · exact List.suffix_cons _ _
      · exact List.suffix_refl _
    dsimp only [checked, read] at h
    clear_value start
    split at h
    · obtain ⟨behind, hdeclaration, h⟩ := bind_eq_ok h
      refine cut ((declarationFrom_suffix hdeclaration).trans (List.IsSuffix.trans ?_ hmark)) h
      exact ⟨['<', '?', 'x', 'm', 'l', ' '], rfl⟩
    · obtain ⟨behind, hbehind, h⟩ := bind_eq_ok h
      cases hbehind
      exact cut hmark h

end PatchScript.Xml
