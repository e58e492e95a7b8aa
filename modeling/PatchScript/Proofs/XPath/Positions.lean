import PatchScript.Proofs.Number.Whole
import PatchScript.Proofs.XPath.Hexadecimal
import PatchScript.Proofs.XPath.NodeSets
import PatchScript.Proofs.Xml.Elements

/-!
# Positions in expressions

A child is found by its name and its number in two ways: by looking through the children, and by an
expression, a name with the number in brackets behind it.  They agree (`child_positions_agree`).  The
expression is read the same way for every name, since no token but a colon pair or a parenthesis
behind a name makes more of it than a name.  Its predicate is a number, which keeps the node at
that position.  As a number of the format it equals no position but its own if it has at most 53
bits.
-/

namespace PatchScript.XPath

open Xml (Document NodeId)

variable {c d : Char} {cs rest : List Char} {t : Token} {ts done : List Token} {s tag : String}
  {width skip n : Nat}

/-! ## Names -/

theorem isNumberPart_of_isNameStart (hc : isNameStart c) : isNumberPart c = false := by
  have every : ("0123456789.".toList.all fun d => !isNameStart d) = true := by decide
  rw [Bool.eq_false_iff]
  intro hnumber
  rw [isNumberPart, Bool.or_eq_true, beq_iff_eq] at hnumber
  have hnot := List.all_eq_true.mp every c (mem_of_isPlainDigit hnumber)
  rw [hc] at hnot
  cases hnot

/-- What a name starts with makes a name, whatever follows. -/
theorem front_of_isNameStart (hc : isNameStart c) (cs : List Char) :
    front c cs = .ok (.name (String.ofList (c :: nameRest cs)), (c :: nameRest cs).length) := by
  rw [front_of_not_mem_signs (not_mem_signs (by decide) hc),
    if_neg (isNumberPart_of_isNameStart hc ▸ Bool.false_ne_true), if_pos hc]

theorem isNameStart_of_front (h : front c cs = .ok (.name s, width)) : isNameStart c := by
  revert h
  fun_cases front c cs
  all_goals intro h
  all_goals first | assumption | cases h | (split at h <;> cases h)

theorem length_nameRest_le (cs : List Char) : (nameRest cs).length ≤ cs.length := by
  induction cs with
  | nil => exact Nat.le_refl _
  | cons c cs ih =>
    rw [nameRest]
    split
    · exact Nat.succ_le_succ ih
    · exact Nat.zero_le _

/-- A name ends where a character is put behind it that can neither stand in a name nor join two. -/
theorem nameRest_append (hpart : isNamePart d = false) (hcolon : d ≠ ':')
    (hstart : isNameStart d = false) (cs rest : List Char) :
    nameRest (cs ++ d :: rest) = nameRest cs := by
  induction cs with
  | nil =>
    rw [List.nil_append, nameRest, nameRest, hpart, beq_eq_false_iff_ne.mpr hcolon]
    exact if_neg Bool.false_ne_true
  | cons c cs ih =>
    have hnext : ((cs ++ d :: rest).take 1).any isNameStart = (cs.take 1).any isNameStart := by
      cases cs with
      | nil => simp [hstart]
      | cons c' cs => rfl
    rw [List.cons_append, nameRest, nameRest, ih, hnext]

/-! ## Tokens of a name -/

theorem prefix_of_tokensFrom (h : tokensFrom skip done cs = .ok ts) : done.reverse <+: ts := by
  fun_induction tokensFrom skip done cs with
  | case1 skip done =>
    cases h
    exact List.prefix_refl _
  | case2 skip done c cs ih => exact ih h
  | case3 done c cs _ ih => exact ih h
  | case4 done c cs _ t width _ ih =>
    rw [List.reverse_cons] at ih
    exact (List.prefix_append _ _).trans (ih h)
  | case5 => cases h

/-- No name is longer than the text that it is read from. -/
theorem length_of_mem_tokensFrom (h : tokensFrom skip done cs = .ok ts) (ht : .name s ∈ ts) :
    .name s ∈ done ∨ s.length ≤ cs.length := by
  fun_induction tokensFrom skip done cs with
  | case1 skip done =>
    cases h
    exact .inl (List.mem_reverse.mp ht)
  | case2 skip done c cs ih => exact (ih h).imp_right Nat.le_succ_of_le
  | case3 done c cs _ ih => exact (ih h).imp_right Nat.le_succ_of_le
  | case4 done c cs _ t width hfront ih =>
    rcases ih h with hmem | hle
    · rcases List.mem_cons.mp hmem with rfl | hmem
      · have hname := front_of_isNameStart (isNameStart_of_front hfront) cs
        rw [hfront] at hname
        cases hname
        refine .inr ?_
        rw [String.length_ofList]
        exact Nat.succ_le_succ (length_nameRest_le cs)
      · exact .inl hmem
    · exact .inr (Nat.le_succ_of_le hle)
  | case5 => cases h

/-- A text that is read as the one name that it is. -/
theorem exists_of_tokens_name (h : tokens tag = .ok [.name tag]) :
    ∃ c cs, tag.toList = c :: cs ∧ Text.isBlank c = false ∧ isNameStart c ∧ nameRest cs = cs := by
  rw [tokens] at h
  cases hlist : tag.toList with
  | nil =>
    rw [hlist] at h
    cases h
  | cons c cs =>
    rw [hlist, tokensFrom] at h
    split at h
    · -- Behind a blank there is not enough text for the name.
      have hle := (length_of_mem_tokensFrom h (List.mem_singleton_self _)).resolve_left
        List.not_mem_nil
      rw [← String.length_toList, hlist] at hle
      exact absurd hle (Nat.not_succ_le_self _)
    · rename_i hblank
      split at h
      · rename_i t width hfront
        have hprefix := prefix_of_tokensFrom h
        obtain rfl : t = .name tag := by simpa using hprefix
        have hstart := isNameStart_of_front hfront
        rw [front_of_isNameStart hstart] at hfront
        have hname := congrArg String.toList (Token.name.inj (Prod.ext_iff.mp (Except.ok.inj hfront)).1)
        rw [String.toList_ofList, hlist] at hname
        exact ⟨c, cs, rfl, by simpa using hblank, hstart, (List.cons.inj hname).2⟩
      · cases h

/-! ## Tokens of a name with a position -/

theorem tokensFrom_append (done : List Token) (cs rest : List Char) :
    tokensFrom cs.length done (cs ++ rest) = tokensFrom 0 done rest := by
  induction cs with
  | nil => rfl
  | cons c cs ih => exact ih

/-- One token is read, and then the tokens behind it. -/
theorem tokensFrom_cons (hblank : Text.isBlank c = false)
    (hfront : front c (cs ++ rest) = .ok (t, (c :: cs).length)) :
    tokensFrom 0 done (c :: (cs ++ rest)) = tokensFrom 0 (t :: done) rest := by
  rw [tokensFrom, hblank, hfront]
  exact tokensFrom_append (t :: done) cs rest

theorem front_of_isDigit (hdigits : ∀ d ∈ c :: cs, Text.isDigit d) {x : Binary64}
    (hx : Decimal.number? (c :: cs) = some x) (hd : isNumberPart d = false) (rest : List Char) :
    front c (cs ++ d :: rest) = .ok (.number x, (c :: cs).length) := by
  have hparts : ∀ d ∈ c :: cs, isNumberPart d := by
    intro d hd
    rw [isNumberPart, hdigits d hd, Bool.true_or]
  have hword : (c :: (cs ++ d :: rest)).takeWhile isNumberPart = c :: cs := by
    rw [← List.cons_append, List.takeWhile_append_of_pos hparts,
      List.takeWhile_cons_of_neg (by rw [hd]; exact Bool.false_ne_true), List.append_nil]
  have hsigns := not_mem_signs (by decide) (hdigits c List.mem_cons_self)
  rw [front_of_not_mem_signs hsigns, if_pos (hparts c List.mem_cons_self)]
  dsimp only
  rw [hword, hx]
  rfl

theorem isBlank_of_isDigit (hc : Text.isDigit c) : Text.isBlank c = false := by
  have every : ("0123456789.".toList.all fun d => !Text.isBlank d) = true := by decide
  have hnot := List.all_eq_true.mp every c (mem_of_isPlainDigit (.inl hc))
  simpa using hnot

/-- The text of the child of a name at a position. -/
def childText (tag : String) (n : Nat) : String := tag ++ "[" ++ toString n ++ "]"

theorem tokens_childText (htag : tokens tag = .ok [.name tag]) (hn : 0 < n)
    (hlt : n < Binary64.significandEnd) :
    tokens (childText tag n) = .ok [.name tag, .openBracket, .number (.ofNat n), .closeBracket] := by
  obtain ⟨c, cs, hlist, hblank, hstart, hname⟩ := exists_of_tokens_name htag
  obtain ⟨d, ds, hdigits⟩ := List.exists_cons_of_ne_nil (Nat.toDigits_ne_nil (b := 10) (n := n))
  have hnumber := Decimal.number?_toDigits hn hlt
  have hall : ∀ e ∈ Nat.toDigits 10 n, Text.isDigit e := fun e => Decimal.isDigit_of_mem_toDigits
  rw [hdigits] at hnumber hall
  have htext : (childText tag n).toList = c :: (cs ++ '[' :: ([] ++ d :: (ds ++ [']']))) := by
    simp [childText, hlist, hdigits]
  have hfirst : front c (cs ++ '[' :: ([] ++ d :: (ds ++ [']']))) =
      .ok (.name tag, (c :: cs).length) := by
    rw [front_of_isNameStart hstart, nameRest_append (by decide) (by decide) (by decide), hname,
      ← hlist, String.ofList_toList, hlist]
  rw [tokens, htext, tokensFrom_cons hblank hfirst, tokensFrom_cons (by decide) rfl]
  rw [tokensFrom_cons (isBlank_of_isDigit (hall d List.mem_cons_self))
    (front_of_isDigit hall hnumber (by decide) [])]
  rfl

/-- The expression is a step to the children of the name, with the number for a predicate. -/
theorem read_childText (htag : tokens tag = .ok [.name tag]) (hn : 0 < n)
    (hlt : n < Binary64.significandEnd) :
    read (childText tag n) = .ok (.path false [.along .child (.name tag) [.number (.ofNat n)]]) := by
  rw [read, tokens_childText htag hn hlt]
  rfl

/-! ## Predicates that are numbers -/

/-- A number that equals no position but `n` keeps the node there. -/
theorem keepFrom_number {x : Binary64}
    (hx : ∀ position, 0 < position → (x.equal (.ofNat position) ↔ n = position))
    (size before : Nat) (items : List Item) :
    keepFrom (fun _ => .ok (.number x)) size before items =
      .ok (if before < n then items[n - (before + 1)]?.toList else []) := by
  induction items generalizing before with
  | nil => simp [keepFrom]
  | cons item items ih =>
    have hkeeps : keeps (before + 1) (.number x) = decide (n = before + 1) :=
      Bool.eq_iff_iff.mpr ((hx (before + 1) (Nat.succ_pos _)).trans (decide_eq_true_iff).symm)
    rw [keepFrom, ih]
    show Except.ok (if keeps (before + 1) (.number x) then _ else _) = _
    rw [hkeeps]
    by_cases hhere : n = before + 1
    · subst hhere
      simp
    · by_cases hbefore : before < n
      · have hindex : n - (before + 1) = n - (before + 1 + 1) + 1 := by omega
        simp [hhere, hbefore, hindex, show before + 1 < n by omega]
      · simp [hhere, hbefore, show ¬ before + 1 < n by omega]

/-! ## Children -/

/-- A step to the children of a name leads to those that are looked through by their numbers. -/
theorem children_of_name (d : Document) (id : NodeId) (tag : String) :
    (alongAxis (View.of d id).document .child (.node id)).filter (passes (.of d id) (.name tag)) =
      (d.named id tag).map .node := by
  have htest (c : NodeId) : passes (.of d id) (.name tag) (.node c) =
      (d.isElement c && d.name? c == some tag) := by
    have hsame : (View.of d id).document.kind? c = d.kind? c := rfl
    unfold passes Document.isElement Document.name? Document.element?
    dsimp only
    rw [hsame]
    rcases d.kind? c with _ | kind
    · rfl
    · cases kind <;> simp
  show ((d.children id).map Item.node).filter _ = _
  rw [List.filter_map, Document.named, Document.elementChildren, List.filter_filter]
  refine congrArg (List.map Item.node) (List.filter_congr fun c _ => ?_)
  rw [Function.comp_apply, htest, Bool.and_comm]

/-- A child is found by its name and its number if and only if the expression of this name with the
number in brackets selects it and nothing else.  If there is no such child, the expression selects
nothing.  It is read and evaluated in any case. -/
theorem child_positions_agree (d : Document) (id : NodeId) (htag : tokens tag = .ok [.name tag])
    (hn : 1 ≤ n) (hlt : n < 2 ^ 53) :
    ∃ ids, selectElements d id (tag ++ "[" ++ toString n ++ "]") = .ok ids ∧
      (∀ c, d.nthChild? id tag n = some c ↔ ids = [c]) ∧
      (d.nthChild? id tag n = none ↔ ids = []) := by
  have hlt : n < Binary64.significandEnd := hlt
  let found := d.nthChild? id tag n
  have hfound : found = (d.named id tag)[n - 1]? := by
    show d.nthChild? id tag n = _
    rw [Document.nthChild?_eq, if_neg (by omega)]
  have hkept : evalPredicates (.of d id) [.number (.ofNat n)] ((d.named id tag).map .node) =
      .ok (found.toList.map .node) := by
    have hkeep := keepFrom_number (fun position => Binary64.equal_ofNat_iff hn hlt)
      ((d.named id tag).map Item.node).length 0 ((d.named id tag).map .node)
    rw [if_pos (by omega), Nat.zero_add, List.getElem?_map, ← hfound] at hkeep
    show (keepFrom (fun _ => .ok (.number (.ofNat n))) _ 0 _ >>= _) = _
    rw [hkeep]
    cases found <;> rfl
  have hvalue := evaluate_step (read_childText htag hn hlt) (children_of_name d id tag ▸ hkept)
  have hordered : (View.of d id).inOrder (found.toList.map .node) = found.toList.map .node :=
    Sees.inOrder_eq_self _ (by cases found <;> simp) (by cases found <;> simp)
  have hselect : selectElements d id (tag ++ "[" ++ toString n ++ "]") = .ok found.toList := by
    rw [hordered] at hvalue
    rw [selectElements]
    show (evaluate d id (childText tag n) >>= _) = _
    rw [hvalue]
    cases hc : found with
    | none => rfl
    | some c =>
      have helement := Document.isElement_of_nthChild? hc
      simp [helement]
  refine ⟨found.toList, hselect, fun c => ?_, ?_⟩
  · show found = some c ↔ _
    cases found <;> simp
  · show found = none ↔ _
    cases found <;> simp

/-- The second child of a name that is an operator elsewhere. -/
theorem child_positions_agree_on_operator :
    let element (name : String) : Xml.NodeKind := .element ⟨name, []⟩
    let first := (Document.empty.push 0 (element "r")).push 1 (element "or")
    let d := (first.push 1 (.text "x")).push 1 (element "or")
    tokens "or" = .ok [.name "or"] ∧ d.nthChild? 1 "or" 2 = some 4 ∧
      selectElements d 1 ("or" ++ "[" ++ toString 2 ++ "]") = .ok [4] := by
  intro element first d
  have htag : tokens "or" = .ok [.name "or"] := by decide +kernel
  have hchild : d.nthChild? 1 "or" 2 = some 4 := by decide
  obtain ⟨ids, hids, hsome, -⟩ := child_positions_agree d 1 htag (n := 2) (by decide) (by decide)
  rw [(hsome 4).mp hchild] at hids
  exact ⟨htag, hchild, hids⟩

end PatchScript.XPath
