import PatchScript.Proofs.Xml.Settings

/-!
# Documents that grow

Attributes that are set and elements that are appended let a document grow: no child is lost, and
new children come last.  So a child that is found by its name and its number is found by them
ever after (`Document.Grows.nthChild?`), and an element that is appended as the next one of its
name has the next number (`Document.nthChild?_push`).
-/

namespace PatchScript.Xml

/-- The name that an element has. -/
def NodeKind.name? : NodeKind → Option String
  | .element e => some e.name
  | _ => none

@[simp] theorem NodeKind.name?_bare (kind : NodeKind) : kind.bare.name? = kind.name? := by
  cases kind <;> rfl

namespace Document

variable {a b c d d' : Document}

theorem name?_eq (d : Document) (id : NodeId) : d.name? id = (d.kind? id).bind NodeKind.name? := by
  rw [name?, element?]
  rcases d.kind? id with _ | kind
  · rfl
  · cases kind <;> rfl

/-- The second document comes from the first one without anything being taken away. -/
structure Grows (d d' : Document) : Prop extends d.Evolves d' where
  /-- The document started with the same element. -/
  root : d'.root = d.root
  /-- No child is lost, and new children come last. -/
  added {id : NodeId} : id < d.nodes.size → d.children id <+: d'.children id

namespace Grows

theorem refl (d : Document) : d.Grows d where
  toEvolves := .refl d
  root := rfl
  added _ := List.prefix_refl _

theorem trans (hab : a.Grows b) (hbc : b.Grows c) : a.Grows c where
  toEvolves := hab.toEvolves.trans hbc.toEvolves
  root := hbc.root.trans hab.root
  added hid := (hab.added hid).trans (hbc.added (Nat.lt_of_lt_of_le hid hab.size))

theorem modifyAttributes (d : Document) (id : NodeId) (f : Attributes → Attributes) :
    d.Grows (d.modifyAttributes id f) where
  toEvolves := .modifyAttributes d id f
  root := rfl
  added _ := by
    rewrite [children_modifyAttributes]
    exact List.prefix_refl _

theorem set (d : Document) (p : Setting) : d.Grows (d.set p) := modifyAttributes d p.id _

theorem setAll : ∀ (ps : List Setting) (d : Document), d.Grows (d.setAll ps)
  | [], d => .refl d
  | p :: ps, d => (set d p).trans (setAll ps (d.set p))

theorem push (d : Document) (parent : NodeId) (kind : NodeKind) :
    d.Grows (d.push parent kind) where
  toEvolves := .push d parent kind
  root := rfl
  added {id} hid := by
    rw [children_push_of_lt kind hid]
    split
    · exact List.prefix_append _ _
    · exact List.prefix_refl _

theorem name? (h : d.Grows d') {id : NodeId} (hid : id < d.nodes.size) :
    d'.name? id = d.name? id := by
  have bare (d : Document) :
      d.name? id = ((d.kind? id).map NodeKind.bare).bind NodeKind.name? := by
    rw [name?_eq]
    cases d.kind? id <;> simp
  rw [bare, bare, h.kind hid]

theorem isElement (h : d.Grows d') {id : NodeId} (hid : id < d.nodes.size) :
    d'.isElement id = d.isElement id := by
  have name (d : Document) : d.isElement id = (d.name? id).isSome := by
    rw [Document.isElement, Document.name?, Option.isSome_map]
  rw [name, name, h.name? hid]

end Grows

/-! ## Children of a name -/

/-- The children that are elements of the name. -/
def named (d : Document) (id : NodeId) (tag : String) : List NodeId :=
  (d.elementChildren id).filter fun c => d.name? c == some tag

theorem nthChild?_eq (d : Document) (id : NodeId) (tag : String) (n : Nat) :
    d.nthChild? id tag n = if n = 0 then none else (d.named id tag)[n - 1]? := rfl

theorem lt_size_of_isElement {id : NodeId} (h : d.isElement id) : id < d.nodes.size := by
  obtain ⟨e, he⟩ := isElement_iff.mp h
  exact lt_size_of_kind? he

/-- What is an element stays one. -/
theorem Grows.isElement_of (h : d.Grows d') {id : NodeId} (hid : d.isElement id) :
    d'.isElement id := by
  rw [h.isElement (lt_size_of_isElement hid), hid]

theorem mem_named {id c : NodeId} {tag : String} (h : c ∈ d.named id tag) :
    c ∈ d.children id ∧ d.isElement c := by
  have h := (List.mem_filter.mp h).1
  exact List.mem_filter.mp h

/-- A child that is found by its number is an element, made after its parent. -/
theorem nthChild?_spec (hd : d.Linked) {id c : NodeId} {tag : String} {n : Nat}
    (h : d.nthChild? id tag n = some c) : d.isElement c ∧ id < c := by
  rw [nthChild?_eq] at h
  split at h
  · cases h
  · obtain ⟨hchild, helement⟩ := mem_named (List.mem_of_getElem? h)
    exact ⟨helement, hd.lt (hd.mem_children.mp hchild)⟩

/-- When a document grows, the children of a name are those that it had, and the new ones behind
them. -/
theorem Grows.named_eq (h : d.Grows d') (hd : d.Linked) {id : NodeId} (tag : String)
    {new : List NodeId} (hnew : d'.children id = d.children id ++ new) :
    d'.named id tag =
      d.named id tag ++ (new.filter d'.isElement).filter fun c => d'.name? c == some tag := by
  have old : (d.children id).filter d'.isElement = d.elementChildren id := by
    refine List.filter_congr fun c hc => ?_
    exact h.isElement (lt_size_of_parent? (hd.mem_children.mp hc))
  have same : (d.elementChildren id).filter (fun c => d'.name? c == some tag) =
      d.named id tag := by
    refine List.filter_congr fun c hc => ?_
    rw [h.name? (lt_size_of_parent? (hd.mem_children.mp (List.mem_filter.mp hc).1))]
  rw [Document.named, Document.elementChildren, hnew, List.filter_append, List.filter_append, old,
    same]

/-- A child that is found by its name and its number is found by them ever after. -/
theorem Grows.nthChild? (h : d.Grows d') (hd : d.Linked) {id c : NodeId}
    (hid : id < d.nodes.size) {tag : String} {n : Nat} (hc : d.nthChild? id tag n = some c) :
    d'.nthChild? id tag n = some c := by
  obtain ⟨new, hnew⟩ := h.added hid
  rw [nthChild?_eq] at hc ⊢
  split at hc
  · cases hc
  · rw [if_neg (by assumption), h.named_eq hd tag hnew.symm]
    rw [List.getElem?_append_left (List.getElem?_eq_some_iff.mp hc).1]
    exact hc

/-! ## The next child of a name -/

/-- Is the place of this number among the children of the name filled, or the next one to be
filled? -/
def HasPlace (d : Document) (id : NodeId) (tag : String) (n : Nat) : Prop :=
  1 < n → (d.nthChild? id tag (n - 1)).isSome

/-- A child that is found has its place. -/
theorem HasPlace.of_nthChild? {id c : NodeId} {tag : String} {n : Nat}
    (h : d.nthChild? id tag n = some c) : d.HasPlace id tag n := by
  intro hn
  rw [nthChild?_eq, if_neg (by omega)] at h
  have hlt := (List.getElem?_eq_some_iff.mp h).1
  rw [nthChild?_eq, if_neg (by omega), isSome_getElem?]
  omega

theorem named_push (hd : d.Linked) {id : NodeId} (hid : id < d.nodes.size) (tag : String) :
    (d.push id (.element ⟨tag, []⟩)).named id tag = d.named id tag ++ [d.nodes.size] := by
  have hnew : (d.push id (.element ⟨tag, []⟩)).children id = d.children id ++ [d.nodes.size] := by
    rw [children_push_of_lt _ hid, if_pos rfl]
  have added : (d.push id (.element ⟨tag, []⟩)).element? d.nodes.size = some ⟨tag, []⟩ := by
    rw [element?, kind?_push, if_pos rfl]
  rw [(Grows.push d id _).named_eq hd tag hnew]
  simp [isElement, name?, added]

/-- An element that is appended where a place is to be filled next fills it. -/
theorem nthChild?_push (hd : d.Linked) {id : NodeId} (hid : id < d.nodes.size) {tag : String}
    {n : Nat} (hn : 1 ≤ n) (hplace : d.HasPlace id tag n) (hnone : d.nthChild? id tag n = none) :
    (d.push id (.element ⟨tag, []⟩)).nthChild? id tag n = some d.nodes.size := by
  have hle : (d.named id tag).length ≤ n - 1 := by
    rw [nthChild?_eq, if_neg (Nat.ne_of_gt hn)] at hnone
    exact List.getElem?_eq_none_iff.mp hnone
  have hge : n - 1 ≤ (d.named id tag).length := by
    rcases Nat.lt_or_eq_of_le hn with hlt | rfl
    · have hbefore := hplace hlt
      rw [nthChild?_eq, if_neg (by omega), isSome_getElem?] at hbefore
      omega
    · exact Nat.zero_le _
  rw [nthChild?_eq, if_neg (Nat.ne_of_gt hn), named_push hd hid, Nat.le_antisymm hge hle]
  exact List.getElem?_concat_length

end Document

end PatchScript.Xml
