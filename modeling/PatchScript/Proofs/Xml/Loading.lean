import PatchScript.Proofs.Xml.Arena
import PatchScript.Proofs.Xml.Attributes
import PatchScript.Proofs.Xml.Resolving
import PatchScript.Proofs.Xml.Scanning

/-!
# Documents that are read are sound

A document is sound if its texts consist of characters of XML, its comments can stand in a
document and its names are valid.  A document that is read is sound (`Document.sound_of_read`):
texts and comments come from sound pieces, and elements and attributes are only made with valid
names.  Whatever is changed in a sound document, it stays sound.
-/

namespace PatchScript.Xml

/-! ## Nesting -/

/-- Do the texts of the content consist of characters of XML, and can the comments stand in a
document? -/
inductive Raw.Sound : Raw → Prop where
  | element {tag : Tag} {children : List Raw} : (∀ r ∈ children, Raw.Sound r) →
    Raw.Sound (.element tag children)
  | text {content : String} : content.toList.all isXmlChar → Raw.Sound (.text content)
  | comment {content : String} : isCommentText content.toList → Raw.Sound (.comment content)
  | instruction : Raw.Sound .instruction

/-- Is the content so far of the element sound? -/
def OpenElement.Sound (e : OpenElement) : Prop := ∀ r ∈ e.children, r.Sound

theorem OpenElement.Sound.add {e : OpenElement} (h : e.Sound) {r : Raw} (hr : r.Sound) :
    (e.add r).Sound := by
  rw [OpenElement.Sound] at h ⊢
  unfold OpenElement.add
  split
  · rename_i s before rest hchildren
    rw [hchildren] at h
    obtain ⟨hbefore, hrest⟩ := List.forall_mem_cons.mp h
    refine List.forall_mem_cons.mpr ⟨.text ?_, hrest⟩
    cases hbefore with
    | text hbefore =>
      cases hr with
      | text hs => rw [String.toList_append, List.all_append, hbefore, hs, Bool.and_self]
  · exact List.forall_mem_cons.mpr ⟨hr, h⟩

theorem OpenElement.Sound.close {e : OpenElement} (h : e.Sound) : e.close.Sound :=
  .element fun r hr => h r (List.mem_reverse.mp hr)

/-- Is the content an element? -/
def Raw.IsElement : Raw → Prop
  | .element .. => True
  | _ => False

/-- All is sound that has been nested so far. -/
structure NestedSound (root : Option Raw) (stack : List OpenElement) : Prop where
  /-- The root is, if there is one, and it is an element. -/
  root : ∀ r ∈ root, r.Sound ∧ r.IsElement
  /-- The open elements are. -/
  stack : ∀ e ∈ stack, e.Sound

section

variable {root root' : Option Raw} {stack stack' : List OpenElement} {r : Raw}

theorem NestedSound.nil : NestedSound none [] :=
  ⟨nofun, fun _ he => absurd he List.not_mem_nil⟩

theorem NestedSound.add {e : OpenElement} (h : NestedSound root (e :: stack)) (hr : r.Sound) :
    NestedSound root (e.add r :: stack) := by
  obtain ⟨he, hrest⟩ := List.forall_mem_cons.mp h.stack
  exact ⟨h.root, List.forall_mem_cons.mpr ⟨he.add hr, hrest⟩⟩

theorem NestedSound.handOver (h : NestedSound root stack) (hr : r.Sound) (helement : r.IsElement)
    (hnested : handOver root stack r = .ok (root', stack')) : NestedSound root' stack' := by
  unfold Xml.handOver at hnested
  split at hnested
  · cases hnested
    exact h.add hr
  · cases hnested
    refine ⟨fun r' hr' => ?_, fun _ he => absurd he List.not_mem_nil⟩
    cases hr'
    exact ⟨hr, helement⟩
  · cases hnested

/-- A sound piece keeps what has been nested sound. -/
theorem NestedSound.piece {p : Piece} (h : NestedSound root stack) (hp : p.Sound)
    (hnested : nestPiece root stack p = .ok (root', stack')) : NestedSound root' stack' := by
  unfold nestPiece at hnested
  split at hnested
  · exact h.handOver (.element fun _ hr => absurd hr List.not_mem_nil) trivial hnested
  · split at hnested
    · cases hnested
    · cases hnested
      exact ⟨h.root, List.forall_mem_cons.mpr ⟨fun _ hr => absurd hr List.not_mem_nil, h.stack⟩⟩
  · obtain ⟨he, hrest⟩ := List.forall_mem_cons.mp h.stack
    split at hnested
    · exact NestedSound.handOver ⟨h.root, hrest⟩ he.close trivial hnested
    · cases hnested
  · cases hnested
  · obtain ⟨s, hs, hnested⟩ := bind_eq_ok hnested
    cases hnested
    exact h.add (.text (isXmlChar_of_textOf hp hs))
  · split at hnested
    · cases hnested
      exact h
    · cases hnested
  · cases hnested
    exact h.add (.text (isXmlChar_of_cdataOf hp))
  · cases hnested
  · cases hnested
    exact h.add (.comment hp)
  · cases hnested
    exact h
  · cases hnested
    exact h.add .instruction
  · cases hnested
    exact h

/-- What each piece keeps of the root and the open elements holds of the root in the end. -/
theorem nestFrom_keeps {P : Option Raw → List OpenElement → Prop} {Q : Piece → Prop}
    (hstep : ∀ {root root' stack stack' p}, Q p → P root stack →
      nestPiece root stack p = .ok (root', stack') → P root' stack') :
    ∀ {ps : List Piece} {root : Option Raw} {stack : List OpenElement}, (∀ p ∈ ps, Q p) →
    P root stack → nestFrom root stack ps = .ok r → P (some r) [] := by
  intro ps
  induction ps with
  | nil =>
    intro root stack _ h hr
    cases root with
    | none => cases stack <;> cases hr
    | some root =>
      cases stack with
      | nil =>
        cases hr
        exact h
      | cons e stack => cases hr
  | cons p ps ih =>
    intro root stack hps h hr
    obtain ⟨hp, hrest⟩ := List.forall_mem_cons.mp hps
    rw [nestFrom_cons] at hr
    obtain ⟨⟨root', stack'⟩, hnested, hr⟩ := bind_eq_ok hr
    exact ih hrest (hstep hp h hnested) hr

/-- Sound pieces nest to an element that is sound. -/
theorem NestedSound.pieces {ps : List Piece} (h : NestedSound root stack)
    (hps : ∀ p ∈ ps, p.Sound) (hr : nestFrom root stack ps = .ok r) : r.Sound ∧ r.IsElement :=
  (nestFrom_keeps (fun hp h => h.piece hp) hps h hr).root r rfl

end

/-! ## Resolving -/

theorem allSound_iff {ts : List Tree} : AllSound ts ↔ ∀ t ∈ ts, t.Sound := by
  induction ts with
  | nil => exact ⟨fun _ _ ht => absurd ht List.not_mem_nil, fun _ => trivial⟩
  | cons t ts ih => rw [AllSound, List.forall_mem_cons, ih]

/-- A tag and what is behind it resolve to one element, whose attributes are set one after the
other. -/
theorem exists_of_resolve_element {outer : Scope} {tag : Tag} {rs : List Raw} {ts : List Tree}
    (h : resolve outer (.element tag rs) = .ok ts) :
    ∃ (inner : Scope) (name : String) (written : Attributes) (children : List Tree),
      resolveAll inner rs = .ok children ∧ ts = [.element name (written.putAll []) children] := by
  rw [resolve] at h
  obtain ⟨⟨own, others⟩, -, h⟩ := bind_eq_ok h
  obtain ⟨name, -, h⟩ := bind_eq_ok h
  obtain ⟨attributes, -, h⟩ := bind_eq_ok h
  obtain ⟨children, hchildren, h⟩ := bind_eq_ok h
  cases h
  exact ⟨_, _, _, children, hchildren, rfl⟩

mutual

theorem resolve_sound : ∀ (outer : Scope) (r : Raw) {ts : List Tree}, r.Sound →
    resolve outer r = .ok ts → ∀ t ∈ ts, t.Sound
  | outer, .element tag rs, ts, hr, h => by
    obtain ⟨inner, name, written, children, hchildren, rfl⟩ := exists_of_resolve_element h
    cases hr with
    | element hsound =>
      exact List.forall_mem_singleton.mpr
        (allSound_iff.mpr (resolveAll_sound inner rs hsound hchildren))
  | outer, .text content, ts, hr, h => by
    cases hr with
    | text hcontent =>
      rw [resolve] at h
      split at h
      · cases h
        exact fun _ ht => absurd ht List.not_mem_nil
      · cases h
        exact List.forall_mem_singleton.mpr hcontent
  | outer, .comment content, ts, hr, h => by
    cases hr with
    | comment hcontent =>
      cases h
      exact List.forall_mem_singleton.mpr hcontent
  | outer, .instruction, ts, hr, h => by
    cases h
    exact fun _ ht => absurd ht List.not_mem_nil

/-- Sound content resolves to sound trees. -/
theorem resolveAll_sound : ∀ (outer : Scope) (rs : List Raw) {ts : List Tree},
    (∀ r ∈ rs, r.Sound) → resolveAll outer rs = .ok ts → ∀ t ∈ ts, t.Sound
  | outer, [], ts, _, h => by
    cases h
    exact fun _ ht => absurd ht List.not_mem_nil
  | outer, r :: rs, ts, hrs, h => by
    rw [resolveAll] at h
    obtain ⟨ts₁, h₁, h⟩ := bind_eq_ok h
    obtain ⟨ts₂, h₂, h⟩ := bind_eq_ok h
    cases h
    obtain ⟨hr, hrest⟩ := List.forall_mem_cons.mp hrs
    exact List.forall_mem_append.mpr
      ⟨resolve_sound outer r hr h₁, resolveAll_sound outer rs hrest h₂⟩

end

/-- Is the tree an element? -/
def Tree.IsElement : Tree → Prop
  | .element .. => True
  | _ => False

/-- An element resolves to an element. -/
theorem resolve_isElement {outer : Scope} {r : Raw} {ts : List Tree} (hr : r.IsElement)
    (h : resolve outer r = .ok ts) : ∀ t ∈ ts, t.IsElement := by
  cases r with
  | text | comment | instruction => cases hr
  | element tag rs =>
    obtain ⟨inner, name, written, children, -, rfl⟩ := exists_of_resolve_element h
    exact List.forall_mem_singleton.mpr trivial

/-- The tree that is read from a source is sound, and has elements at the top. -/
theorem readTree_sound {source : String} {t : Tree} (h : readTree source = .ok t) :
    ∃ ts, t = .document ts ∧ AllSound ts ∧ ∀ t ∈ ts, t.IsElement := by
  obtain ⟨ps, hps, h⟩ := bind_eq_ok h
  obtain ⟨r, hr, h⟩ := bind_eq_ok h
  obtain ⟨ts, hts, h⟩ := bind_eq_ok h
  cases h
  obtain ⟨hsound, helement⟩ := NestedSound.nil.pieces (pieces_sound hps) hr
  exact ⟨ts, rfl, allSound_iff.mpr (resolve_sound [] r hsound hts), resolve_isElement helement hts⟩

/-! ## Documents -/

/-- Can the node be written, as far as it alone is concerned? -/
def NodeKind.Sound : NodeKind → Prop
  | .document => True
  | .element e => isValidName e.name ∧ ∀ a ∈ e.attributes, isValidName a.1
  | .text content => content.toList.all isXmlChar
  | .comment content => isCommentText content.toList

/-- The node with the attributes changed, if it is an element. -/
def NodeKind.mapAttributes (f : Attributes → Attributes) : NodeKind → NodeKind
  | .element e => .element { e with attributes := f e.attributes }
  | kind => kind

namespace Document

/-- Can all nodes be written, as far as each alone is concerned? -/
def Sound (d : Document) : Prop := ∀ id kind, d.kind? id = some kind → kind.Sound

theorem kind?_push (d : Document) (parent : NodeId) (kind : NodeKind) (id : NodeId) :
    (d.push parent kind).kind? id = if id = d.nodes.size then some kind else d.kind? id := by
  unfold push kind?
  simp only [Array.getElem?_modify, Array.getElem?_push]
  by_cases hid : id = d.nodes.size
  · subst hid
    by_cases hparent : parent = d.nodes.size <;> simp [hparent]
  · by_cases hparent : parent = id
    · subst hparent
      cases d.nodes[parent]? <;> simp [hid]
    · simp [hid, hparent]

theorem kind?_modifyAttributes (d : Document) (id : NodeId) (f : Attributes → Attributes)
    (c : NodeId) : (d.modifyAttributes id f).kind? c =
      if id = c then (d.kind? c).map (·.mapAttributes f) else d.kind? c := by
  unfold modifyAttributes kind?
  rw [Array.getElem?_modify]
  split
  · cases d.nodes[c]? with
    | none => rfl
    | some n => cases hk : n.kind <;> simp [hk, NodeKind.mapAttributes]
  · rfl

theorem kind?_detach (d : Document) (id c : NodeId) : (d.detach id).kind? c = d.kind? c := by
  rw [detach]
  split
  · rfl
  · unfold kind?
    simp only [Array.getElem?_modify]
    cases d.nodes[c]? with
    | none => simp
    | some n => split <;> split <;> simp

theorem Sound.push {d : Document} (h : d.Sound) {kind : NodeKind} (hkind : kind.Sound)
    (parent : NodeId) : (d.push parent kind).Sound := by
  intro id kind' hid
  rw [kind?_push] at hid
  split at hid
  · cases hid
    exact hkind
  · exact h id kind' hid

theorem Sound.modifyAttributes {d : Document} (h : d.Sound) (id : NodeId)
    {f : Attributes → Attributes}
    (hf : ∀ as, (∀ a ∈ as, isValidName a.1) → ∀ a ∈ f as, isValidName a.1) :
    (d.modifyAttributes id f).Sound := by
  intro c kind hc
  rw [kind?_modifyAttributes] at hc
  split at hc
  · obtain ⟨kind', hkind', rfl⟩ := Option.map_eq_some_iff.mp hc
    have hsound := h c kind' hkind'
    cases kind' with
    | element e => exact ⟨hsound.1, hf e.attributes hsound.2⟩
    | document | text | comment => exact hsound
  · exact h c kind hc

theorem Sound.detach {d : Document} (h : d.Sound) (id : NodeId) : (d.detach id).Sound := by
  intro c kind hc
  rw [kind?_detach] at hc
  exact h c kind hc

theorem isValidName_of_checkName {name : String} {u : Unit} (h : checkName name = .ok u) :
    isValidName name := by
  rw [checkName] at h
  split at h
  · assumption
  · cases h

theorem Sound.setAttribute {d d' : Document} (h : d.Sound) {id : NodeId} {name value : String}
    (hset : d.setAttribute id name value = .ok d') : d'.Sound := by
  obtain ⟨u, hname, hset⟩ := bind_eq_ok hset
  cases hset
  refine h.modifyAttributes id fun as has a ha => ?_
  rcases Attributes.mem_put ha with rfl | ha
  · exact isValidName_of_checkName hname
  · exact has a ha

theorem Sound.removeAttribute {d : Document} (h : d.Sound) (id : NodeId) (name : String) :
    (d.removeAttribute id name).Sound :=
  h.modifyAttributes id fun as has a ha => has a ((Attributes.erase_sublist name as).subset ha)

theorem Sound.appendElement {d d' : Document} (h : d.Sound) {parent id : NodeId} {name : String}
    (happend : d.appendElement parent name = .ok (d', id)) : d'.Sound := by
  obtain ⟨u, hname, happend⟩ := bind_eq_ok happend
  cases happend
  have helement : NodeKind.Sound (.element ⟨name, []⟩) :=
    ⟨isValidName_of_checkName hname, fun _ ha => absurd ha List.not_mem_nil⟩
  exact h.push helement parent

/-- A document keeps `P` through each operation with which a tree is added to it, where `Q` is
known of the tree and of all trees in it. -/
structure KeptByAdding (P : Document → Prop) (Q : Tree → Prop) : Prop where
  /-- An element is appended. -/
  appendElement {d d' : Document} {parent id : NodeId} {name : String} :
    P d → d.appendElement parent name = .ok (d', id) → P d'
  /-- An attribute is set. -/
  setAttribute {d d' : Document} {id : NodeId} {name value : String} :
    P d → d.setAttribute id name value = .ok d' → P d'
  /-- A text is appended. -/
  text {d : Document} {parent : NodeId} {content : String} :
    P d → Q (.text content) → P (d.push parent (.text content))
  /-- A comment is appended. -/
  comment {d : Document} {parent : NodeId} {content : String} :
    P d → Q (.comment content) → P (d.push parent (.comment content))
  /-- What is known of an element is known of what is in it. -/
  element {name : String} {attributes : Attributes} {children : List Tree} :
    Q (.element name attributes children) → ∀ t ∈ children, Q t
  /-- It is not known of documents. -/
  document {children : List Tree} : ¬Q (.document children)

namespace KeptByAdding

variable {P : Document → Prop} {Q : Tree → Prop}

theorem setAttributes (h : KeptByAdding P Q) {id : NodeId} : ∀ (attributes : Attributes)
    {d d' : Document}, P d →
    attributes.foldlM (fun d a => d.setAttribute id a.1 a.2) d = .ok d' → P d' := by
  intro attributes
  induction attributes with
  | nil =>
    intro d d' hd hset
    cases hset
    exact hd
  | cons a attributes ih =>
    intro d d' hd hset
    rw [List.foldlM_cons] at hset
    obtain ⟨d₁, hfirst, hset⟩ := bind_eq_ok hset
    exact ih (h.setAttribute hd hfirst) hset

mutual

theorem append (h : KeptByAdding P Q) : ∀ (t : Tree) {d d' : Document} {parent : NodeId}, P d →
    Q t → d.append parent t = .ok d' → P d'
  | .document _, _, _, _, _, ht, _ => absurd ht h.document
  | .text _, _, _, _, hd, ht, happend => by
    cases happend
    exact h.text hd ht
  | .comment _, _, _, _, hd, ht, happend => by
    cases happend
    exact h.comment hd ht
  | .element _ attributes children, _, _, _, hd, ht, happend => by
    rw [Document.append] at happend
    obtain ⟨⟨d₁, id⟩, hstart, happend⟩ := bind_eq_ok happend
    obtain ⟨d₂, hset, happend⟩ := bind_eq_ok happend
    have hd₂ := h.setAttributes attributes (h.appendElement hd hstart) hset
    exact h.appendAll children hd₂ (h.element ht) happend

/-- A document keeps `P` while trees are added. -/
theorem appendAll (h : KeptByAdding P Q) : ∀ (ts : List Tree) {d d' : Document}
    {parent : NodeId}, P d → (∀ t ∈ ts, Q t) → d.appendAll parent ts = .ok d' → P d'
  | [], _, _, _, hd, _, happend => by
    cases happend
    exact hd
  | t :: ts, _, _, _, hd, hts, happend => by
    rw [Document.appendAll] at happend
    obtain ⟨d₁, hfirst, happend⟩ := bind_eq_ok happend
    obtain ⟨ht, hrest⟩ := List.forall_mem_cons.mp hts
    exact h.appendAll ts (h.append t hd ht hfirst) hrest happend

end

end KeptByAdding

/-- Sound trees can be added to a sound document. -/
theorem Sound.keptByAdding : KeptByAdding Sound Tree.Sound where
  appendElement hd := hd.appendElement
  setAttribute hd := hd.setAttribute
  text {_ parent content} hd ht := hd.push (show NodeKind.Sound (.text content) from ht) parent
  comment {_ parent content} hd ht :=
    hd.push (show NodeKind.Sound (.comment content) from ht) parent
  element ht := allSound_iff.mp ht
  document ht := ht

theorem Sound.empty : empty.Sound := by
  intro id kind h
  cases id with
  | zero =>
    cases h
    trivial
  | succ id => cases h

/-- A document that is read is sound. -/
theorem sound_of_read {source : String} {d : Document} (h : Document.read source = .ok d) :
    d.Sound := by
  obtain ⟨t, ht, h⟩ := bind_eq_ok h
  obtain ⟨ts, rfl, hsound, -⟩ := readTree_sound ht
  exact Sound.keptByAdding.appendAll ts .empty (allSound_iff.mp hsound) h

end Document

end PatchScript.Xml
