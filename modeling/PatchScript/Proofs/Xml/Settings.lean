import PatchScript.Proofs.Xml.Evolution

/-!
# Attributes that are set again

If attributes are set one after the other, what matters of them is the last setting of each.  A
document *reflects* a list of settings if for each attribute it has the value of the last one.  To
make the settings again then changes nothing, the order of the attributes included
(`Document.Reflects.setAll`).
-/

namespace PatchScript.Xml

/-! ## Settings -/

/-- An attribute of an element with a value that it is given. -/
structure Setting where
  /-- The element. -/
  id : NodeId
  /-- The name of the attribute. -/
  name : String
  /-- The value. -/
  value : String

/-- The attribute that is set. -/
def Setting.key (p : Setting) : NodeId × String := (p.id, p.name)

namespace Document

variable {d : Document}

theorem ext_nodes {d d' : Document} (hnodes : ∀ id : NodeId, d.nodes[id]? = d'.nodes[id]?)
    (hroot : d.root = d'.root) : d = d' := by
  cases d
  cases d'
  simp only at hnodes hroot
  rw [hroot, Array.ext_getElem? hnodes]

theorem getElem?_modifyAttributes (d : Document) (id : NodeId) (f : Attributes → Attributes)
    (c : NodeId) : (d.modifyAttributes id f).nodes[c]? =
      if id = c then d.nodes[c]?.map fun n => { n with kind := n.kind.mapAttributes f }
      else d.nodes[c]? := by
  unfold modifyAttributes
  rw [Array.getElem?_modify]
  split
  · rcases d.nodes[c]? with _ | ⟨kind, parent, children⟩
    · rfl
    · cases kind <;> rfl
  · rfl

theorem element?_eq_some {id : NodeId} {e : Element} :
    d.element? id = some e ↔ ∃ n, d.nodes[id]? = some n ∧ n.kind = .element e := by
  rw [element?, kind?]
  cases d.nodes[id]? with
  | none => simp
  | some n => cases hk : n.kind <;> simp [hk]

/-- Of the attributes only those of an element are changed. -/
theorem modifyAttributes_congr {id : NodeId} {f g : Attributes → Attributes}
    (h : ∀ e, d.element? id = some e → f e.attributes = g e.attributes) :
    d.modifyAttributes id f = d.modifyAttributes id g := by
  refine ext_nodes (fun c => ?_) rfl
  rw [getElem?_modifyAttributes, getElem?_modifyAttributes]
  split
  · rename_i hid
    subst hid
    cases hn : d.nodes[id]? with
    | none => rfl
    | some n =>
      cases hk : n.kind with
      | element e =>
        have hfg := h e (element?_eq_some.mpr ⟨n, hn, hk⟩)
        simp [NodeKind.mapAttributes, hk, hfg]
      | document | text | comment => simp [NodeKind.mapAttributes, hk]
  · rfl

theorem modifyAttributes_id (d : Document) (id : NodeId) :
    d.modifyAttributes id (fun as => as) = d := by
  refine ext_nodes (fun c => ?_) rfl
  rw [getElem?_modifyAttributes]
  split
  · rcases d.nodes[c]? with _ | ⟨kind, parent, children⟩
    · rfl
    · cases kind <;> rfl
  · rfl

theorem modifyAttributes_modifyAttributes (d : Document) (id : NodeId)
    (f g : Attributes → Attributes) :
    (d.modifyAttributes id f).modifyAttributes id g = d.modifyAttributes id fun as => g (f as) := by
  refine ext_nodes (fun c => ?_) rfl
  simp only [getElem?_modifyAttributes]
  split
  · cases d.nodes[c]? with
    | none => rfl
    | some n => cases hk : n.kind <;> simp [NodeKind.mapAttributes, hk]
  · rfl

theorem modifyAttributes_comm (d : Document) {id id' : NodeId} (hne : id ≠ id')
    (f g : Attributes → Attributes) : (d.modifyAttributes id f).modifyAttributes id' g =
      (d.modifyAttributes id' g).modifyAttributes id f := by
  refine ext_nodes (fun c => ?_) rfl
  simp only [getElem?_modifyAttributes]
  by_cases hid : id = c
  · subst hid
    simp [hne.symm]
  · simp [hid]

/-! ## One setting -/

/-- The document with a setting made. -/
def set (d : Document) (p : Setting) : Document := d.modifyAttributes p.id (·.put p.name p.value)

theorem element?_of_attribute? {id : NodeId} {name : String} (h : (d.attribute? id name).isSome) :
    ∃ e, d.element? id = some e ∧ d.attribute? id name = e.attributes.get? name := by
  cases he : d.element? id with
  | none =>
    rw [attribute?, attributes, he] at h
    cases h
  | some e => exact ⟨e, rfl, by rw [attribute?, attributes, he]; rfl⟩

theorem element?_set (d : Document) (p : Setting) (id : NodeId) :
    (d.set p).element? id = if p.id = id
      then (d.element? id).map fun e => { e with attributes := e.attributes.put p.name p.value }
      else d.element? id := by
  simp only [set, element?, kind?_modifyAttributes]
  by_cases hid : p.id = id
  · simp only [hid, if_true]
    rcases d.kind? id with _ | kind
    · rfl
    · cases kind <;> rfl
  · simp only [hid, if_false]

theorem attribute?_set {p : Setting} (hp : d.isElement p.id) (id : NodeId) (name : String) :
    (d.set p).attribute? id name =
      if p.key = (id, name) then some p.value else d.attribute? id name := by
  obtain ⟨e, he⟩ := Option.isSome_iff_exists.mp hp
  rw [attribute?, attributes, element?_set, Setting.key]
  by_cases hid : p.id = id
  · subst hid
    simp [he, attribute?, attributes, Attributes.get?_put]
  · simp [hid, attribute?, attributes]

/-- To set an attribute to the value that it has changes nothing. -/
theorem set_of_attribute? {p : Setting} (h : d.attribute? p.id p.name = some p.value) :
    d.set p = d := by
  obtain ⟨e, he, hget⟩ := element?_of_attribute? (by rw [h]; rfl)
  rw [h] at hget
  calc d.set p = d.modifyAttributes p.id fun as => as := by
        refine modifyAttributes_congr fun e' he' => ?_
        rw [he] at he'
        cases he'
        exact Attributes.put_of_get? hget.symm
    _ = d := modifyAttributes_id d p.id

theorem set_set {p q : Setting} (h : p.key = q.key) : (d.set p).set q = d.set q := by
  obtain ⟨hid, hname⟩ := Prod.mk.inj h
  simp only [set, hid, hname, modifyAttributes_modifyAttributes, Attributes.put_put]

theorem set_comm {p q : Setting} (hne : p.key ≠ q.key) (hq : (d.attribute? q.id q.name).isSome) :
    (d.set p).set q = (d.set q).set p := by
  by_cases hid : p.id = q.id
  · have hname : p.name ≠ q.name := fun hname => hne (Prod.ext hid hname)
    obtain ⟨e, he, hget⟩ := element?_of_attribute? hq
    rw [hget] at hq
    simp only [set, hid, modifyAttributes_modifyAttributes]
    refine modifyAttributes_congr fun e' he' => ?_
    rw [he] at he'
    cases he'
    exact Attributes.put_comm p.value q.value hname hq
  · exact modifyAttributes_comm d hid _ _

/-! ## Settings one after the other -/

/-- The document with settings made one after the other. -/
def setAll (d : Document) (ps : List Setting) : Document := ps.foldl set d

theorem setAll_append (d : Document) (ps qs : List Setting) :
    d.setAll (ps ++ qs) = (d.setAll ps).setAll qs := List.foldl_append

/-- Every setting has been overwritten by a later one, or the attribute has its value. -/
def Reflects (d : Document) : List Setting → Prop
  | [] => True
  | p :: ps => (p.key ∈ ps.map Setting.key ∨ d.attribute? p.id p.name = some p.value) ∧
      d.Reflects ps

/-- Is the attribute there? -/
def Has (d : Document) (p : Setting) : Prop := (d.attribute? p.id p.name).isSome

theorem Has.congr {p q : Setting} (h : d.Has p) (hkey : p.key = q.key) : d.Has q := by
  obtain ⟨hid, hname⟩ := Prod.mk.inj hkey
  rwa [Has, ← hid, ← hname]

theorem Has.isElement {p : Setting} (h : d.Has p) : d.isElement p.id := by
  obtain ⟨e, he, -⟩ := element?_of_attribute? h
  rw [Document.isElement, he]
  rfl

theorem Has.set {p q : Setting} (hp : d.Has p) (hq : d.Has q) : (d.set p).Has q := by
  rw [Has, attribute?_set hp.isElement]
  split
  · rfl
  · exact hq

theorem Reflects.has : ∀ {ps : List Setting}, d.Reflects ps → ∀ p ∈ ps, d.Has p
  | p :: ps, h, q, hq => by
    rcases List.mem_cons.mp hq with rfl | hq
    · rcases h.1 with hlater | hvalue
      · obtain ⟨r, hr, hkey⟩ := List.mem_map.mp hlater
        exact (h.2.has r hr).congr hkey
      · rw [Has, hvalue]
        rfl
    · exact h.2.has q hq

/-- A setting that is overwritten by a later one does not matter. -/
theorem setAll_set : ∀ {ps : List Setting} {d : Document} {p : Setting}, (∀ q ∈ ps, d.Has q) →
    p.key ∈ ps.map Setting.key → (d.set p).setAll ps = d.setAll ps
  | q :: ps, d, p, hhas, hlater => by
    obtain ⟨hq, hps⟩ := List.forall_mem_cons.mp hhas
    show ((d.set p).set q).setAll ps = (d.set q).setAll ps
    by_cases hkey : p.key = q.key
    · rw [set_set hkey]
    · rw [set_comm hkey hq]
      refine setAll_set (fun r hr => hq.set (hps r hr)) ?_
      simpa [hkey] using hlater

/-- A document that reflects settings is not changed by them. -/
theorem Reflects.setAll : ∀ {ps : List Setting} {d : Document}, d.Reflects ps → d.setAll ps = d
  | [], _, _ => rfl
  | p :: ps, d, h => by
    show (d.set p).setAll ps = d
    rcases h.1 with hlater | hvalue
    · rw [setAll_set h.2.has hlater]
      exact h.2.setAll
    · rw [set_of_attribute? hvalue]
      exact h.2.setAll

/-- What is reflected depends on the attributes that are set, and on no others. -/
theorem Reflects.of_attributes {d d' : Document} : ∀ {ps : List Setting}, d.Reflects ps →
    (∀ p ∈ ps, d'.attribute? p.id p.name = d.attribute? p.id p.name) → d'.Reflects ps
  | [], _, _ => trivial
  | p :: ps, h, hsame => by
    obtain ⟨hp, hps⟩ := List.forall_mem_cons.mp hsame
    refine ⟨h.1.imp_right fun hvalue => hp.trans hvalue, h.2.of_attributes hps⟩

/-- One more setting is reflected once it is made. -/
theorem Reflects.set {p : Setting} (hp : d.isElement p.id) : ∀ {ps : List Setting},
    d.Reflects ps → (d.set p).Reflects (ps ++ [p])
  | [], _ => ⟨.inr ((attribute?_set hp p.id p.name).trans (if_pos rfl)), trivial⟩
  | q :: ps, h => by
    refine ⟨?_, h.2.set hp⟩
    have hvalue := attribute?_set hp q.id q.name
    show q.key ∈ (ps ++ [p]).map Setting.key ∨ _
    rw [List.map_append]
    by_cases hkey : p.key = q.key
    · exact .inl (List.mem_append_right _ (List.mem_singleton.mpr hkey.symm))
    · rw [hvalue.trans (if_neg hkey)]
      exact h.1.imp_left (List.mem_append_left _)

/-- Settings are reflected without those of other elements that were made later. -/
theorem Reflects.of_append {qs : List Setting} : ∀ {ps : List Setting}, d.Reflects (ps ++ qs) →
    (∀ p ∈ ps, ∀ q ∈ qs, p.id ≠ q.id) → d.Reflects ps
  | [], _, _ => trivial
  | p :: ps, h, hother => by
    obtain ⟨hp, hps⟩ := List.forall_mem_cons.mp hother
    refine ⟨h.1.imp_left fun hlater => ?_, h.2.of_append hps⟩
    have hlater : p.key ∈ (ps ++ qs).map Setting.key := hlater
    rw [List.map_append] at hlater
    rcases List.mem_append.mp hlater with hlater | hlater
    · exact hlater
    · obtain ⟨q, hq, hkey⟩ := List.mem_map.mp hlater
      exact absurd (Prod.mk.inj hkey).1.symm (hp q hq)

end Document

end PatchScript.Xml
