import PatchScript.Xml.Tree
import Mathlib.Data.List.Nodup

/-!
# Attributes that are set

To set an attribute changes one value, or adds a name behind the others (`Attributes.names_put`).
To set it twice is to set it once, to the later value, and attributes that are there can be set in
any order.  If attributes are set one after the other, all their names are there afterwards, and
with them only those that were there before (`Attributes.mem_names_putAll`).
-/

namespace PatchScript.Xml.Attributes

/-! ## Names -/

/-- The names of attributes. -/
abbrev names (as : Attributes) : List String := as.map (·.1)

/-- The names after one attribute is set: a new one stands behind the others. -/
theorem names_put (name value : String) : ∀ as : Attributes,
    (as.put name value).names = if name ∈ as.names then as.names else as.names ++ [name]
  | [] => rfl
  | (n, v) :: as => by
    rw [put]
    split
    · rename_i hn
      simp [hn]
    · rename_i hn
      have hne : name ≠ n := Ne.symm hn
      simp only [List.map_cons, names_put name value as, List.mem_cons, hne, false_or]
      split <;> simp

theorem mem_names_put {name value other : String} {as : Attributes} :
    other ∈ (as.put name value).names ↔ other = name ∨ other ∈ as.names := by
  rw [names_put]
  split
  · rename_i hname
    exact ⟨.inr, fun h => h.elim (fun hother => hother ▸ hname) id⟩
  · rw [List.mem_append, List.mem_singleton, or_comm]

theorem nodup_put {as : Attributes} (h : as.names.Nodup) (name value : String) :
    (as.put name value).names.Nodup := by
  rw [names_put]
  split
  · exact h
  · rename_i hnew
    refine List.nodup_append.mpr ⟨h, List.nodup_singleton _, ?_⟩
    rintro a ha b hb rfl
    rw [List.mem_singleton.mp hb] at ha
    exact hnew ha

theorem mem_put {name value : String} : ∀ {as : Attributes} {a : String × String},
    a ∈ as.put name value → a = (name, value) ∨ a ∈ as
  | [], _, h => .inl (List.mem_singleton.mp h)
  | (n, v) :: as, a, h => by
    rw [put] at h
    split at h
    · exact (List.mem_cons.mp h).imp_right (List.mem_cons_of_mem _)
    · rcases List.mem_cons.mp h with rfl | h
      · exact .inr List.mem_cons_self
      · exact (mem_put h).imp_right (List.mem_cons_of_mem _)

/-- An attribute of a new name is set behind the others. -/
theorem put_of_notMem {name : String} (value : String) : ∀ {as : Attributes}, name ∉ as.names →
    as.put name value = as ++ [(name, value)]
  | [], _ => rfl
  | (n, v) :: as, h => by
    rw [names, List.map_cons, List.mem_cons, not_or] at h
    rw [put, if_neg (Ne.symm h.1), put_of_notMem value h.2, List.cons_append]

theorem erase_sublist (name : String) : ∀ as : Attributes, (as.erase name).Sublist as
  | [] => .slnil
  | (n, v) :: as => by
    rw [erase]
    split
    · exact List.sublist_cons_self _ _
    · exact (erase_sublist name as).cons_cons _

/-! ## Values -/

theorem get?_put (name value other : String) : ∀ as : Attributes,
    (as.put name value).get? other = if name = other then some value else as.get? other
  | [] => by simp [put, get?]
  | (n, v) :: as => by
    rw [put]
    split
    · rename_i hn
      subst hn
      simp only [get?]
      split <;> rfl
    · rename_i hn
      simp only [get?, get?_put name value other as]
      by_cases hother : n = other
      · rw [if_pos hother, if_pos hother, if_neg]
        rintro rfl
        exact hn hother
      · simp [hother]

theorem put_of_get? {name value : String} : ∀ {as : Attributes},
    as.get? name = some value → as.put name value = as
  | [], h => by cases h
  | (n, v) :: as, h => by
    rw [get?] at h
    rw [put]
    split at h
    · cases h
      simp [*]
    · rw [if_neg (by assumption), put_of_get? h]

@[simp] theorem put_put (name value value' : String) : ∀ as : Attributes,
    (as.put name value).put name value' = as.put name value'
  | [] => by simp [put]
  | (n, v) :: as => by
    by_cases hn : n = name
    · simp [put, hn]
    · simp [put, hn, put_put name value value' as]

/-- An attribute that is there is set in its place, before or after another one is. -/
theorem put_comm {name name' : String} (value value' : String) (hne : name ≠ name') :
    ∀ {as : Attributes}, (as.get? name').isSome →
      (as.put name value).put name' value' = (as.put name' value').put name value
  | [], h => by cases h
  | (n, v) :: as, h => by
    by_cases hn : n = name
    · subst hn
      simp [put, hne]
    · by_cases hn' : n = name'
      · subst hn'
        simp [put, hn]
      · rw [get?, if_neg hn'] at h
        simp [put, hn, hn', put_comm value value' hne h]

/-! ## Several attributes -/

/-- The attributes with others set one after the other. -/
def putAll (added before : Attributes) : Attributes :=
  added.foldl (fun as a => as.put a.1 a.2) before

theorem putAll_cons (a : String × String) (added before : Attributes) :
    putAll (a :: added) before = added.putAll (before.put a.1 a.2) := rfl

theorem mem_names_putAll {name : String} : ∀ {added before : Attributes},
    name ∈ (added.putAll before).names ↔ name ∈ added.names ∨ name ∈ before.names
  | [], before => (or_iff_right List.not_mem_nil).symm
  | a :: added, before => by
    have hcons : name ∈ names (a :: added) ↔ name = a.1 ∨ name ∈ names added := List.mem_cons
    rw [putAll_cons, mem_names_putAll, mem_names_put, hcons, or_assoc, or_left_comm]

/-- Attributes that are set where none were have the names that were set. -/
theorem forall_mem_putAll (p : String → Prop) {added : Attributes} :
    (∀ a ∈ added.putAll [], p a.1) ↔ ∀ a ∈ added, p a.1 := by
  have hnames (as : Attributes) : (∀ a ∈ as, p a.1) ↔ ∀ name ∈ as.names, p name :=
    List.forall_mem_map.symm
  rw [hnames, hnames]
  simp [mem_names_putAll]

theorem nodup_putAll : ∀ (added : Attributes) {before : Attributes}, before.names.Nodup →
    (added.putAll before).names.Nodup
  | [], _, h => h
  | a :: added, _, h => nodup_putAll added (nodup_put h a.1 a.2)

/-- Attributes of different names are set as they are. -/
theorem putAll_eq : ∀ {added before : Attributes}, (before ++ added).names.Nodup →
    added.putAll before = before ++ added
  | [], before, _ => (List.append_nil before).symm
  | a :: added, before, h => by
    have hnew : a.1 ∉ before.names := by
      rw [names, List.map_append, List.map_cons] at h
      exact fun hmem => (List.nodup_append.mp h).2.2 _ hmem _ List.mem_cons_self rfl
    rw [List.append_cons] at h ⊢
    rw [putAll_cons, put_of_notMem a.2 hnew]
    exact putAll_eq h

end PatchScript.Xml.Attributes
