import PatchScript.Files.Media
import PatchScript.Proofs.Text.Replacing
import PatchScript.Run.Program

/-!
# Where the documents of scripts are

A script names a document by a text, and the store looks for it at a path below its root.  So that
the text cannot lead up from there, two dots one behind the other become one.  But three dots
become two then, and four dots as well, and these lead up; and a text that starts with a slash
replaces the root.  There is nothing else that leads out of it (`MediaStore.path_isInside_iff`).
-/

namespace PatchScript.Files

open Text (pieces replaced)

/-! ## Parts of texts -/

theorem pieces_cons (mark c : Char) (cs : List Char) : ∃ p ps, pieces mark cs = p :: ps ∧
    pieces mark (c :: cs) = if c = mark then [] :: p :: ps else (c :: p) :: ps := by
  rw [pieces]
  cases h : pieces mark cs with
  | nil => cases cs <;> simp only [pieces] at h <;> grind
  | cons p ps => exact ⟨p, ps, rfl, rfl⟩

theorem pieces_append_mark (mark : Char) (as bs : List Char) :
    pieces mark (as ++ mark :: bs) = pieces mark as ++ pieces mark bs := by
  induction as with
  | nil =>
    obtain ⟨p, ps, hbs, hall⟩ := pieces_cons mark mark bs
    rw [List.nil_append, hall, if_pos rfl, hbs]
    rfl
  | cons a as ih =>
    obtain ⟨p, ps, has, hcons⟩ := pieces_cons mark a as
    obtain ⟨q, qs, hbs, hall⟩ := pieces_cons mark a (as ++ mark :: bs)
    rw [ih, has, List.cons_append] at hbs
    cases hbs
    rw [List.cons_append, hall, hcons]
    split <;> rfl

/-! ## Two dots -/

/-- The characters with one dot in the place of two. -/
def collapsed (cs : List Char) : List Char := replaced ['.', '.'] ['.'] cs

theorem collapsed_dots (cs : List Char) : collapsed ('.' :: '.' :: cs) = '.' :: collapsed cs :=
  Text.replaced_append (List.cons_ne_nil _ _) ['.'] cs

theorem collapsed_cons {c : Char} {cs : List Char} (h : c ≠ '.' ∨ cs.head? ≠ some '.') :
    collapsed (c :: cs) = c :: collapsed cs := by
  refine Text.replaced_cons (fun hprefix => ?_) ['.']
  obtain ⟨rest, hrest⟩ := hprefix
  cases hrest
  exact h.elim (absurd rfl) (absurd rfl)

/-- The first part starts as the text does, or the text starts with a slash or is empty. -/
theorem head?_of_pieces {mark : Char} {cs p : List Char} {ps : List (List Char)}
    (h : pieces mark cs = p :: ps) : p = [] ∨ p.head? = cs.head? := by
  cases cs with
  | nil =>
    cases h
    exact .inl rfl
  | cons c cs =>
    obtain ⟨q, qs, -, hcons⟩ := pieces_cons mark c cs
    rw [hcons] at h
    split at h
    · cases h
      exact .inl rfl
    · cases h
      exact .inr rfl

/-- A text is gone through as it is collapsed. -/
theorem dots_induction {P : List Char → Prop} (nil : P [])
    (dots : ∀ cs, P cs → P ('.' :: '.' :: cs))
    (cons : ∀ c cs, c ≠ '.' ∨ cs.head? ≠ some '.' → P cs → P (c :: cs)) : ∀ cs, P cs
  | [] => nil
  | [c] => cons c [] (.inr nofun) nil
  | c :: e :: cs => by
    by_cases h : c = '.' ∧ e = '.'
    · obtain ⟨rfl, rfl⟩ := h
      exact dots cs (dots_induction nil dots cons cs)
    · refine cons c (e :: cs) ?_ (dots_induction nil dots cons (e :: cs))
      by_cases hc : c = '.'
      · exact .inr fun hhead => h ⟨hc, Option.some.inj hhead⟩
      · exact .inl hc

/-- A text is collapsed part by part. -/
theorem pieces_collapsed (cs : List Char) :
    pieces '/' (collapsed cs) = (pieces '/' cs).map collapsed := by
  induction cs using dots_induction with
  | nil => rfl
  | dots cs ih =>
    obtain ⟨p, ps, hp, hone⟩ := pieces_cons '/' '.' cs
    obtain ⟨q, qs, hq, htwo⟩ := pieces_cons '/' '.' ('.' :: cs)
    obtain ⟨r, rs, hr, hdot⟩ := pieces_cons '/' '.' (collapsed cs)
    rw [if_neg (by decide)] at hone htwo hdot
    rw [hone] at hq
    cases hq
    rw [ih, hp, List.map_cons] at hr
    cases hr
    rw [collapsed_dots, hdot, htwo, List.map_cons, collapsed_dots]
  | cons c cs h ih =>
    obtain ⟨p, ps, hp, hone⟩ := pieces_cons '/' c cs
    obtain ⟨r, rs, hr, hmore⟩ := pieces_cons '/' c (collapsed cs)
    rw [ih, hp, List.map_cons] at hr
    cases hr
    rw [collapsed_cons h, hmore, hone]
    split
    · rfl
    · have hpart : c ≠ '.' ∨ p.head? ≠ some '.' := by
        rcases head?_of_pieces hp with rfl | hhead
        · exact .inr nofun
        · rwa [hhead]
      rw [List.map_cons, collapsed_cons hpart]

theorem collapsed_eq_nil_iff {cs : List Char} : collapsed cs = [] ↔ cs = [] := by
  cases cs using dots_induction with
  | nil => exact Iff.rfl
  | dots cs => simp [collapsed_dots]
  | cons c cs h => simp [collapsed_cons h]

/-- A dot comes from two dots, or from one that has no other behind it. -/
theorem collapsed_eq_dot_cons_iff {cs rest : List Char} : collapsed cs = '.' :: rest ↔
    (∃ cs', cs = '.' :: '.' :: cs' ∧ collapsed cs' = rest) ∨
      ∃ cs', cs = '.' :: cs' ∧ cs'.head? ≠ some '.' ∧ collapsed cs' = rest := by
  cases cs using dots_induction with
  | nil =>
    refine ⟨nofun, ?_⟩
    rintro (⟨cs', h, -⟩ | ⟨cs', h, -⟩) <;> cases h
  | dots cs =>
    rw [collapsed_dots]
    constructor
    · intro h
      cases h
      exact .inl ⟨cs, rfl, rfl⟩
    · rintro (⟨cs', h, rfl⟩ | ⟨cs', h, hhead, -⟩)
      · cases h
        rfl
      · cases h
        exact absurd rfl hhead
  | cons c cs hone =>
    rw [collapsed_cons hone]
    constructor
    · intro h
      cases h
      exact .inr ⟨cs, rfl, hone.resolve_left (absurd rfl), rfl⟩
    · rintro (⟨cs', h, rfl⟩ | ⟨cs', h, -, rfl⟩)
      · cases h
        rcases hone with hone | hone <;> exact absurd rfl hone
      · cases h
        rfl

/-- Two dots are what three or four dots become, and nothing else. -/
theorem collapsed_eq_dots_iff (cs : List Char) :
    collapsed cs = ['.', '.'] ↔ cs = ['.', '.', '.'] ∨ cs = ['.', '.', '.', '.'] := by
  have one (cs : List Char) : collapsed cs = ['.'] ↔ cs = ['.'] ∨ cs = ['.', '.'] := by
    rw [collapsed_eq_dot_cons_iff]
    simp only [collapsed_eq_nil_iff]
    grind
  rw [collapsed_eq_dot_cons_iff]
  simp only [one]
  grind

/-! ## Paths -/

namespace DiskPath

/-- The parts of a path that say where it leads: an empty part and a single dot do not. -/
def components (p : DiskPath) : List String := p.parts.filter fun part => part ≠ "" ∧ part ≠ "."

/-- The path starts with the root, and behind it no component leads up. -/
def IsInside (root p : DiskPath) : Prop :=
  p.isAbsolute = root.isAbsolute ∧ ∃ rest, p.components = root.components ++ rest ∧ ".." ∉ rest

theorem parts_append_slash (a b : String) :
    (DiskPath.mk (a ++ "/" ++ b)).parts = (DiskPath.mk a).parts ++ (DiskPath.mk b).parts := by
  have hslash : (a ++ "/" ++ b).toList = a.toList ++ '/' :: b.toList := by simp
  rw [parts, hslash, pieces_append_mark, List.map_append]
  rfl

theorem components_append_slash (a b : String) : (DiskPath.mk (a ++ "/" ++ b)).components =
    (DiskPath.mk a).components ++ (DiskPath.mk b).components := by
  rw [components, parts_append_slash, List.filter_append]
  rfl

variable {root : DiskPath} {next : String}

theorem join_of_absolute (h : (DiskPath.mk next).isAbsolute) : root.join next = ⟨next⟩ := by
  rw [join, if_pos h]

@[simp] theorem components_empty : (DiskPath.mk "").components = [] := rfl

theorem isAbsolute_append {a : String} (ha : a ≠ "") (b : String) :
    (DiskPath.mk (a ++ b)).isAbsolute = (DiskPath.mk a).isAbsolute := by
  rw [isAbsolute, isAbsolute]
  cases h : a.toList with
  | nil => exact absurd (String.toList_eq_nil_iff.mp h) ha
  | cons c cs => simp [h]

/-- A path that is relative is followed from the root. -/
theorem join_of_relative (h : ¬(DiskPath.mk next).isAbsolute) :
    (root.join next).isAbsolute = root.isAbsolute ∧
      (root.join next).components = root.components ++ (DiskPath.mk next).components := by
  obtain ⟨text⟩ := root
  rw [join, if_neg h]
  have nonempty {c : Char} (hlast : text.toList.getLast? = some c) : text ≠ "" := by
    rintro rfl
    cases hlast
  split
  · rename_i hlast
    obtain rfl : text = "" := String.toList_eq_nil_iff.mp (List.getLast?_eq_none_iff.mp hlast)
    exact ⟨by simpa [isAbsolute] using h, rfl⟩
  · rename_i hlast
    -- The slash at the end of the root is the one between the two.
    obtain ⟨before, hbefore⟩ := List.getLast?_eq_some_iff.mp hlast
    have htext : text = String.ofList before ++ "/" ++ "" := by
      rw [← String.ofList_toList (s := text), hbefore]
      simp
    have hroot : (DiskPath.mk text).components =
        (DiskPath.mk (String.ofList before)).components := by
      rw [htext, components_append_slash, components_empty, List.append_nil]
    refine ⟨isAbsolute_append (nonempty hlast) next, ?_⟩
    rw [hroot, ← components_append_slash, htext, String.append_empty]
  · rename_i hlast
    refine ⟨?_, components_append_slash text next⟩
    rw [String.append_assoc]
    exact isAbsolute_append (nonempty hlast) _

/-- A relative path stays below the root if no component of it leads up. -/
theorem isInside_join_iff (h : ¬(DiskPath.mk next).isAbsolute) :
    root.IsInside (root.join next) ↔ ".." ∉ (DiskPath.mk next).parts := by
  obtain ⟨habsolute, hcomponents⟩ := @join_of_relative root next h
  have hparts : ".." ∉ (DiskPath.mk next).components ↔ ".." ∉ (DiskPath.mk next).parts := by
    simp [components]
  rw [← hparts]
  constructor
  · rintro ⟨-, rest, hrest, hup⟩
    rw [hcomponents] at hrest
    rwa [List.append_cancel_left hrest]
  · exact fun hup => ⟨habsolute, _, hcomponents, hup⟩

end DiskPath

/-! ## Places -/

namespace Disk

variable {d : Disk} {place place' : Place}

/-- A part that is no component leads nowhere else. -/
theorem step_of_not_component {part : String} (hpart : part = "" ∨ part = ".")
    (h : d.step place part = some place') : place' = place := by
  rw [step] at h
  split at h
  · cases h
  · exact (Option.some.inj h).symm

theorem step_below {part : String} (hpart : part ≠ "..") (h : d.step place part = some place') :
    place <+: place' := by
  rw [step] at h
  split at h
  · cases h
  · split at h
    · cases h
      exact List.prefix_refl _
    · split at h
      · cases h
        exact List.prefix_append _ _
      · cases h

/-- Where a path leads, its components lead. -/
theorem follow_components : ∀ {parts : List String} {place : Place},
    parts.foldlM d.step place = some place' →
    (parts.filter fun part => part ≠ "" ∧ part ≠ ".").foldlM d.step place = some place'
  | [], _, h => h
  | part :: parts, place, h => by
    rw [List.foldlM_cons] at h
    obtain ⟨next, hstep, h⟩ := Option.bind_eq_some_iff.mp h
    have hrest := follow_components h
    by_cases hpart : part ≠ "" ∧ part ≠ "."
    · rw [List.filter_cons_of_pos (by simpa using hpart), List.foldlM_cons, hstep]
      exact hrest
    · have hnone : part = "" ∨ part = "." := by
        by_cases hempty : part = ""
        · exact .inl hempty
        · exact .inr (by simpa [hempty] using hpart)
      rw [List.filter_cons_of_neg (by simpa using hpart)]
      rwa [step_of_not_component hnone hstep] at hrest

theorem follow_below : ∀ {parts : List String} {place : Place}, ".." ∉ parts →
    parts.foldlM d.step place = some place' → place <+: place'
  | [], _, _, h => Option.some.inj h ▸ List.prefix_refl _
  | part :: parts, place, hup, h => by
    rw [List.foldlM_cons] at h
    obtain ⟨next, hstep, h⟩ := Option.bind_eq_some_iff.mp h
    have hpart : part ≠ ".." := fun hpart => hup (hpart ▸ List.mem_cons_self)
    have hrest : ".." ∉ parts := fun hmem => hup (List.mem_cons_of_mem _ hmem)
    exact (step_below hpart hstep).trans (follow_below hrest h)

/-- A path inside of another one leads below the place that the components of this lead to. -/
theorem locate_below {root p : DiskPath} (hinside : root.IsInside p)
    (h : d.locate p = some place') :
    ∃ above, root.components.foldlM d.step (d.start root) = some above ∧ above <+: place' := by
  obtain ⟨habsolute, rest, hrest, hup⟩ := hinside
  rw [locate] at h
  split at h
  · cases h
  · have hfollow := follow_components h
    rw [show (p.parts.filter _) = root.components ++ rest from hrest, List.foldlM_append] at hfollow
    obtain ⟨above, habove, hbelow⟩ := Option.bind_eq_some_iff.mp hfollow
    refine ⟨above, ?_, follow_below hup hbelow⟩
    rw [start, ← habsolute]
    exact habove

end Disk

/-! ## Documents -/

namespace MediaStore

theorem head?_collapsed (cs : List Char) : (collapsed cs).head? = cs.head? := by
  cases cs using dots_induction with
  | nil => rfl
  | dots cs => rw [collapsed_dots]; rfl
  | cons c cs h => rw [collapsed_cons h]; rfl

/-- What stands behind the root in the path of a document. -/
def collapse (document : String) : String := Text.replaceAll (document ++ extension) ".." "."

theorem toList_collapse (document : String) :
    (collapse document).toList = collapsed (document ++ extension).toList :=
  Text.toList_replaceAll ..

theorem collapse_isAbsolute (document : String) :
    (DiskPath.mk (collapse document)).isAbsolute = (DiskPath.mk document).isAbsolute := by
  rw [DiskPath.isAbsolute, toList_collapse, head?_collapsed, DiskPath.isAbsolute]
  cases h : document.toList with
  | nil => simp [h, extension]
  | cons c cs => simp [h]

/-- A part of the path leads up if it comes from three dots or four. -/
theorem up_mem_parts_collapse (document : String) : ".." ∈ (DiskPath.mk (collapse document)).parts ↔
    ∃ part ∈ (DiskPath.mk (document ++ extension)).parts, part = "..." ∨ part = "...." := by
  have spelled (cs : List Char) : String.ofList (collapsed cs) = ".." ↔
      String.ofList cs = "..." ∨ String.ofList cs = "...." := by
    have ofList_eq_iff (cs : List Char) (s : String) : String.ofList cs = s ↔ cs = s.toList := by
      rw [← String.toList_inj, String.toList_ofList]
    rw [ofList_eq_iff, ofList_eq_iff, ofList_eq_iff]
    exact collapsed_eq_dots_iff cs
  rw [DiskPath.parts, toList_collapse, pieces_collapsed, DiskPath.parts]
  constructor
  · intro hup
    obtain ⟨q, hq, hdots⟩ := List.mem_map.mp hup
    obtain ⟨cs, hcs, rfl⟩ := List.mem_map.mp hq
    exact ⟨_, List.mem_map_of_mem hcs, (spelled cs).mp hdots⟩
  · rintro ⟨part, hpart, hdots⟩
    obtain ⟨cs, hcs, rfl⟩ := List.mem_map.mp hpart
    exact List.mem_map.mpr ⟨_, List.mem_map_of_mem hcs, (spelled cs).mpr hdots⟩

/-- The path of a document stays below the root of the store if and only if no part of the name is
three dots or four.  A name that starts with a slash replaces the root, so that its path stays
there only if it spells the root itself.  Where a path stays below the root, what it leads to on a
disk is below the place that the root leads to. -/
theorem path_isInside_iff (s : MediaStore) (document : String) :
    (¬(DiskPath.mk document).isAbsolute → (s.root.IsInside (s.path document) ↔
      ∀ part ∈ (DiskPath.mk (document ++ extension)).parts, part ≠ "..." ∧ part ≠ "....")) ∧
    ((DiskPath.mk document).isAbsolute → s.path document = ⟨collapse document⟩ ∧
      (s.root.IsInside (s.path document) ↔ s.root.isAbsolute ∧ ∃ rest,
        (DiskPath.mk (collapse document)).components = s.root.components ++ rest ∧ ".." ∉ rest)) ∧
    (s.root.IsInside (s.path document) → ∀ (d : Disk) (place : Place),
      d.locate (s.path document) = some place → ∃ above,
        s.root.components.foldlM d.step (d.start s.root) = some above ∧ above <+: place) := by
  refine ⟨fun h => ?_, fun h => ?_, fun h d place => Disk.locate_below h⟩
  · have hrelative : ¬(DiskPath.mk (collapse document)).isAbsolute := by
      rwa [collapse_isAbsolute]
    rw [path, ← collapse, DiskPath.isInside_join_iff hrelative, up_mem_parts_collapse]
    simp only [not_exists, not_and, not_or]
  · have habsolute : (DiskPath.mk (collapse document)).isAbsolute := by
      rwa [collapse_isAbsolute]
    have hpath : s.path document = ⟨collapse document⟩ := DiskPath.join_of_absolute habsolute
    refine ⟨hpath, ?_⟩
    rw [hpath, DiskPath.IsInside, habsolute, eq_comm]

/-- Two dots, as a part and inside of one. -/
theorem path_isInside_of_two_dots :
    let s : MediaStore := ⟨⟨[], []⟩, ⟨"files/temp/[media]"⟩⟩
    ¬(DiskPath.mk "../a..b").isAbsolute ∧ s.path "../a..b" = ⟨"files/temp/[media]/./a.b.xml"⟩ ∧
      s.root.IsInside (s.path "../a..b") := by
  intro s
  have hrelative : ¬(DiskPath.mk "../a..b").isAbsolute := by decide
  exact ⟨hrelative, by decide, ((path_isInside_iff s "../a..b").1 hrelative).mpr (by decide)⟩

/-- A script reads a file above the directory of the documents and writes it, and the path that
leads there is not inside of the directory.  Nor is that of a name that starts with a slash. -/
theorem path_leads_out :
    let disk : Disk := ⟨[(["files"], .directory), (["files", "temp"], .directory),
      (["files", "temp", "[media]"], .directory), (["files", "temp", "x.xml"], .text "<a />")], []⟩
    let s : MediaStore := ⟨disk, ⟨"files/temp/[media]"⟩⟩
    ¬s.root.IsInside (s.path "..../x") ∧ ¬s.root.IsInside (s.path "/x") ∧
      (Run.runSource ⟨[], 7⟩ s "file '..../x' \x7b add 'b' \x7b \x7d \x7d").store.disk.entry?
        ["files", "temp", "x.xml"] = some (.text "<a />\n<b />") := by
  intro disk s
  refine ⟨?_, ?_, by decide +kernel⟩
  · intro h
    exact absurd ((DiskPath.isInside_join_iff (by decide)).mp h) (by decide)
  · rintro ⟨habsolute, -⟩
    exact absurd habsolute (by decide)

end MediaStore

end PatchScript.Files
