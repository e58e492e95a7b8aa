import PatchScript.Proofs.Files.Disks
import PatchScript.Proofs.Xml.Rows
import PatchScript.Proofs.Xml.Stability
import PatchScript.Proofs.Xml.Swapping

/-!
# Files that are opened and stored again

While a file is open, its trees have the prefix as part of the names (`opened`), and a root around
them.  They are what a reader makes of them, and when they are stored the prefix is put back.

A file that a store has written is written again as it was if it has not been changed in between,
with two exceptions (`MediaStore.persist_loaded_eq_iff`).  What the file holds of the prefix as
part of a name, the store takes for a prefix that it had made part of the name itself.  And the
trees must be read as they are: a reader makes line feeds of carriage returns, and it can choose
another one of two prefixes.
-/

namespace PatchScript.Files

open Text (swapped)
open Xml

variable {ts : List Tree} {t : Tree}

/-! ## The prefix -/

/-- The prefix without the sign behind it. -/
def prefixWord : List Char := "region".toList

theorem isSpelled_opening : IsSpelled prefixWord ':' '_' where
  parts := List.all_eq_true.mp (by decide)
  hyphen := by decide
  reference := by decide
  starts := by decide
  blank := by decide

theorem isSpelled_storing : IsSpelled prefixWord '_' ':' where
  parts := List.all_eq_true.mp (by decide)
  hyphen := by decide
  reference := by decide
  starts := by decide
  blank := by decide

/-- The tree as it is while the file is open. -/
def opened (t : Tree) : Tree := t.swapped prefixWord ':' '_'

/-- The text as it is while the file is open. -/
def openedText (s : String) : String := swappedText prefixWord ':' '_' s

/-- The text as it is in a file. -/
def storedText (s : String) : String := swappedText prefixWord '_' ':' s

theorem openedText_eq (s : String) :
    Text.replaceAll s MediaStore.regionMark MediaStore.regionName = openedText s := by
  rw [← String.toList_inj, Text.toList_replaceAll, openedText, toList_swappedText]
  rfl

theorem storedText_eq (s : String) :
    Text.replaceAll s MediaStore.regionName MediaStore.regionMark = storedText s := by
  rw [← String.toList_inj, Text.toList_replaceAll, storedText, toList_swappedText]
  rfl

theorem storedText_openedText (s : String) : storedText (openedText s) = storedText s := by
  rw [← String.toList_inj]
  simp only [storedText, openedText, toList_swappedText]
  exact Text.swapped_swapped (by decide) (by decide) (by decide) s.toList

theorem openedText_storedText (s : String) : openedText (storedText s) = openedText s := by
  rw [← String.toList_inj]
  simp only [storedText, openedText, toList_swappedText]
  exact Text.swapped_swapped (by decide) (by decide) (by decide) s.toList

theorem storedText_eq_self_iff (s : String) :
    storedText s = s ↔ ¬Text.contains s MediaStore.regionName := by
  rw [← String.toList_inj, storedText, toList_swappedText, Bool.not_eq_true]
  exact Text.swapped_eq_self_iff (by decide) s.toList

/-- What is written for trees is opened if the trees are. -/
theorem openedText_writeTop (hts : AllNormal ts) :
    openedText (writeTop ts) = writeTop (ts.map opened) := by
  rw [openedText, swapped_writeTop isSpelled_opening hts, allSwapped_eq]
  rfl

theorem allNormal_opened (hts : AllNormal ts) : AllNormal (ts.map opened) := by
  have hopened := allNormal_swapped isSpelled_opening hts
  rwa [allSwapped_eq] at hopened

theorem any_isText_opened (ts : List Tree) :
    (ts.map opened).any Tree.isText = ts.any Tree.isText := by
  have hopened := @any_isText_swapped prefixWord ':' '_' ts
  rwa [allSwapped_eq] at hopened

/-- To open what is opened changes nothing. -/
theorem opened_opened (t : Tree) : opened (opened t) = opened t := by
  refine Tree.swapped_swapped (fun s => ?_) t
  rw [← String.toList_inj]
  simp only [toList_swappedText]
  exact Text.swapped_twice (by decide) (by decide) (by decide) s.toList

namespace MediaStore

variable {s s' : MediaStore} {document content : String} {d : Document}

/-! ## Loading -/

/-- A text that starts with neither a blank nor a mark nor a declaration is read as a whole. -/
theorem stripDeclaration_eq {cs : List Char}
    (hstart : ∀ c ∈ cs.head?, c ≠ byteOrderMark ∧ Text.isBlank c = false)
    (hdeclaration : ¬"<?xml".toList <+: cs) : stripDeclaration cs = cs := by
  have hmark : cs.dropWhile (· == byteOrderMark) = cs := by
    cases cs with
    | nil => rfl
    | cons c cs => rw [List.dropWhile_cons_of_neg (by simpa using (hstart c rfl).1)]
  have hblank : Text.trimStartList cs = cs := by
    cases cs with
    | nil => rfl
    | cons c cs => rw [Text.trimStartList, List.dropWhile_cons_of_neg (by simp [(hstart c rfl).2])]
  rw [stripDeclaration, hmark, hblank, if_neg]
  rwa [List.isPrefixOf_iff_prefix]

/-- What is written for trees that are no texts is read as a whole. -/
theorem stripDeclaration_writeTop (hts : AllNormal ts) (htexts : ts.any Tree.isText = false) :
    stripDeclaration (writeTop ts).toList = (writeTop ts).toList := by
  cases ts with
  | nil => rfl
  | cons t ts =>
    rw [List.any_cons, Bool.or_eq_false_iff] at htexts
    obtain ⟨c, cs, hwrite, hc⟩ := exists_markup hts.1 htexts.1 0 false (writeLines 0 ts)
    rw [toList_writeTop, hwrite]
    refine stripDeclaration_eq ?_ ?_
    · intro c' hc'
      cases hc'
      decide
    · intro hprefix
      obtain ⟨rest, hrest⟩ := hprefix
      exact hc.2 (List.cons.inj (List.cons.inj hrest).2).1.symm

/-- The file that is written for trees holds them, as they are while it is open. -/
theorem wrap_writeTop (hts : AllNormal ts)
    (hstart : stripDeclaration (writeTop ts).toList = (writeTop ts).toList) :
    wrap (writeTop ts) = enclosed (rows (ts.map opened)) := by
  rw [wrap, hstart, String.ofList_toList, openedText_eq, openedText_writeTop hts, enclosed,
    ← toList_writeTop_rows, String.ofList_toList]

theorem unwrap_eq (d : Document) : unwrap d = storedText (writeTop d.inRoot) := by
  rw [unwrap, storedText_eq, writeTop, Document.inRoot, List.map_map]
  rfl

theorem load_iff (h : s.disk.find? (s.path document) = some (.text content)) :
    s.load document = .ok (some d) ↔ Document.read (wrap content) = .ok d := by
  unfold load
  rw [h]
  dsimp only
  cases Document.read (wrap content) with
  | error e => exact ⟨nofun, nofun⟩
  | ok d' =>
    show Except.ok (some d') = .ok (some d) ↔ _
    simp

/-- A file that was written for trees can be loaded if and only if they can be read and are
well-named as they are while the file is open.  Then the document has a root around what a reader
makes of them. -/
theorem load_writeTop (hts : AllNormal ts) (halone : Alone (ts.map opened))
    (hstart : stripDeclaration (writeTop ts).toList = (writeTop ts).toList)
    (hfile : s.disk.find? (s.path document) = some (.text (writeTop ts))) :
    ((∃ d, s.load document = .ok (some d)) ↔
      ReadableAll (ts.map opened) ∧ allWellNamed [] (ts.map opened)) ∧
    ∀ d, s.load document = .ok (some d) → d.tree Document.top =
        .document [.element "root" [] (rereadAll [] [] (ts.map opened))] ∧
      d.inRoot = rereadAll [] [] (ts.map opened) := by
  obtain ⟨hwhole, hnames⟩ := (allNormal_opened hts).unbroken
  have hwholes : AllUnbroken (rows (ts.map opened)) := by
    rw [allUnbroken_iff, forall_mem_rows trivial, ← allUnbroken_iff]
    exact hwhole
  have hvalid : HaveValidNames (rows (ts.map opened)) := by
    rw [haveValidNames_iff, forall_mem_rows trivial, ← haveValidNames_iff]
    exact hnames
  have hreadable : ReadableAll (rows (ts.map opened)) ↔ ReadableAll (ts.map opened) := by
    have hline : (Tree.text "\n").Readable := by
      rw [Tree.Readable]
      decide
    rw [readableAll_iff, forall_mem_rows hline, ← readableAll_iff]
  have hnamed : allWellNamed [] (rows (ts.map opened)) ↔ allWellNamed [] (ts.map opened) := by
    have hline : (Tree.text "\n").wellNamed [] := rfl
    rw [allWellNamed_iff, @forall_mem_rows _ (fun t => t.wellNamed []) hline, ← allWellNamed_iff]
  have hread := Document.canRead_enclosed_iff hwholes hvalid
  simp only [load_iff hfile, wrap_writeTop hts hstart]
  rw [hreadable, hnamed] at hread
  refine ⟨hread, fun d hd => ?_⟩
  obtain ⟨hall, hwell⟩ := hread.mp ⟨d, hd⟩
  have htrees := Document.trees_of_enclosed (hreadable.mpr hall) (hnamed.mpr hwell) hd
  rwa [rereadAll_rows halone] at htrees

/-! ## Storing -/

/-- The disk with a document written at its path, and the directories made that lead there. -/
def written? (s : MediaStore) (document : String) (d : Document) : Option Disk :=
  let (disk, place) := s.disk.makeDirectories (s.path document).parent
  place.bind fun _ => disk.write (s.path document) (unwrap d)

theorem persist_eq_ok_iff : s.persist document d = .ok s' ↔
    ∃ disk, s.written? document d = some disk ∧ s' = ⟨disk, s.root⟩ := by
  unfold persist written?
  dsimp only
  generalize s.path document = file
  generalize unwrap d = content
  generalize s.disk.makeDirectories file.parent = made
  obtain ⟨disk, place⟩ := made
  dsimp only
  cases place.bind fun _ => disk.write file content with
  | none => simp
  | some disk => simp [eq_comm]

/-- A document that has been written is what its path leads to. -/
theorem find?_persist (h : s.persist document d = .ok s') :
    s'.root = s.root ∧ s'.disk.find? (s'.path document) = some (.text (unwrap d)) := by
  obtain ⟨disk, hdisk, rfl⟩ := persist_eq_ok_iff.mp h
  unfold written? at hdisk
  generalize s.disk.makeDirectories (s.path document).parent = made at hdisk
  obtain ⟨place, -, hwrite⟩ := Option.bind_eq_some_iff.mp hdisk
  exact ⟨rfl, Disk.find?_write hwrite⟩

/-- Where there is a file, a document can be written. -/
theorem persist_ok (h : s.disk.find? (s.path document) = some (.text content)) (d : Document) :
    ∃ s', s.persist document d = .ok s' := by
  obtain ⟨place, hplace, hentry⟩ := Option.bind_eq_some_iff.mp h
  obtain ⟨above, habove, hdirectory, -⟩ := Disk.locate_parent hplace
  have hwrite : s.disk.write (s.path document) (unwrap d) =
      some (s.disk.put place (.text (unwrap d))) := by
    have hfile : s.disk.entry? place ≠ some .directory := by
      rw [hentry]
      simp
    rw [Disk.write, hplace]
    exact if_neg hfile
  have hwritten : s.written? document d = some (s.disk.put place (.text (unwrap d))) := by
    unfold written?
    rw [Disk.makeDirectories_eq habove hdirectory]
    exact hwrite
  exact ⟨_, persist_eq_ok_iff.mpr ⟨_, hwritten, rfl⟩⟩

/-! ## Unchanged documents -/

theorem storedText_storedText (s : String) : storedText (storedText s) = storedText s := by
  rw [← storedText_openedText (storedText s), openedText_storedText, storedText_openedText]

/-- What is written for trees is what a file is stored as, if it holds no prefix as part of a name
and the trees are the same as those of the file while it is open. -/
theorem storedText_writeTop_eq_iff {rs : List Tree} (hts : AllNormal ts) (hrs : AllNormal rs)
    (htexts : ts.any Tree.isText = false) (htexts' : rs.any Tree.isText = false) :
    storedText (writeTop rs) = writeTop ts ↔
      ¬Text.contains (writeTop ts) regionName ∧ rs.map opened = ts.map opened := by
  rw [← storedText_eq_self_iff]
  constructor
  · intro h
    refine ⟨by rw [← h, storedText_storedText], ?_⟩
    refine writeTop_inj (allNormal_opened hrs) (allNormal_opened hts) ?_ ?_ ?_
    · rwa [any_isText_opened]
    · rwa [any_isText_opened]
    · rw [← openedText_writeTop hrs, ← openedText_writeTop hts, ← h, openedText_storedText]
  · rintro ⟨hname, hsame⟩
    calc storedText (writeTop rs)
      _ = storedText (openedText (writeTop rs)) := (storedText_openedText _).symm
      _ = storedText (writeTop (rs.map opened)) := by rw [openedText_writeTop hrs]
      _ = storedText (writeTop (ts.map opened)) := by rw [hsame]
      _ = storedText (openedText (writeTop ts)) := by rw [openedText_writeTop hts]
      _ = storedText (writeTop ts) := storedText_openedText _
      _ = writeTop ts := hname

/-- A file that was written for elements, and can be loaded, is written again when its document is
stored without a change.  It is the same as before if and only if the prefix is nowhere in it as
part of a name, and each element is read as it is, but for the prefix.  The latter is so where
there are no other prefixes, no namespaces and no carriage returns. -/
theorem persist_loaded_eq_iff (helements : ∀ t ∈ ts, t.IsElement) (hts : AllNormal ts)
    (hfile : s.disk.find? (s.path document) = some (.text (writeTop ts)))
    (hload : s.load document = .ok (some d)) :
    ∃ s', s.persist document d = .ok s' ∧
      (s'.disk.find? (s'.path document) = some (.text (writeTop ts)) ↔
        ¬Text.contains (writeTop ts) regionName ∧
          ∀ t ∈ ts, opened ((opened t).reread []) = opened t) ∧
      ∀ t ∈ ts, (opened t).plain → opened ((opened t).reread []) = opened t := by
  have hmarkup : ∀ t ∈ ts, t.isText = false := by
    intro t ht
    have helement := helements t ht
    cases t with
    | element => rfl
    | document | text | comment => exact helement.elim
  have htexts : ts.any Tree.isText = false := List.any_eq_false.mpr (by simpa using hmarkup)
  have htexts' : (ts.map opened).any Tree.isText = false := by rwa [any_isText_opened]
  obtain ⟨hcan, htrees⟩ :=
    load_writeTop hts (.inl htexts') (stripDeclaration_writeTop hts htexts) hfile
  obtain ⟨-, hnamed⟩ := hcan.mp ⟨d, hload⟩
  obtain ⟨-, hchildren⟩ := htrees d hload
  obtain ⟨s', hs'⟩ := persist_ok hfile d
  refine ⟨s', hs', ?_, fun t ht hplain => ?_⟩
  · have hrs := allNormal_rereadAll (allNormal_opened hts).unbroken.1
      (haveValidNames_rereadAll [] hnamed)
    rw [(find?_persist hs').2, unwrap_eq, hchildren, Option.some_inj, Entry.text.injEq]
    rw [rereadAll_markup htexts'] at hrs ⊢
    rw [storedText_writeTop_eq_iff hts hrs htexts, List.map_map, List.map_map, List.map_inj_left]
    · rfl
    · simpa [opened] using hmarkup
  · have hnormal : (opened t).Normal :=
      Tree.normal_swapped isSpelled_opening (allNormal_iff.mp hts t ht)
    have hwell := allWellNamed_iff.mp hnamed _ (List.mem_map_of_mem ht)
    rw [Tree.reread_of_plain hnormal hwell hplain, opened_opened]

/-- A disk with one document. -/
def holding (content : String) : MediaStore :=
  ⟨⟨[(["media"], .directory), (["media", "d.xml"], .text content)], []⟩, ⟨"media"⟩⟩

/-- Two elements, the first of them with the prefix and a text. -/
theorem persist_loaded_eq_of_prefix :
    let s := holding "<region:a b=\"1\">x &lt; y</region:a>\n<c />"
    let ts : List Tree := [.element "region:a" [("b", "1")] [.text "x < y"], .element "c" [] []]
    (∀ t ∈ ts, t.IsElement) ∧ AllNormal ts ∧
      s.disk.find? (s.path "d") = some (.text (writeTop ts)) ∧
      ∃ d, s.load "d" = .ok (some d) ∧ ∃ s', s.persist "d" d = .ok s' ∧
        s'.disk.find? (s'.path "d") = some (.text (writeTop ts)) := by
  intro s ts
  have helements : ∀ t ∈ ts, t.IsElement := by simp [ts, Tree.IsElement]
  have hts : AllNormal ts := by
    refine ⟨⟨by decide, by decide, .singleton _, rfl, trivial⟩, ?_, trivial⟩
    exact ⟨by decide, nofun, .nil, trivial⟩
  have hfile : s.disk.find? (s.path "d") = some (.text (writeTop ts)) := by decide +kernel
  have hloads : (Document.read (wrap (writeTop ts))).isOk := by decide +kernel
  obtain ⟨d, hd⟩ := Document.canRead_iff.mpr hloads
  have hload := (load_iff hfile).mpr hd
  obtain ⟨s', hs', hsame, hplain⟩ := persist_loaded_eq_iff helements hts hfile hload
  refine ⟨helements, hts, hfile, d, hload, s', hs', hsame.mpr ⟨by decide +kernel, ?_⟩⟩
  exact fun t ht => hplain t ht (by revert t; decide +kernel)

/-- What the path of a document leads to when the document was loaded and stored. -/
def reopened? (s : MediaStore) (document : String) : Option Entry :=
  match s.load document with
  | .ok (some d) =>
    match s.persist document d with
    | .ok s' => s'.disk.find? (s'.path document)
    | .error _ => none
  | _ => none

/-- A value that holds the prefix as part of a name gets the prefix.  And an element loses its
prefix where the same namespace is declared without one. -/
theorem persist_loaded_changes :
    let ts : List Tree := [.element "a" [("b", "region_x")] []]
    let us : List Tree := [.element "r" [("xmlns:p", "u")] [.element "p:a" [("xmlns", "u")] []]]
    AllNormal ts ∧ AllNormal us ∧
      reopened? (holding (writeTop ts)) "d" = some (.text "<a b=\"region:x\" />") ∧
      writeTop ts = "<a b=\"region_x\" />" ∧
      reopened? (holding (writeTop us)) "d" =
        some (.text "<r xmlns:p=\"u\">\n  <a xmlns=\"u\" />\n</r>") ∧
      writeTop us = "<r xmlns:p=\"u\">\n  <p:a xmlns=\"u\" />\n</r>" := by
  intro ts us
  have hts : AllNormal ts := ⟨⟨by decide, by decide, .nil, trivial⟩, trivial⟩
  have hus : AllNormal us :=
    ⟨⟨by decide, by decide, .singleton _, ⟨by decide, by decide, .nil, trivial⟩, trivial⟩, trivial⟩
  refine ⟨hts, hus, ?_⟩
  decide +kernel

end MediaStore

end PatchScript.Files
