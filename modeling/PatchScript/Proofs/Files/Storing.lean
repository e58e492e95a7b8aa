import PatchScript.Proofs.Files.Opening
import PatchScript.Proofs.Run.Lasting
import PatchScript.Proofs.Xml.Filling

/-!
# What is stored is loaded again

A file block leaves a document, of which what is in its root is stored.  If the file is loaded
again, the root has the same trees in it, with the texts joined that stand next to each other
(`MediaStore.stored_is_loaded`).

This asks for several things.  The file can be loaded only if the trees are well-named.  Trees that
stand in the root are stored on a line each, so if there is a text among them, it must be the only
one, and it must start with nothing that is left out when a file is loaded.  The prefix as it
stands in files is not told from the prefix as part of a name.  And the trees must be read as they
are.

The root itself is not stored: an attribute that is set on it is lost, and if it is removed, it is
there again.
-/

namespace PatchScript.Files

open Run
open Script (Term)
open Xml

variable {ts : List Tree}

/-! ## Trees of files -/

/-- The trees stand in a file as they are: there are no texts among them, or there is a text alone,
which starts with nothing that is left out when the file is loaded. -/
def Storable (ts : List Tree) : Prop :=
  ts.any Tree.isText = false ∨ ∃ content, ts = [.text content] ∧
    ∀ c ∈ content.toList.head?, c ≠ MediaStore.byteOrderMark ∧ Text.isBlank c = false

theorem joinAll_text {content : String} (hclean : AllClean [.text content]) :
    joinAll [] [.text content] = [.text content] := by
  have hnormal : AllNormal [.text content] := hclean
  exact joinAll_eq hnormal (.singleton _)

theorem Storable.joinAll (h : Storable ts) (hclean : AllClean ts) : Storable (joinAll [] ts) := by
  rcases h with h | ⟨content, rfl, hstart⟩
  · refine .inl ?_
    rw [any_isText_joinAll hclean, h]
    rfl
  · exact .inr ⟨content, joinAll_text hclean, hstart⟩

/-- Joining texts does not change what is written for trees that can be stored. -/
theorem Storable.writeTop_joinAll (h : Storable ts) (hclean : AllClean ts) :
    writeTop (Xml.joinAll [] ts) = writeTop ts := by
  rcases h with h | ⟨content, rfl, -⟩
  · cases ts with
    | nil => rfl
    | cons t ts =>
      rw [← String.toList_inj, joinAll_lines h, List.map_cons, toList_writeTop, toList_writeTop,
        Tree.write_joined 0 false hclean.1, writeLines_joined 0 hclean.2]
  · rw [joinAll_text hclean]

theorem Storable.alone (h : Storable ts) : Alone ts :=
  h.imp_right fun ⟨content, hts, _⟩ => ⟨content, hts⟩

/-- The tree as it is in a file. -/
def stored (t : Tree) : Tree := t.swapped prefixWord '_' ':'

theorem allNormal_stored (hts : AllNormal ts) : AllNormal (ts.map stored) := by
  have hstored := allNormal_swapped isSpelled_storing hts
  rwa [allSwapped_eq] at hstored

theorem storedText_writeTop (hts : AllNormal ts) :
    storedText (writeTop ts) = writeTop (ts.map stored) := by
  rw [storedText, swapped_writeTop isSpelled_storing hts, allSwapped_eq]
  rfl

theorem openedText_eq_self {s : String} (h : ¬Text.contains s MediaStore.regionMark) :
    openedText s = s := by
  rw [Bool.not_eq_true] at h
  rw [← String.toList_inj, openedText, toList_swappedText]
  exact (Text.swapped_eq_self_iff (by decide) s.toList).mpr h

/-- A tree that holds no prefix as it stands in files is what it was when it is opened again. -/
theorem opened_stored {t : Tree} (h : ∀ s ∈ t.strings, ¬Text.contains s MediaStore.regionMark) :
    opened (stored t) = t :=
  calc opened (stored t)
    _ = opened t := Tree.swapped_swapped openedText_storedText t
    _ = t := Tree.swapped_eq_self fun s hs => openedText_eq_self (h s hs)

/-- What is written for a text is read as a whole if the text starts with nothing that is left
out. -/
theorem stripDeclaration_text {cs : List Char}
    (hstart : ∀ c ∈ cs.head?, c ≠ MediaStore.byteOrderMark ∧ Text.isBlank c = false) :
    MediaStore.stripDeclaration (cs.flatMap escapeTextChar) = cs.flatMap escapeTextChar := by
  cases cs with
  | nil => rfl
  | cons c cs =>
    rw [List.flatMap_cons]
    rcases isEscape_text c with hc | ⟨-, cs', hc, -⟩
    · rw [hc]
      refine MediaStore.stripDeclaration_eq hstart ?_
      rintro ⟨rest, hrest⟩
      obtain ⟨rfl, -⟩ := List.cons.inj hrest
      exact absurd hc (by decide)
    · rw [hc]
      refine MediaStore.stripDeclaration_eq ?_ ?_
      · intro c' hc'
        cases hc'
        decide
      · rintro ⟨rest, hrest⟩
        cases hrest

/-- What is stored is read as a whole. -/
theorem Storable.stripDeclaration (h : Storable ts) (hts : AllNormal ts) :
    MediaStore.stripDeclaration (writeTop (ts.map stored)).toList =
      (writeTop (ts.map stored)).toList := by
  rcases h with h | ⟨content, rfl, hstart⟩
  · refine MediaStore.stripDeclaration_writeTop (allNormal_stored hts) ?_
    have hmarkup := @any_isText_swapped prefixWord '_' ':' ts
    rw [allSwapped_eq] at hmarkup
    exact hmarkup.trans h
  · rw [List.map_singleton, toList_writeTop, writeLines, List.append_nil, stored, Tree.swapped,
      Tree.write, escapeText, toList_swappedText]
    refine stripDeclaration_text ?_
    -- At most the sign of the prefix is another one.
    generalize content.toList = cs at hstart ⊢
    have hpairs := Text.forall₂_swapped prefixWord '_' ':' cs
    generalize Text.swapped prefixWord '_' ':' cs = cs' at hpairs ⊢
    intro c hc
    cases hpairs with
    | nil => cases hc
    | cons hfirst _ =>
      cases hc
      rcases hfirst with rfl | ⟨rfl, rfl⟩
      · exact hstart _ rfl
      · decide

/-! ## Documents of files -/

/-- A document that was read from a file, and what lasts of it while it is changed. -/
structure IsFile (d : Document) : Prop where
  /-- No text is blank. -/
  filled : d.Filled
  /-- All nodes can be written. -/
  sound : d.Sound
  /-- Nothing stands at the top but the root. -/
  top : ∀ c ∈ d.children Document.top, c = d.root
  /-- The root has the name that it was given. -/
  root : ∃ attributes, d.kind? d.root = some (.element ⟨"root", attributes⟩)

namespace IsFile

variable {d d' : Document}

theorem modifyAttributes (h : IsFile d) {id : NodeId} {f : Attributes → Attributes}
    (hsound : (d.modifyAttributes id f).Sound) : IsFile (d.modifyAttributes id f) where
  filled := h.filled.modifyAttributes id f
  sound := hsound
  top c hc := by
    rw [Document.children_modifyAttributes] at hc
    exact h.top c hc
  root := by
    obtain ⟨attributes, hroot⟩ := h.root
    have hsame : (d.modifyAttributes id f).root = d.root := rfl
    rw [hsame, Document.kind?_modifyAttributes, hroot]
    split
    · exact ⟨_, rfl⟩
    · exact ⟨attributes, rfl⟩

theorem detach (h : IsFile d) (id : NodeId) : IsFile (d.detach id) where
  filled := h.filled.detach id
  sound := h.sound.detach id
  top c hc := by
    rw [(Document.Step.detach id).root]
    exact h.top c (Document.mem_of_mem_children_detach hc)
  root := by
    rw [(Document.Step.detach id).root, Document.kind?_detach]
    exact h.root

theorem detachAll : ∀ (ids : List NodeId) {d : Document}, IsFile d →
    IsFile (ids.foldl Document.detach d)
  | [], _, h => h
  | id :: ids, _, h => detachAll ids (h.detach id)

/-- What is appended to an element does not stand at the top. -/
theorem appendElement (hd : d.Reachable) (h : IsFile d) {parent id : NodeId} {name : String}
    (hparent : d.isElement parent) (happend : d.appendElement parent name = .ok (d', id)) :
    IsFile d' := by
  have hlt := Document.lt_size_of_isElement hparent
  have htop : Document.top ≠ parent := by
    rintro rfl
    obtain ⟨e, he⟩ := Document.isElement_iff.mp hparent
    rw [(hd.oneTop Document.top).mpr rfl] at he
    cases he
  have hpush := (Document.appendElement_ok happend).1
  have hroot : d'.root = d.root := (Document.Step.appendElement hlt happend).root
  refine ⟨h.filled.appendElement happend, h.sound.appendElement happend, fun c hc => ?_, ?_⟩
  · rw [hpush, Document.children_push _ _ hlt, if_neg htop] at hc
    rw [hroot]
    exact h.top c hc
  · have hold := Nat.ne_of_lt (Document.lt_size_of_isElement hd.isElement_root)
    rw [hroot, hpush, Document.kind?_push, if_neg hold]
    exact h.root

/-- Changes at elements keep the document of a file what it is. -/
theorem lasts : Lasts IsFile := by
  intro d d' id e hd hid hacts he h
  cases hacts with
  | set name value =>
    have he : d.setAttribute id name value = .ok d' := he
    have hsound := h.sound.setAttribute he
    rw [Document.setAttribute_ok he] at hsound ⊢
    exact h.modifyAttributes hsound
  | unset name =>
    cases he
    exact h.modifyAttributes (h.sound.removeAttribute id name)
  | append tag =>
    obtain ⟨⟨d₁, new⟩, happend, he⟩ := bind_eq_ok he
    cases he
    exact h.appendElement hd hid happend
  | detach =>
    cases he
    exact h.detachAll _

end IsFile

namespace MediaStore

variable {s : MediaStore} {document : String} {d : Document}

theorem exists_of_load (h : s.load document = .ok (some d)) :
    ∃ content, Document.read (wrap content) = .ok d := by
  cases hfind : s.disk.find? (s.path document) with
  | none =>
    unfold load at h
    rw [hfind] at h
    cases h
  | some entry =>
    cases entry with
    | text content => exact ⟨content, (load_iff hfind).mp h⟩
    | directory | binary =>
      unfold load at h
      rw [hfind] at h
      cases h

theorem givesReachable : GivesReachable MediaStore := by
  intro s document d h
  obtain ⟨content, hread⟩ := exists_of_load h
  exact .read hread

/-- What is loaded is the document of a file. -/
theorem isFile_of_load (h : s.load document = .ok (some d)) : IsFile d := by
  obtain ⟨content, hread⟩ := exists_of_load h
  obtain ⟨t, ht, -⟩ := bind_eq_ok hread
  obtain ⟨children, rfl⟩ := exists_of_readTree_around ht
  refine ⟨Document.filled_of_read hread, Document.sound_of_read hread, ?_, [], ?_⟩
  · rw [Document.children_top_of_read hread]
    exact fun c hc => List.mem_singleton.mp hc
  · exact (Document.trees_of_root ht hread).2.1

end MediaStore

namespace IsFile

variable {d : Document}

theorem allClean_inRoot (h : IsFile d) (hd : d.Reachable) :
    AllClean d.inRoot ∧ AllSound d.inRoot ∧ HaveValidNames d.inRoot := by
  have hlinked := hd.linked
  have htrees : ∀ t ∈ d.inRoot, t.Clean ∧ t.Sound ∧ t.HasValidNames := by
    refine List.forall_mem_map.mpr fun c hc => ?_
    obtain ⟨hbehind, hlt⟩ := hlinked.below (.single hc)
    exact Document.clean_tree hd h.filled h.sound c hlt
      (Nat.ne_of_gt (Nat.lt_of_le_of_lt (Nat.zero_le _) hbehind))
  exact ⟨allClean_iff.mpr fun t ht => (htrees t ht).1,
    allSound_iff.mpr fun t ht => (htrees t ht).2.1,
    haveValidNames_iff.mpr fun t ht => (htrees t ht).2.2⟩

/-- At the top there is the root, or nothing if the root was removed. -/
theorem tree_top (h : IsFile d) (hd : d.Reachable) : d.tree Document.top = .document [] ∨
    ∃ attributes, d.tree Document.top = .document [.element "root" attributes d.inRoot] := by
  have hlinked := hd.linked
  have htop := hd.tree_top
  have hone := h.top
  have hnodup := hlinked.nodup Document.top
  cases hchildren : d.children Document.top with
  | nil =>
    rw [hchildren] at htop
    exact .inl htop
  | cons c cs =>
    rw [hchildren] at htop hone hnodup
    obtain ⟨rfl, hcs⟩ := List.forall_mem_cons.mp hone
    have hnil : cs = [] := List.eq_nil_iff_forall_not_mem.mpr fun c' hc' =>
      (List.nodup_cons.mp hnodup).1 (hcs c' hc' ▸ hc')
    obtain ⟨attributes, hroot⟩ := h.root
    refine .inr ⟨attributes, ?_⟩
    rw [htop, hnil, List.map_singleton,
      Document.tree_eq hlinked (Document.lt_size_of_isElement hd.isElement_root), hroot]
    rfl

end IsFile

namespace MediaStore

variable {s : MediaStore} {document : String} {d : Document}

/-! ## Loading what was stored -/

/-- A file that was stored from trees can be loaded if and only if they are well-named.  Then the
document has a root around what a reader makes of them. -/
theorem load_stored (hclean : AllClean ts) (hsound : AllSound ts) (hnames : HaveValidNames ts)
    (hmark : ∀ t ∈ joinAll [] ts, ∀ x ∈ t.strings, ¬Text.contains x regionMark)
    (hstorable : Storable ts)
    (hfile : s.disk.find? (s.path document) = some (.text (storedText (writeTop ts)))) :
    ((∃ d, s.load document = .ok (some d)) ↔ allWellNamed [] ts) ∧
    ∀ d, s.load document = .ok (some d) →
      d.tree Document.top = .document [.element "root" [] d.inRoot] ∧
      d.inRoot = rereadAll [] [] ts := by
  let us := joinAll [] ts
  have hus : AllNormal us := allNormal_joinAll (.inl rfl) hclean hsound hnames
  have hstorables : Storable us := hstorable.joinAll hclean
  have hopened : (us.map stored).map opened = us := by
    have hsame : us.map (opened ∘ stored) = us.map id :=
      List.map_congr_left fun t ht => opened_stored (hmark t ht)
    rw [List.map_map, hsame, List.map_id]
  have hcontent : storedText (writeTop ts) = writeTop (us.map stored) := by
    rw [← storedText_writeTop hus, hstorable.writeTop_joinAll hclean]
  rw [hcontent] at hfile
  have halone : Alone ((us.map stored).map opened) := by
    rw [hopened]
    exact hstorables.alone
  obtain ⟨hcan, htrees⟩ := load_writeTop (allNormal_stored hus) halone
    (hstorables.stripDeclaration hus) hfile
  rw [hopened, allWellNamed_joinAll] at hcan
  have hreread : rereadAll [] [] us = rereadAll [] [] ts := rereadAll_joinAll [] [] ts
  simp only [hopened, hreread] at htrees
  refine ⟨hcan.trans ⟨fun h => h.2, fun h => ⟨?_, h⟩⟩, fun d hd => ?_⟩
  · refine AllSound.readable [] us (allSound_joinAll rfl hsound) ?_
    rwa [allWellNamed_joinAll]
  · obtain ⟨htop, hroot⟩ := htrees d hd
    exact ⟨by rw [htop, hroot], hroot⟩

/-- Where a file block does not fail and tells nothing, what its body left in the root is stored.
If nothing in it holds the prefix as it stands in files, and texts stand alone in the root, then
the file can be loaded again if and only if the trees are well-named, and there are the same trees
in the root, with the texts joined that stand next to each other, if and only if they are settled.
They are settled where there are no namespaces and no carriage returns.

The root is loaded without attributes, and it is there even if the body has removed it. -/
theorem stored_is_loaded {host : Host} {scripts presets : Nat} {path : Term Nat}
    {body : List (Term Nat)} {s t : Session MediaStore} {r : Option String}
    (h : eval (waysAt host scripts presets) (.file path body) s = (.ok r, t))
    (hquiet : t.context.diagnostics = s.context.diagnostics) :
    ∃ (value : Option String) (b : Block MediaStore),
      eval (waysAt host scripts presets) path s = (.ok value, b.opened) ∧
      b.path = value.getD "" ∧ b.body = body ∧ b.Runs host ∧
      evalBody (waysAt host scripts presets) body b.entered = (.ok (), b.closed) ∧
      b.Ends (.ok ()) t ∧
      (b.left.tree Document.top = .document [] ∨ ∃ attributes,
        b.left.tree Document.top = .document [.element "root" attributes b.left.inRoot]) ∧
      (Storable b.left.inRoot →
        (∀ u ∈ joinAll [] b.left.inRoot, ∀ x ∈ u.strings, ¬Text.contains x regionMark) →
        ((∃ d, t.store.load b.path = .ok (some d)) ↔ allWellNamed [] b.left.inRoot) ∧
        ∀ d, t.store.load b.path = .ok (some d) →
          d.tree Document.top = .document [.element "root" [] d.inRoot] ∧
          (d.inRoot = joinAll [] b.left.inRoot ↔ allSettled [] [] b.left.inRoot) ∧
          (allPlain b.left.inRoot → allSettled [] [] b.left.inRoot)) := by
  obtain ⟨value, b, hpath, hvalue, hbody, hruns, hran, hends⟩ := exists_block_of_file h hquiet
  obtain ⟨hreachable, hfile⟩ :=
    hruns.lasting givesReachable IsFile.lasts (isFile_of_load hruns.found)
  obtain ⟨hclean, hsound, hnames⟩ := hfile.allClean_inRoot hreachable
  refine ⟨value, b, hpath, hvalue, hbody, hruns, hran, hends, hfile.tree_top hreachable, ?_⟩
  intro hstorable hmark
  have hstored : t.store.disk.find? (t.store.path b.path) =
      some (.text (storedText (writeTop b.left.inRoot))) := by
    cases hends with
    | written _ hpersist =>
      rw [← unwrap_eq]
      exact (find?_persist hpersist).2
  obtain ⟨hcan, htrees⟩ := load_stored hclean hsound hnames hmark hstorable hstored
  refine ⟨hcan, fun d hd => ?_⟩
  obtain ⟨htop, hroot⟩ := htrees d hd
  refine ⟨htop, ?_, ?_⟩
  · rw [hroot]
    exact rereadAll_eq_joinAll_iff (.inl rfl) hclean
  · exact allSettled_of_plain List.not_mem_nil hclean (hcan.mp ⟨d, hd⟩)

/-- An element is changed, and another one is added. -/
theorem stored_is_loaded_of_two :
    let w : Ways MediaStore := waysAt ⟨[], 7⟩ 1 1
    let text (s : String) : Term Nat := .literal (.text s)
    let body : List (Term Nat) :=
      [.change (text "a") [.set (text "k") (text "v")], .add (text "b") []]
    let s : Session MediaStore := ⟨.new 7 ["main"], holding "<a />", []⟩
    ∃ r t, eval w (.file (text "d") body) s = (.ok r, t) ∧
      t.context.diagnostics = s.context.diagnostics ∧
      ∃ d, t.store.load "d" = .ok (some d) ∧ d.tree Document.top = .document
        [.element "root" [] [.element "a" [("k", "v")] [], .element "b" [] []]] := by
  intro w text body s
  let t := (eval w (.file (text "d") body) s).2
  have h : eval w (.file (text "d") body) s = (.ok none, t) := Prod.ext (by decide +kernel) rfl
  have hquiet : t.context.diagnostics = s.context.diagnostics := by decide +kernel
  refine ⟨none, t, h, hquiet, ?_⟩
  obtain ⟨value, b, hpath, hvalue, -, hruns, hran, -, -, hstored⟩ := stored_is_loaded h hquiet
  have hd : eval w (text "d") s = (.ok (some "d"), s) := rfl
  obtain ⟨hvalue', hopened⟩ := Prod.mk.inj (hd.symm.trans hpath)
  cases hvalue'
  let loaded : Document := ⟨#[⟨.document, none, [1]⟩, ⟨.element ⟨"root", []⟩, some 0, [2]⟩,
    ⟨.element ⟨"a", []⟩, some 1, []⟩], 1⟩
  have hloaded : b.loaded = loaded := by
    have hload : s.store.load "d" = .ok (some loaded) := by decide +kernel
    have hfound := hruns.found
    rw [hvalue, ← hopened] at hfound
    exact Option.some.inj (Except.ok.inj (hfound.symm.trans hload))
  let left : Document := ⟨#[⟨.document, none, [1]⟩, ⟨.element ⟨"root", []⟩, some 0, [2, 3]⟩,
    ⟨.element ⟨"a", [("k", "v")]⟩, some 1, []⟩, ⟨.element ⟨"b", []⟩, some 1, []⟩], 1⟩
  have hleft : b.left = left := by
    have hleaves := hruns.left
    have hclosed : b.closed = (evalBody w body b.entered).2 := by rw [hran]
    rw [hclosed, Block.entered, hvalue, ← hopened, hloaded] at hleaves
    exact Option.some.inj (hleaves.symm.trans (by decide +kernel))
  rw [hleft, hvalue] at hstored
  obtain ⟨hcan, hsame⟩ := hstored (.inl rfl) (by decide +kernel)
  obtain ⟨d, hagain⟩ := hcan.mpr (by decide +kernel)
  obtain ⟨htop, hroot, hplain⟩ := hsame d hagain
  refine ⟨d, hagain, ?_⟩
  rw [htop, hroot.mpr (hplain (by decide +kernel))]
  rfl

/-- What the directives of a body leave of the document of a file, and what is loaded when it has
been stored, if all of this goes without a fault and without a diagnostic. -/
def edited? (content : String) (body : List (Term Nat)) :
    Option (Document × Except Fault (Option Document)) :=
  let w : Ways MediaStore := waysAt ⟨[], 7⟩ 1 1
  let s : Session MediaStore := ⟨.new 7 ["main"], holding content, []⟩
  match s.store.load "d", eval w (.file (.literal (.text "d")) body) s with
  | .ok (some loaded), (.ok _, t) =>
    if t.context.diagnostics = [] then
      let closed := (evalBody w body (s.comeTo (s.context.enterDocument loaded))).2
      closed.context.document.map fun left => (left, t.store.load "d")
    else none
  | _, _ => none

/-- An attribute of the root is lost, and the root is there again when it was removed.  Texts that
have come to stand next to each other are joined.  A text in the root gets the line end behind it,
and loses the blanks that it starts with.  And a file cannot be loaded again, because of a name
that cannot be resolved or of a value with a character that is not one of XML. -/
theorem stored_is_changed :
    let text (s : String) : Term Nat := .literal (.text s)
    let strings (content : String) (body : List (Term Nat)) :=
      (edited? content body).map fun x => ((x.1.tree Document.top).strings,
        x.2.toOption.join.map fun d => (d.tree Document.top).strings)
    strings "<b />" [.set (text "a") (text "1")] =
        some (["root", "a", "1", "b"], some ["root", "b"]) ∧
      strings "<b />" [.removeElement (text "/root")] = some ([], some ["root", "b"]) ∧
      strings "<a>x<b />y</a>" [.change (text "a") [.removeElement (text "b")]] =
        some (["root", "a", "x", "y"], some ["root", "a", "xy"]) ∧
      strings "x<a />" [] = some (["root", "x", "a"], some ["root", "x\n", "a"]) ∧
      strings "<a /> x" [.removeElement (text "a")] = some (["root", " x"], some ["root", "x"]) ∧
      strings "<a />" [.add (text "p:b") []] = some (["root", "a", "p:b"], none) ∧
      strings "<a />" [.change (text "a") [.set (text "k") (text "\x01")]] =
        some (["root", "a", "k", "\x01"], none) := by
  decide +kernel

end MediaStore

end PatchScript.Files
