import PatchScript.Command.Perform
import PatchScript.Proofs.Files.Creating

/-!
# A repository of scripts

The scripts that are made are those that are listed, however many are made before
(`new_is_inserted`).  A script that cannot be made changes nothing, unless it is the disk that
refuses.  Each other one is a new entry of the list, and is there for good.

A script that is there is not made again, with one exception.  The path of the repository may lead
nowhere only because a directory is missing that it leads out of again, as `missing/..` does.  Then
the directory is made, and the path leads to scripts that were there before (`new_is_not_inserted`).
-/

namespace PatchScript.Command

open Files
open Run (Fault)

variable {config : Config} {d d' : Disk} {place : Place} {name : String}
  {description : Option String}

/-! ## Paths -/

theorem absolute_ne_empty (d : Disk) (path : String) : (absolute d path).text ≠ "" := by
  have hhere : (herePath d).text ≠ "" := by simp [herePath]
  rw [absolute, DiskPath.join]
  split
  · rename_i hpath
    rintro rfl
    cases hpath
  · split
    · rename_i hlast
      exact absurd (String.toList_eq_nil_iff.mp (List.getLast?_eq_none_iff.mp hlast)) hhere
    · simp [hhere]
    · simp

theorem absolute_eq (hhere : d'.here = d.here) (path : String) :
    absolute d' path = absolute d path := by
  rw [absolute, absolute, herePath, herePath, hhere]

/-! ## Making scripts -/

/-- The scripts of a collection.  There are none where the path leads nowhere. -/
def scriptsOf (d : Disk) (collection : DiskPath) : Except Fault (List Listed) :=
  match d.locate collection with
  | some place => listScripts d place
  | none => .ok []

/-- The disk that `new` leaves. -/
def diskAfter (config : Config) (d : Disk) (new : String × Option String) : Disk :=
  (newScript config d new.1 new.2).2

/-- The disk after scripts are made one after the other, as far as they can be. -/
def diskAfterAll (config : Config) (d : Disk) (news : List (String × Option String)) : Disk :=
  news.foldl (diskAfter config) d

/-- What is told about a script that is made. -/
def told (result : Except CreationFault DiskPath) : Except Failure (List String) :=
  (result.map fun file => ["CREATED:" ++ file.text]).mapError .creation

theorem newScript_eq (config : Config) (d : Disk) (name : String) (description : Option String) :
    newScript config d name description =
      (told (createScript d (absolute d config.scriptsDir) name description).1,
        (createScript d (absolute d config.scriptsDir) name description).2) := by
  delta newScript
  generalize createScript d (absolute d config.scriptsDir) name description = made
  obtain ⟨result, d'⟩ := made
  cases result <;> rfl

/-- What comes of `new` is what comes of the script that it makes. -/
theorem creates_newScript (config : Config) (d : Disk) (name : String)
    (description : Option String) : ∃ result, Creates d (absolute d config.scriptsDir)
      (scriptName name) (description.bind substance?) result
      (newScript config d name description).2 ∧
    (newScript config d name description).1 = told result := by
  rw [newScript_eq]
  dsimp only
  exact ⟨_, creates d (absolute_ne_empty d _) name description, rfl⟩

theorem lasts_diskAfter (config : Config) (d : Disk) (new : String × Option String) :
    d.Lasts (diskAfter config d new) := by
  obtain ⟨result, hcreates, -⟩ := creates_newScript config d new.1 new.2
  exact hcreates.lasts

theorem lasts_diskAfterAll (config : Config) (d : Disk) (news : List (String × Option String)) :
    d.Lasts (diskAfterAll config d news) := by
  induction news generalizing d with
  | nil => exact .refl d
  | cons new news ih =>
    rw [diskAfterAll, List.foldl_cons]
    exact (lasts_diskAfter config d new).trans (ih _)

/-- A script is not made where there is one. -/
theorem newScript_taken (hname : isScriptName (scriptName name))
    (hthere : (d.locate ((absolute d config.scriptsDir).join (scriptName name))).isSome)
    (description : Option String) : newScript config d name description =
      (.error (.creation (.taken ((absolute d config.scriptsDir).join (scriptName name)))), d) := by
  have hsome : d.locate ((absolute d config.scriptsDir).join (scriptName name)) ≠ none :=
    Option.isSome_iff_ne_none.mp hthere
  obtain ⟨result, hcreates, hresult⟩ := creates_newScript config d name description
  generalize newScript config d name description = made at hcreates hresult ⊢
  obtain ⟨_, d'⟩ := made
  dsimp only at hcreates hresult
  subst hresult
  cases hcreates with
  | invalid hinvalid => exact absurd hname hinvalid
  | taken => rfl
  | refused hnone => exact absurd hnone hsome
  | done _ hnone => exact absurd hnone hsome

/-- Nothing is listed in a directory that is missing. -/
theorem listScripts_of_missing (htree : d.IsTree) (hplace : d.entry? place = none) :
    listScripts d place = .ok [] := by
  have hnone : scriptNames d place = [] := by
    refine List.eq_nil_iff_forall_not_mem.mpr fun name hname => ?_
    rw [mem_scriptNames htree, List.append_cons,
      Disk.file?_of_none (htree.missing (htree.missing hplace name) _)] at hname
    cases hname
  rw [listScripts_eq, hnone, List.mergeSort_nil]
  rfl

/-- The collection has the scripts that are in the directory where it is found later. -/
theorem scriptsOf_founded {made : Disk} {collection : DiskPath} (htree : d.IsTree)
    (hfounds : d.Founds made collection name place)
    (hwhere : (d.locate collection).isSome ∨ d.entry? place = none) :
    scriptsOf d collection = listScripts d place := by
  rw [scriptsOf]
  cases hd : d.locate collection with
  | some place' =>
    have hsame := hfounds.spreads.grows.locate hd
    rw [hfounds.start] at hsame
    rw [Option.some.inj hsame]
  | none =>
    rw [hd] at hwhere
    exact (listScripts_of_missing htree (hwhere.resolve_left nofun)).symm

/-- The list of the collection gets one entry more, if nothing was in its directory before it was
found. -/
theorem scriptsOf_withScript {collection : DiskPath} {made : Disk} (htree : d.IsTree)
    (hfounds : d.Founds made collection name place) (hname : isScriptName name)
    (hne : collection.text ≠ "") (hnone : d.locate (collection.join name) = none)
    (hdescription : ∀ s ∈ description, substance? s = some s)
    (hlasts : made.Lasts (made.withScript (place ++ [name]) name description))
    (hwhere : (d.locate collection).isSome ∨ d.entry? place = none) :
    ∃ before after, Inserted d place ⟨name, description⟩ before after (scriptsOf d collection)
      (scriptsOf (made.withScript (place ++ [name]) name description) collection) := by
  have hmissing : d.entry? (place ++ [name]) = none :=
    hwhere.elim (missing_of_located htree hfounds (isPart_of_isScriptName hname) hne hnone)
      fun hplace => htree.missing hplace _
  rw [scriptsOf_founded htree hfounds hwhere, scriptsOf, hlasts.grows.locate hfounds.start]
  exact listScripts_withScript htree hfounds hname hmissing hdescription hlasts

/-- A script stays where it is, whatever is made later, and is not made again. -/
theorem newScript_later (hname : isScriptName name)
    (hthere : (d.locate ((absolute d config.scriptsDir).join name)).isSome)
    (later : List (String × Option String)) {name' : String} (hsame : scriptName name' = name)
    (description' : Option String) :
    newScript config (diskAfterAll config d later) name' description' =
      (.error (.creation (.taken ((absolute d config.scriptsDir).join name))),
        diskAfterAll config d later) := by
  subst hsame
  have hlater := (lasts_diskAfterAll config d later).grows
  rw [← absolute_eq hlater.here] at hthere ⊢
  obtain ⟨q, hq⟩ := Option.isSome_iff_exists.mp hthere
  exact newScript_taken hname (by rw [hlater.locate hq]; rfl) description'

/-- Every script that is made, after any others, is one entry more in the list of the scripts, which
has the name and the description that are asked for, and the names of the directories stay in order.
Nothing else in the list is different.  The script is there, and from then on it cannot be made
again.  If no script is made, nothing changes, as long as the disk does not refuse.

If the repository was not there, and the path does lead to a directory that was, because the
directories on the way are made, then the entry may not be new. -/
theorem new_is_inserted (config : Config) {d₀ : Disk} (htree : d₀.IsTree)
    (news : List (String × Option String)) (name : String) (description : Option String) :
    let d := diskAfterAll config d₀ news
    let collection := absolute d₀ config.scriptsDir
    let made := newScript config d name description
    (∀ e, made.1 = .error e → e = .creation .notWritten ∨ made.2 = d) ∧
      ∀ found, made.1 = .ok found → ∃ place, made.2.locate collection = some place ∧
        ((d.locate collection).isSome ∨ d.entry? place = none → ∃ before after,
          Inserted d place ⟨scriptName name, description.bind substance?⟩ before after
            (scriptsOf d collection) (scriptsOf made.2 collection)) ∧
        hasScript made.2 collection (scriptName name) ∧
        ∀ later name' description', scriptName name' = scriptName name → ∃ e,
          newScript config (diskAfterAll config made.2 later) name' description' =
            (.error e, diskAfterAll config made.2 later) ∧ e.report.code = "CLI_SCRIPT_EXISTS" := by
  intro d collection made
  have hlasts : d₀.Lasts d := lasts_diskAfterAll config d₀ news
  have hroot : absolute d config.scriptsDir = collection := absolute_eq hlasts.grows.here _
  have hne : collection.text ≠ "" := absolute_ne_empty d₀ _
  replace htree : d.IsTree := hlasts.tree htree
  have hgrows : d.Grows made.2 := (lasts_diskAfter config d (name, description)).grows
  have hroot' : absolute made.2 config.scriptsDir = collection :=
    (absolute_eq hgrows.here _).trans hroot
  obtain ⟨result, hcreates, hmade⟩ := creates_newScript config d name description
  rw [hroot] at hcreates
  -- From here on only what `Creates` says of the two disks is used, not how they are made.
  change made.1 = _ at hmade
  change Creates d collection _ _ result made.2 at hcreates
  clear_value d collection made
  obtain ⟨_, d'⟩ := made
  dsimp only at hcreates hmade hroot' ⊢
  subst hmade
  refine ⟨fun e he => ?_, fun found hfound => ?_⟩
  · cases hcreates with
    | invalid => exact .inr rfl
    | taken => exact .inr rfl
    | refused =>
      cases he
      exact .inl rfl
    | done => cases he
  · cases hcreates with
    | invalid => cases hfound
    | taken => cases hfound
    | refused => cases hfound
    | @done made place hname hnone hfounds haccepted hlasts' =>
      have hdescription : ∀ s ∈ description.bind substance?, substance? s = some s := by
        intro s hs
        obtain ⟨text, -, hsubstance⟩ := Option.bind_eq_some_iff.mp hs
        exact substance?_of_eq_some hsubstance
      refine ⟨place, hlasts'.grows.locate hfounds.start,
        scriptsOf_withScript htree hfounds hname hne hnone hdescription hlasts',
        hasScript_withScript hfounds (isPart_of_isScriptName hname) hne haccepted hlasts',
        fun later name' description' hsame => ⟨_, newScript_later hname ?_ later hsame _, rfl⟩⟩
      rw [hroot', hlasts'.grows.locate hfounds.directory]
      rfl

/-- Another script is made before, and the name and the description have blanks around them. -/
theorem new_is_inserted_behind_another :
    let d₀ : Disk := ⟨[(["files"], .directory), (["files", "scripts"], .directory),
      (["files", "scripts", "b"], .directory), (["files", "scripts", "b", "index.mml"], .text "")],
      []⟩
    let d := diskAfterAll .default d₀ [("c", none)]
    let made := newScript .default d " a x" (some " first ")
    let collection := absolute d₀ Config.default.scriptsDir
    d₀.IsTree ∧ made.1.toOption = some ["CREATED:/files/scripts/a_x/index.mml"] ∧
      (d.locate collection).isSome ∧ hasScript made.2 collection "a_x" ∧
      ∃ place before after, Inserted d place ⟨"a_x", some "first"⟩ before after
        (scriptsOf d collection) (scriptsOf made.2 collection) := by
  intro d₀ d made collection
  have htree : d₀.IsTree := by decide
  have hmade : made.1.toOption = some ["CREATED:/files/scripts/a_x/index.mml"] := by decide +kernel
  have hthere : (d.locate collection).isSome := by decide +kernel
  have hname : scriptName " a x" = "a_x" := by decide +kernel
  have hdescription : (some " first ").bind substance? = some "first" := by decide +kernel
  have hok := (new_is_inserted .default htree [("c", none)] " a x" (some " first ")).2
  rw [hname, hdescription] at hok
  cases hfound : made.1 with
  | error e =>
    rw [hfound] at hmade
    cases hmade
  | ok found =>
    obtain ⟨place, -, hinserted, hscript, -⟩ := hok found hfound
    exact ⟨htree, hfound ▸ hmade, hthere, hscript, place, hinserted (.inl hthere)⟩

/-- A directory is listed under another name than its own, so that a script whose name is between
the two is listed in front of it.  And a path that leads nowhere leads to the scripts there are as
soon as another one is made, which takes the place of one of them. -/
theorem new_is_not_inserted :
    (let d : Disk := ⟨[(["files"], .directory), (["files", "scripts"], .directory),
        (["files", "scripts", "a\\b"], .directory),
        (["files", "scripts", "a\\b", "index.mml"], .text "")], []⟩
      let collection := absolute d Config.default.scriptsDir
      scriptsOf d collection = .ok [⟨"a/b", none⟩] ∧
        scriptsOf (newScript .default d "aA" none).2 collection =
          .ok [⟨"aA", none⟩, ⟨"a/b", none⟩] ∧ "a/b" < "aA") ∧
    let d : Disk := ⟨[(["files"], .directory), (["files", "bar"], .directory),
      (["files", "bar", "index.mml"], .text ""), (["files", "foo"], .directory),
      (["files", "foo", "index.mml"], .text "")], []⟩
    let config : Config := { Config.default with scriptsDir := "files/x/.." }
    let collection := absolute d config.scriptsDir
    let made := newScript config d "foo" none
    scriptsOf d collection = .ok [] ∧
      scriptsOf made.2 collection = .ok [⟨"bar", none⟩, ⟨"foo", none⟩] ∧
      Disk.entry? made.2 ["files", "foo", "index.mml"] = some (.text "// foo\n") := by
  -- The order of a list is not evaluated, but told by `mergeSort_eq`.
  have scripts {d : Disk} {collection : DiskPath} (place : Place) (names : List String)
      (hlocate : d.locate collection = some place) (hnames : (scriptNames d place).Perm names)
      (hsorted : names.Pairwise (· ≤ ·)) :
      scriptsOf d collection = names.mapM (listed d place) := by
    rw [scriptsOf, hlocate]
    exact (listScripts_eq d place).trans (by rw [mergeSort_eq hnames hsorted])
  refine ⟨⟨?_, ?_, by decide⟩, ?_, ?_, by decide +kernel⟩
  · exact (scripts ["files", "scripts"] ["a\\b"] (by decide +kernel)
      (by decide +kernel) (by decide)).trans (by decide +kernel)
  · exact (scripts ["files", "scripts"] ["aA", "a\\b"] (by decide +kernel)
      (by decide +kernel) (by decide)).trans (by decide +kernel)
  · decide +kernel
  · exact (scripts ["files"] ["bar", "foo"] (by decide +kernel)
      (by decide +kernel) (by decide)).trans (by decide +kernel)

end PatchScript.Command
