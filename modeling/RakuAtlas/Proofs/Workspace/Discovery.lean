import RakuAtlas.Proofs.Disk.Linkless
import RakuAtlas.Proofs.Workspace.ModuleNames
import RakuAtlas.Proofs.Workspace.Numbering

/-!
# RakuAtlas.Proofs.Workspace.Discovery — the modules below the include paths

Every include path offers the modules that the files below it define (`ModuleMap.offered`), in the
order of the walk. The map that is made of all of these keeps the first file for each name, and
the names in the order in which they were offered first.

* `ModuleMap.discover_eq_foldl`: the map is made of what is offered, one by one.
* `ModuleMap.get?_foldl_add`, `ModuleMap.names_foldl_add`, `ModuleMap.prefix_foldl_add`: the first
  offer of a name counts.
* `ModuleMap.mem_offered_iff`: what is offered in a tree without links, by the files in the tree.
* `ModuleMap.discover_maps_first`: the modules that are found.

Files that cannot be opened by their path, since it is too long, define no module
(`ModuleMap.discover_misses_deep`).
-/

namespace RakuAtlas

/-- No file has a name that is a single dot in front of an extension. -/
def Disk.NoDotStems (disk : Disk) : Prop :=
  ∀ place text last, disk.lookup? place = some (.file text) → '.' ∉ String.toList last →
    place.getLast? ≠ some (".." ++ last)

theorem Disk.noDotStems_of_items {disk : Disk}
    (h : ∀ place ∈ disk.items.map Prod.fst, ∀ name ∈ place.getLast?,
      name.toList.head? ≠ some '.') : disk.NoDotStems := by
  intro place text last hitem hlast hname
  by_cases hroot : place = []
  · subst hroot
    cases hitem
  · refine h place (List.mem_map_of_mem (Disk.mem_items_of_lookup? hroot hitem)) _ hname ?_
    simp

namespace ModuleMap

/-! ## What is offered -/

/-- The configuration under which module files are looked for. -/
abbrev moduleConfig (config : IndexConfig) : IndexConfig :=
  { config with extensions := moduleExtensions }

/-- The modules in a list of files below `root`, with the files that define them. -/
def definitions (root : Place) (places : List Place) : List (String × Place) :=
  places.filterMap fun place => (moduleName? root place).map (·, place)

/-- The modules below an include path, with the files that define them. -/
def offered (disk : Disk) (config : IndexConfig) (path : Path) : List (String × Place) :=
  match disk.resolve path with
  | .ok (root, _) => definitions root (disk.walk (moduleConfig config) [root.path] false).files
  | .error _ => []

/-- Add a module with the file that defines it. -/
def add (found : ModuleMap × Files) (offer : String × Place) : ModuleMap × Files :=
  (found.1.insert offer.1 (found.2.number offer.2.path).1, (found.2.number offer.2.path).2)

theorem addFiles_eq_foldl (root : Place) (m : ModuleMap) (files : Files) (places : List Place) :
    m.addFiles root files places = (definitions root places).foldl add (m, files) := by
  induction places generalizing m files with
  | nil => rfl
  | cons place more ih =>
    rw [addFiles, definitions, List.filterMap_cons]
    cases hname : moduleName? root place with
    | none => exact ih m files
    | some name => exact ih _ _

theorem addPath_eq_foldl (disk : Disk) (config : IndexConfig) (found : ModuleMap × Files)
    (path : Path) : found.1.addPath disk config found.2 path =
      (offered disk config path).foldl add found := by
  unfold addPath offered
  cases disk.resolve path with
  | ok target => exact addFiles_eq_foldl ..
  | error e => rfl

/-- The modules are added one by one, as they are offered. -/
theorem discover_eq_foldl (disk : Disk) (config : IndexConfig) (files : Files)
    (paths : List Path) : discover disk config files paths =
      (paths.flatMap (offered disk config)).foldl add (.empty, files) := by
  rw [List.foldl_flatMap, discover]
  congr 1
  funext found path
  exact addPath_eq_foldl disk config found path

/-! ## The first offer counts -/

theorem isSome_get?_iff {m : ModuleMap} {name : String} :
    (m.get? name).isSome ↔ name ∈ m.entries.map Prod.fst := by
  rw [get?, Option.isSome_map, List.find?_isSome, List.mem_map]
  simp only [beq_iff_eq]

/-- A name that is known keeps its file. -/
theorem get?_insert (m : ModuleMap) (name : String) (file : FileId) (other : String) :
    (m.insert name file).get? other =
      (m.get? other).or (if name = other then some file else none) := by
  unfold insert
  split
  · next hknown =>
    by_cases hname : name = other
    · rw [← hname]
      obtain ⟨known, hknown⟩ := Option.isSome_iff_exists.1 hknown
      rw [hknown, Option.some_or]
    · rw [if_neg hname, Option.or_none]
  · rw [get?, List.find?_append, get?]
    cases m.entries.find? (·.1 == other) with
    | some entry => rfl
    | none =>
      by_cases hname : name = other
      · simp [hname]
      · simp [hname]

/-- A name that is known does not come again. -/
theorem names_insert {m : ModuleMap} {before : List String}
    (hbefore : m.entries.map Prod.fst = before.eraseDups) (name : String) (file : FileId) :
    (m.insert name file).entries.map Prod.fst = (before ++ [name]).eraseDups := by
  have hknown : (m.get? name).isSome ↔ name ∈ before := by
    rw [isSome_get?_iff, hbefore, List.mem_eraseDups]
  unfold insert
  split
  · next hsome => rw [Order.eraseDups_concat_of_mem (hknown.1 hsome), hbefore]
  · next hnone =>
    rw [Order.eraseDups_concat_of_not_mem fun hmem => hnone (hknown.2 hmem), List.map_append,
      hbefore]
    rfl

theorem prefix_insert (m : ModuleMap) (name : String) (file : FileId) :
    m.entries <+: (m.insert name file).entries := by
  unfold insert
  split
  · exact List.prefix_rfl
  · exact List.prefix_append ..

/-- What is in the map stays in front. -/
theorem prefix_foldl_add (found : ModuleMap × Files) (offers : List (String × Place)) :
    found.1.entries <+: (offers.foldl add found).1.entries := by
  induction offers generalizing found with
  | nil => exact List.prefix_rfl
  | cons offer more ih => exact (prefix_insert ..).trans (ih (add found offer))

theorem extends_foldl_add (found : ModuleMap × Files) (offers : List (String × Place)) :
    found.2.Extends (offers.foldl add found).2 := by
  induction offers generalizing found with
  | nil => exact .refl _
  | cons offer more ih => exact (found.2.extends_number _).trans (ih (add found offer))

/-- The names come in the order in which they are offered first. -/
theorem names_foldl_add {found : ModuleMap × Files} {before : List String}
    (hbefore : found.1.entries.map Prod.fst = before.eraseDups) (offers : List (String × Place)) :
    (offers.foldl add found).1.entries.map Prod.fst =
      (before ++ offers.map Prod.fst).eraseDups := by
  induction offers generalizing found before with
  | nil => simpa using hbefore
  | cons offer more ih =>
    rw [List.foldl_cons, List.map_cons, List.append_cons]
    exact ih (names_insert hbefore ..)

/-- A name keeps the file that it has. Otherwise it gets the file of the first offer. -/
theorem get?_foldl_add (found : ModuleMap × Files) (offers : List (String × Place))
    (name : String) : (offers.foldl add found).1.get? name =
      (found.1.get? name).or ((offers.find? (·.1 == name)).bind fun offer =>
        (offers.foldl add found).2.lookup? offer.2.path) := by
  induction offers generalizing found with
  | nil => simp
  | cons offer more ih =>
    have hnumber := (extends_foldl_add (add found offer) more).lookup?
      (found.2.lookup?_number offer.2.path)
    rw [List.foldl_cons, ih, add, get?_insert, Option.or_assoc]
    congr 1
    by_cases hname : offer.1 = name
    · rw [if_pos hname, List.find?_cons_of_pos (by simpa using hname)]
      exact hnumber.symm
    · rw [if_neg hname, List.find?_cons_of_neg (by simpa using hname)]
      rfl

/-! ## Files that define modules -/

/-- A file below an include path defines the module that the directories and its name spell, if no
directory on the way is ignored and the system can open it there. -/
inductive Defines (disk : Disk) (config : IndexConfig) (path : Path) : String → Place → Prop
  | intro {root : Place} {kind : Disk.Target} {dirs : List String} {front last : String}
      {text : Option String} (hpath : disk.resolve path = .ok (root, kind))
      (hkept : ∀ dir ∈ dirs, ¬config.isIgnored dir) (hfront : front ≠ "")
      (hlast : '.' ∉ last.toList) (hmodule : moduleExtensions.any (IndexConfig.sameLetters · last))
      (hopened : disk.reach (root.path.descend (dirs ++ [front ++ "." ++ last])) =
        .ok (root ++ (dirs ++ [front ++ "." ++ last]), .file text)) :
      Defines disk config path ("::".intercalate (dirs ++ [front]))
        (root ++ (dirs ++ [front ++ "." ++ last]))

section
variable {disk : Disk} {config : IndexConfig} {path : Path} {name : String} {place : Place}

/-- The parts of the name of a module come from names of directories and of a file. -/
theorem front_of_lookup? (htree : disk.IsTree) (hdots : disk.NoDotStems) {root : Place}
    {dirs : List String} {front last : String} {text : Option String}
    (hitem : disk.lookup? (root ++ (dirs ++ [front ++ "." ++ last])) = some (.file text))
    (hfront : front ≠ "") (hlast : '.' ∉ last.toList) :
    Place.IsProper dirs ∧ '/' ∉ front.toList ∧ front ≠ "" ∧ front ≠ "." := by
  have hproper := htree.isProper_of_lookup? hitem
  refine ⟨fun dir hdir => hproper dir (by simp [hdir]), ?_, hfront, ?_⟩
  · have hname := (hproper (front ++ "." ++ last) (by simp)).1
    simp only [String.toList_append, List.mem_append, not_or] at hname
    exact hname.1.1
  · rintro rfl
    refine hdots _ _ last hitem hlast ?_
    rw [← List.append_assoc, List.getLast?_concat]
    rfl

/-- What is offered is defined by a file. -/
theorem defines_of_mem_offered (htree : disk.IsTree) (hlinks : disk.Linkless)
    (hdots : disk.NoDotStems) (h : (name, place) ∈ offered disk config path) :
    Defines disk config path name place := by
  unfold offered at h
  split at h
  · next root kind hpath =>
    obtain ⟨found, hfound, hname⟩ := List.mem_filterMap.1 h
    obtain ⟨known, hname, heq⟩ := Option.map_eq_some_iff.1 hname
    obtain ⟨rfl, rfl⟩ := Prod.mk.inj heq
    have hroot := htree.isProper_of_lookup? (htree.lookup?_of_leads (Disk.leads_of_resolve hpath))
    obtain ⟨below, text, rfl, hkept, hopened, hsource⟩ :=
      (Disk.mem_sources_iff_of_linkless htree hlinks hroot).1 (Disk.files_sublist.subset hfound)
    have hitem := htree.lookup?_of_leads (Disk.leads_of_reach hopened)
    rcases List.eq_nil_or_concat below with rfl | ⟨dirs, file, rfl⟩
    · rw [List.append_nil, moduleName?_self] at hname
      cases hname
    · rw [List.concat_eq_append] at *
      rw [List.dropLast_concat] at hkept
      have hfile : Path.IsName file := htree.isProper_of_lookup? hitem file (by simp)
      rw [IndexConfig.isSourcePath, Path.descend_concat,
        Path.fileName?_child (Path.head?_descend root.head?_path dirs) hfile, Option.any_some,
        IndexConfig.isSource_iff] at hsource
      obtain ⟨front, last, rfl, hfront, hlast, hmodule⟩ := hsource
      obtain ⟨hdirs, hplain⟩ := front_of_lookup? htree hdots hitem hfront hlast
      rw [moduleName?_append hdirs hplain hlast] at hname
      cases hname
      exact .intro hpath hkept hfront hlast hmodule hopened
  · cases h

/-- What is defined by a file is offered, if the walk is not stopped at the limit. -/
theorem mem_offered_of_defines (htree : disk.IsTree) (hlinks : disk.Linkless)
    (hdots : disk.NoDotStems)
    (hwhole : ∀ root kind, disk.resolve path = .ok (root, kind) →
      (disk.walk (moduleConfig config) [root.path] false).truncated = false)
    (h : Defines disk config path name place) : (name, place) ∈ offered disk config path := by
  cases h with
  | @intro root kind dirs front last text hpath hkept hfront hlast hmodule hopened =>
    have hroot := htree.isProper_of_lookup? (htree.lookup?_of_leads (Disk.leads_of_resolve hpath))
    have hitem := htree.lookup?_of_leads (Disk.leads_of_reach hopened)
    obtain ⟨hdirs, hplain⟩ := front_of_lookup? htree hdots hitem hfront hlast
    have hfile : Path.IsName (front ++ "." ++ last) :=
      htree.isProper_of_lookup? hitem _ (by simp)
    have hfound : root ++ (dirs ++ [front ++ "." ++ last]) ∈
        disk.sources (moduleConfig config) [root.path] := by
      refine (Disk.mem_sources_iff_of_linkless htree hlinks hroot).2
        ⟨_, text, rfl, ?_, hopened, ?_⟩
      · rw [List.dropLast_concat]
        exact hkept
      · rw [IndexConfig.isSourcePath, Path.descend_concat,
          Path.fileName?_child (Path.head?_descend root.head?_path dirs) hfile, Option.any_some]
        exact IndexConfig.isSource_iff.2 ⟨front, last, rfl, hfront, hlast, hmodule⟩
    rw [← Disk.files_of_not_truncated (hwhole root kind hpath)] at hfound
    unfold offered
    rw [hpath]
    refine List.mem_filterMap.2 ⟨_, hfound, ?_⟩
    rw [moduleName?_append hdirs hplain hlast]
    rfl

/-- What is offered is in the order of the files. -/
theorem pairwise_offered (htree : disk.IsTree) (hlinks : disk.Linkless) :
    (offered disk config path).Pairwise fun offer other => offer.2 < other.2 := by
  unfold offered
  split
  · next root kind hpath =>
    have hfiles := (Disk.pairwise_sources htree hlinks).sublist
      (@Disk.files_sublist disk (moduleConfig config) [root.path])
    refine hfiles.filterMap _ ?_
    intro place place' hlt offer hoffer offer' hoffer'
    obtain ⟨name, -, rfl⟩ := Option.map_eq_some_iff.1 hoffer
    obtain ⟨name', -, rfl⟩ := Option.map_eq_some_iff.1 hoffer'
    exact hlt
  · exact .nil

end

/-- The names of the map are those that are offered. -/
theorem names_discover (disk : Disk) (config : IndexConfig) (files : Files) (paths : List Path) :
    (discover disk config files paths).1.entries.map Prod.fst =
      ((paths.flatMap (offered disk config)).map Prod.fst).eraseDups := by
  rw [discover_eq_foldl]
  exact @names_foldl_add (.empty, files) [] rfl _

theorem isSome_discover_iff {disk : Disk} {config : IndexConfig} {files : Files}
    {paths : List Path} {name : String} :
    ((discover disk config files paths).1.get? name).isSome ↔
      ∃ path ∈ paths, ∃ place, (name, place) ∈ offered disk config path := by
  rw [isSome_get?_iff, names_discover, List.mem_eraseDups, List.mem_map]
  constructor
  · rintro ⟨⟨_, place⟩, hoffer, rfl⟩
    obtain ⟨path, hpath, hmem⟩ := List.mem_flatMap.1 hoffer
    exact ⟨path, hpath, place, hmem⟩
  · rintro ⟨path, hpath, place, hmem⟩
    exact ⟨(name, place), List.mem_flatMap.2 ⟨path, hpath, hmem⟩, rfl⟩

/-- In a tree without links, and if no walk is stopped at the limit, a name is mapped if and only if
a file below an include path defines it. It is mapped to the first of these files, by the order of
the include paths and then of the walk, and the names come in the order in which they are met
first. Further include paths change nothing for the names that are mapped. -/
theorem discover_maps_first (disk : Disk) (config : IndexConfig) (files : Files)
    (paths : List Path) (htree : disk.IsTree) (hlinks : disk.Linkless) (hdots : disk.NoDotStems)
    (hwhole : ∀ path ∈ paths, ∀ root kind, disk.resolve path = .ok (root, kind) →
      (disk.walk (moduleConfig config) [root.path] false).truncated = false) :
    (∀ name, ((discover disk config files paths).1.get? name).isSome ↔
      ∃ path ∈ paths, ∃ place, Defines disk config path name place) ∧
    (∀ name file, (discover disk config files paths).1.get? name = some file →
      ∃ earlier path later place, paths = earlier ++ path :: later ∧
        (∀ other ∈ earlier, ∀ place', ¬Defines disk config other name place') ∧
        Defines disk config path name place ∧
        (∀ place', Defines disk config path name place' → place' = place ∨ place < place') ∧
        (discover disk config files paths).2.lookup? place.path = some file) ∧
    (discover disk config files paths).1.entries.map Prod.fst =
      ((paths.flatMap (offered disk config)).map Prod.fst).eraseDups ∧
    (∀ path ∈ paths, (offered disk config path).Pairwise (fun offer other => offer.2 < other.2) ∧
      ∀ name place, (name, place) ∈ offered disk config path ↔
        Defines disk config path name place) ∧
    ∀ more, (discover disk config files paths).1.entries <+:
      (discover disk config files (paths ++ more)).1.entries := by
  have hoffered : ∀ path ∈ paths, ∀ name place, (name, place) ∈ offered disk config path ↔
      Defines disk config path name place := fun path hpath name place =>
    ⟨defines_of_mem_offered htree hlinks hdots,
      mem_offered_of_defines htree hlinks hdots (hwhole path hpath)⟩
  refine ⟨fun name => ?_, fun name file hfile => ?_, names_discover disk config files paths,
    fun path hpath => ⟨pairwise_offered htree hlinks, hoffered path hpath⟩, fun more => ?_⟩
  · rw [isSome_discover_iff]
    refine exists_congr fun path => and_congr_right fun hpath => ?_
    exact exists_congr fun place => hoffered path hpath name place
  · rw [discover_eq_foldl, get?_foldl_add] at hfile
    obtain ⟨offer, hoffer, hlookup⟩ := Option.bind_eq_some_iff.1 hfile
    rw [List.find?_flatMap, List.findSome?_eq_some_iff] at hoffer
    obtain ⟨earlier, path, later, hpaths, hfirst, hnone⟩ := hoffer
    have hmem : path ∈ paths := hpaths ▸ List.mem_append_right _ List.mem_cons_self
    obtain ⟨hname, before, after, hsplit, hbefore⟩ := List.find?_eq_some_iff_append.1 hfirst
    obtain ⟨known, place⟩ := offer
    obtain rfl : known = name := by simpa using hname
    refine ⟨earlier, path, later, place, hpaths, ?_, ?_, ?_, ?_⟩
    · intro other hother place' hdefines
      have hother' : other ∈ paths := hpaths ▸ List.mem_append_left _ hother
      have hmem' := (hoffered other hother' _ place').2 hdefines
      simpa using List.find?_eq_none.1 (hnone other hother) _ hmem'
    · exact (hoffered path hmem _ place).1 (hsplit ▸ List.mem_append_right _ List.mem_cons_self)
    · intro place' hdefines
      have hpairwise := @pairwise_offered disk config path htree hlinks
      have hmem' := (hoffered path hmem _ place').2 hdefines
      rw [hsplit] at hmem' hpairwise
      rcases List.mem_append.1 hmem' with hold | hlater
      · simpa using hbefore _ hold
      · rcases List.mem_cons.1 hlater with hsame | hafter
        · exact Or.inl (Prod.mk.inj hsame).2
        · exact Or.inr ((List.pairwise_cons.1 (List.pairwise_append.1 hpairwise).2.1).1 _ hafter)
    · rw [discover_eq_foldl]
      exact hlookup
  · rw [discover_eq_foldl, discover_eq_foldl, List.flatMap_append, List.foldl_append]
    exact prefix_foldl_add ..

/-- Two files that define the same module, one in a directory that is an include path of its own
and has an ending in capitals. -/
def nested : Disk := ⟨[(["lib"], .directory), (["lib", "Foo.rakumod"], .file (some "")),
  (["lib", "sub"], .directory), (["lib", "sub", "Foo.PM6"], .file (some ""))]⟩

/-- The file in front is known under one name, and the other one under two. -/
theorem discover_maps_first_nested : nested.IsTree ∧ nested.Linkless ∧ nested.NoDotStems ∧
    (∀ path ∈ ([⟨"/lib"⟩, ⟨"/lib/sub"⟩] : List Path), ∀ root kind,
      nested.resolve path = .ok (root, kind) →
        (nested.walk (moduleConfig {}) [root.path] false).truncated = false) ∧
    ((discover nested {} .empty [⟨"/lib"⟩, ⟨"/lib/sub"⟩]).1.get? "Foo").isSome ∧
    ((discover nested {} .empty [⟨"/lib"⟩, ⟨"/lib/sub"⟩]).1.get? "sub::Foo").isSome := by
  have htree : nested.IsTree := Disk.isTree_of_items (by decide) (by decide +kernel)
    (by simp [nested, Disk.lookup?])
  have hlinks : nested.Linkless := Disk.linkless_of_items (by simp [nested])
  have hdots : nested.NoDotStems := Disk.noDotStems_of_items (by decide +kernel)
  have hwhole : ∀ path ∈ ([⟨"/lib"⟩, ⟨"/lib/sub"⟩] : List Path), ∀ root kind,
      nested.resolve path = .ok (root, kind) →
        (nested.walk (moduleConfig {}) [root.path] false).truncated = false :=
    fun _ _ _ _ _ => Disk.not_truncated_of_length htree (by decide)
  have hlib : nested.reach ⟨"/lib"⟩ = .ok (["lib"], .directory) :=
    Disk.reach_of_followWithin 20 (by decide +kernel)
  have hfoo : ∃ place, Defines nested {} ⟨"/lib"⟩ "Foo" place := by
    have hname : "::".intercalate ([] ++ ["Foo"]) = "Foo" := by decide +kernel
    rw [← hname]
    exact ⟨_, @Defines.intro nested {} ⟨"/lib"⟩ ["lib"] _ [] "Foo" "rakumod" (some "")
      (Disk.resolve_of_reach hlib) (by simp) (by decide) (by decide) (by decide +kernel)
      (Disk.reach_of_followWithin 20 (by decide +kernel))⟩
  have hsub : ∃ place, Defines nested {} ⟨"/lib"⟩ "sub::Foo" place := by
    have hname : "::".intercalate (["sub"] ++ ["Foo"]) = "sub::Foo" := by decide +kernel
    rw [← hname]
    exact ⟨_, @Defines.intro nested {} ⟨"/lib"⟩ ["lib"] _ ["sub"] "Foo" "PM6" (some "")
      (Disk.resolve_of_reach hlib) (by decide +kernel) (by decide) (by decide) (by decide +kernel)
      (Disk.reach_of_followWithin 20 (by decide +kernel))⟩
  obtain ⟨hmapped, -⟩ := discover_maps_first nested {} .empty _ htree hlinks hdots hwhole
  exact ⟨htree, hlinks, hdots, hwhole,
    (hmapped "Foo").2 ⟨_, List.mem_cons_self, hfoo⟩,
    (hmapped "sub::Foo").2 ⟨_, List.mem_cons_self, hsub⟩⟩

/-! ### Files that are too deep -/

/-- A name of two hundred letters. -/
def longName : String := String.ofList (List.replicate 200 'd')

/-- The place behind so many long names. -/
def deepPlace (depth : Nat) : Place := "a" :: List.replicate depth longName

/-- A file behind so many long names that its path is too long to be opened. -/
def deep : Disk := ⟨(List.range 23).map (fun depth => (deepPlace depth, .directory)) ++
  [(deepPlace 22 ++ ["Foo.rakumod"], .file (some ""))]⟩

namespace deep

theorem nodup : (deep.items.map Prod.fst).Nodup := by
  refine List.Nodup.of_map List.length ?_
  decide +kernel

theorem isName_longName : Path.IsName longName := by
  refine @Path.isName_of_partOf? (List.replicate 200 'd') _ ?_ ?_
  · rw [List.mem_replicate]
    decide
  · rw [Path.partOf?, if_neg (by decide), if_neg (by decide)]
    rfl

theorem isProper (depth : Nat) : (deepPlace depth).IsProper := by
  intro text htext
  rcases List.mem_cons.1 htext with rfl | hlong
  · decide
  · rw [List.eq_of_mem_replicate hlong]
    exact isName_longName

/-- All but one of what stands there are directories. -/
theorem mem_items {place : Place} {item : Disk.Item} (h : (place, item) ∈ deep.items) :
    (∃ depth < 23, place = deepPlace depth ∧ item = .directory) ∨
      place = deepPlace 22 ++ ["Foo.rakumod"] ∧ item = .file (some "") := by
  rcases List.mem_append.1 h with hdir | hfile
  · obtain ⟨depth, hdepth, heq⟩ := List.mem_map.1 hdir
    obtain ⟨rfl, rfl⟩ := Prod.mk.inj heq
    exact Or.inl ⟨depth, List.mem_range.1 hdepth, rfl, rfl⟩
  · exact Or.inr (Prod.mk.inj (List.mem_singleton.1 hfile))

theorem lookup?_deepPlace {depth : Nat} (hdepth : depth < 23) :
    deep.lookup? (deepPlace depth) = some .directory := by
  refine Disk.lookup?_of_nodup nodup (by simp [deepPlace]) (List.mem_append_left _ ?_)
  exact List.mem_map.2 ⟨depth, List.mem_range.2 hdepth, rfl⟩

theorem isTree : deep.IsTree := by
  refine Disk.isTree_of_items nodup ?_ ?_
  · intro place hplace
    obtain ⟨⟨_, item⟩, hentry, rfl⟩ := List.mem_map.1 hplace
    rcases mem_items hentry with ⟨depth, -, rfl, -⟩ | ⟨rfl, -⟩
    · exact ⟨isProper depth, by simp [deepPlace]⟩
    · exact ⟨(isProper 22).concat (by decide +kernel), by simp⟩
  · intro place hplace
    obtain ⟨⟨_, item⟩, hentry, rfl⟩ := List.mem_map.1 hplace
    rcases mem_items hentry with ⟨depth, hdepth, rfl, -⟩ | ⟨rfl, -⟩
    · cases depth with
      | zero => rfl
      | succ depth =>
        have hdrop : (deepPlace (depth + 1)).dropLast = deepPlace depth := by
          rw [deepPlace, List.replicate_succ', ← List.cons_append, List.dropLast_concat, deepPlace]
        rw [hdrop]
        exact lookup?_deepPlace (by omega)
    · rw [List.dropLast_concat]
      exact lookup?_deepPlace (by decide)

/-- The one file. -/
theorem eq_of_lookup?_file {place : Place} {text : Option String}
    (h : deep.lookup? place = some (.file text)) : place = deepPlace 22 ++ ["Foo.rakumod"] := by
  by_cases hroot : place = []
  · subst hroot
    cases h
  · rcases mem_items (Disk.mem_items_of_lookup? hroot h) with ⟨depth, -, -, hitem⟩ | ⟨hplace, -⟩
    · cases hitem
    · exact hplace

theorem noDotStems : deep.NoDotStems := by
  intro place text last hitem hlast hname
  rw [eq_of_lookup?_file hitem, List.getLast?_concat, Option.some.injEq] at hname
  have hhead := congrArg (·.toList.head?) hname
  simp at hhead

theorem linkless : deep.Linkless := by
  refine Disk.linkless_of_items fun entry hentry target hitem => ?_
  rcases mem_items hentry with ⟨depth, -, -, hdir⟩ | ⟨-, hfile⟩
  · cases hdir.symm.trans hitem
  · cases hfile.symm.trans hitem

theorem reach_a : deep.reach ⟨"/a"⟩ = .ok (["a"], .directory) :=
  Disk.reach_of_followWithin 20 (by decide +kernel)

/-- The one file cannot be opened, and so it defines nothing. -/
theorem not_defines (name : String) (place : Place) : ¬Defines deep {} ⟨"/a"⟩ name place := by
  intro h
  cases h with
  | @intro root kind dirs front last text hpath hkept hfront hlast hmodule hopened =>
    have hroot := (Disk.resolve_of_reach reach_a).symm.trans hpath
    cases hroot
    have hitem := isTree.lookup?_of_leads (Disk.leads_of_reach hopened)
    have hnames : dirs ++ [front ++ "." ++ last] =
        List.replicate 22 longName ++ ["Foo.rakumod"] :=
      (List.cons.inj (eq_of_lookup?_file hitem)).2
    have hlong : Disk.pathLimit < (Path.descend (Place.path ["a"])
        (List.replicate 22 longName ++ ["Foo.rakumod"])).spelling.utf8ByteSize := by
      refine Nat.lt_of_lt_of_le ?_ (Path.utf8ByteSize_add_le_descend _ _)
      decide +kernel
    have hshort := (Disk.reach_eq_ok_iff.1 hopened).2.1
    rw [hnames] at hshort
    omega

end deep

/-- A module file that stands below an include path is not found. -/
theorem discover_misses_deep : deep.IsTree ∧ deep.Linkless ∧ deep.NoDotStems ∧
    (deep.walk (moduleConfig {}) [Place.path ["a"]] false).truncated = false ∧
    deep.resolve ⟨"/a"⟩ = .ok (["a"], .directory) ∧
    deep.lookup? (["a"] ++ (List.replicate 22 longName ++ ["Foo.rakumod"])) =
      some (.file (some "")) ∧
    (∀ dir ∈ List.replicate 22 longName, ¬IndexConfig.isIgnored {} dir) ∧
    (discover deep {} .empty [⟨"/a"⟩]).1.get?
      ("::".intercalate (List.replicate 22 longName ++ ["Foo"])) = none := by
  refine ⟨deep.isTree, deep.linkless, deep.noDotStems, ?_,
    Disk.resolve_of_reach deep.reach_a, ?_, ?_, ?_⟩
  · exact Disk.not_truncated_of_length deep.isTree (by decide)
  · exact Disk.lookup?_of_nodup deep.nodup (by simp)
      (List.mem_append_right _ List.mem_cons_self)
  · intro dir hdir
    rw [List.eq_of_mem_replicate hdir]
    decide +kernel
  · rw [← Option.not_isSome_iff_eq_none, isSome_discover_iff]
    rintro ⟨path, hpath, place, hmem⟩
    rw [List.mem_singleton.1 hpath] at hmem
    exact deep.not_defines _ place (defines_of_mem_offered deep.isTree deep.linkless
      deep.noDotStems hmem)

end ModuleMap

end RakuAtlas
