import RakuAtlas.Proofs.Workspace.Loading

/-!
# RakuAtlas.Proofs.Workspace.Numbering — numbers that stay

A path keeps the number that it got first. So whatever numbers paths gives the
same numbers when it is done again, with as many files known as after the first
time or more, and then it makes no file known.

* `Extends.lookup?`: a file is found under the same paths, however many files
  come after it.
* `Extends.numberAll_again`, `load_again`, `discover_again`: numbering a list of
  paths, indexing a workspace and finding its modules once more.
-/

namespace RakuAtlas

namespace Files

/-! ## Paths with a number -/

/-- A path with a number keeps it. -/
theorem Extends.lookup? {files more : Files} (h : files.Extends more) {path : Path}
    {file : FileId} (hfile : files.lookup? path = some file) : more.lookup? path = some file := by
  rcases h.paths with ⟨new, hnew⟩
  rcases Option.map_eq_some_iff.1 hfile with ⟨i, hi, rfl⟩
  unfold Files.lookup?
  rw [← hnew, List.findIdx?_append, hi]
  rfl

/-- A file that is found under a path has one, perhaps in another spelling. -/
theorem exists_path?_of_lookup? {files : Files} {path : Path} {file : FileId}
    (h : files.lookup? path = some file) : ∃ known, files.path? file = some known := by
  rcases Option.map_eq_some_iff.1 h with ⟨i, hi, rfl⟩
  rcases List.findIdx?_eq_some_iff_getElem.1 hi with ⟨hlt, -, -⟩
  exact ⟨_, List.getElem?_eq_getElem hlt⟩

/-- A path has the number that it was given. -/
theorem lookup?_number (files : Files) (path : Path) :
    (files.number path).2.lookup? path = some (files.number path).1 := by
  unfold number
  cases hlookup : files.lookup? path with
  | some file => exact hlookup
  | none =>
    have hnone : files.paths.findIdx? (·.same path) = none := Option.map_eq_none_iff.1 hlookup
    have hsame : path.same path = true := beq_self_eq_true _
    simp [Files.lookup?, List.findIdx?_append, hnone, hsame]

/-- The path of a file decides its text, and it stays. -/
theorem Extends.text?_eq {files more : Files} (h : files.Extends more) {file : FileId}
    {path : Path} (hpath : files.path? file = some path) (disk : Disk) :
    more.text? disk file = files.text? disk file := by
  have hbuffer : more.buffer? file = files.buffer? file := by
    unfold Files.buffer?
    rw [h.buffers]
  rw [Files.text?_eq, Files.text?_eq, hbuffer, Files.diskText?, Files.diskText?, hpath,
    h.path? hpath]

/-! ## Numbering again -/

theorem Extends.number_again {files more : Files} {path : Path}
    (h : (files.number path).2.Extends more) :
    more.number path = ((files.number path).1, more) := by
  rw [number, h.lookup? (files.lookup?_number path)]

theorem Extends.numberAll_again {files more : Files} {paths : List Path}
    (h : (files.numberAll paths).2.Extends more) :
    more.numberAll paths = ((files.numberAll paths).1, more) := by
  induction paths generalizing files with
  | nil => rfl
  | cons path rest ih =>
    have hfirst := (extends_numberAll (files.number path).2 rest).trans h
    have hrest := @ih (files.number path).2 h
    rw [numberAll_cons, numberAll_cons, hfirst.number_again, hrest]

theorem addFiles_again {root : Place} {m : ModuleMap} {files more : Files} {places : List Place}
    (h : (m.addFiles root files places).2.Extends more) :
    m.addFiles root more places = ((m.addFiles root files places).1, more) := by
  induction places generalizing m files with
  | nil => rfl
  | cons place rest ih =>
    unfold ModuleMap.addFiles at h ⊢
    cases hname : ModuleMap.moduleName? root place with
    | none =>
      rw [hname] at h
      exact ih h
    | some name =>
      rw [hname] at h
      simp only at h ⊢
      have hfirst := (extends_addFiles root _ _ rest).trans h
      rw [hfirst.number_again]
      exact ih h

theorem addPath_again {disk : Disk} {config : IndexConfig} {m : ModuleMap} {files more : Files}
    {path : Path} (h : (m.addPath disk config files path).2.Extends more) :
    m.addPath disk config more path = ((m.addPath disk config files path).1, more) := by
  unfold ModuleMap.addPath at h ⊢
  split at h
  · exact addFiles_again h
  · rfl

theorem foldl_addPath_again {disk : Disk} {config : IndexConfig} {m : ModuleMap}
    {files more : Files} {paths : List Path}
    (h : (paths.foldl (fun found path => found.1.addPath disk config found.2 path)
      (m, files)).2.Extends more) :
    paths.foldl (fun found path => found.1.addPath disk config found.2 path) (m, more) =
      ((paths.foldl (fun found path => found.1.addPath disk config found.2 path)
        (m, files)).1, more) := by
  induction paths generalizing m files with
  | nil => rfl
  | cons path rest ih =>
    have hfirst := (extends_foldl_addPath disk config _ _ rest).trans h
    rw [List.foldl_cons, List.foldl_cons, addPath_again hfirst]
    exact ih h

/-- Modules are found under the same numbers, and no file is new. -/
theorem discover_again {disk : Disk} {config : IndexConfig} {files more : Files}
    {paths : List Path} (h : (ModuleMap.discover disk config files paths).2.Extends more) :
    ModuleMap.discover disk config more paths =
      ((ModuleMap.discover disk config files paths).1, more) :=
  foldl_addPath_again h

end Files

/-- A workspace is indexed as before, and no file is new. -/
theorem Index.load_again {disk : Disk} {config : IndexConfig} {files more : Files}
    {roots : List Path} {cancelled : Bool}
    (h : (Index.load disk config files roots cancelled).2.2.Extends more) :
    Index.load disk config more roots cancelled =
      ((Index.load disk config files roots cancelled).1,
        (Index.load disk config files roots cancelled).2.1, more) := by
  have hfiles : (files.numberAll ((disk.walk config roots cancelled).files.map Place.path)).2.Extends
      more := h
  have hagain := hfiles.numberAll_again
  -- the files have the texts that they had
  have htables : ((files.numberAll ((disk.walk config roots cancelled).files.map Place.path)).1.map
        (Load.tableOf? disk more)) =
      (files.numberAll ((disk.walk config roots cancelled).files.map Place.path)).1.map
        (Load.tableOf? disk
          (files.numberAll ((disk.walk config roots cancelled).files.map Place.path)).2) := by
    apply List.map_congr_left
    intro file hfile
    rcases Files.exists_path?_of_mem hfile with ⟨-, -, known, hknown, -⟩
    rw [Load.tableOf?, Load.tableOf?, hfiles.text?_eq hknown]
  simp only [load, enterFiles_eq, hagain, htables]

end RakuAtlas
