import RakuAtlas.Proofs.Session.Basic
import RakuAtlas.Proofs.Tables

/-!
# RakuAtlas.Proofs.Session.Documents — buffers and open documents

A host keeps the text of an open document twice: as the buffer of the file and
with the tables parsed from it. `Host.InSync` says that the two agree, and
that the tables of a document are those of its file.

* Numbering more paths changes nothing about files that have a number
  (`Files.Extends`), and is all that building the index and finding modules do
  to the files (`extends_load`, `extends_discover`).
* `Session.inSync_run`: the host is in sync after all steps of every session.
-/

namespace RakuAtlas

open Lexical (Classifier)

/-- In a list by file, dropping a file leaves the others. -/
theorem find?_filter_file {α : Type} (entries : List (FileId × α)) (file other : FileId) :
    (entries.filter (·.1 != file)).find? (·.1 == other) =
      if other = file then none else entries.find? (·.1 == other) := by
  by_cases hother : other = file
  · subst hother
    rw [if_pos rfl, List.find?_eq_none]
    intro entry hentry
    have hne := (List.mem_filter.1 hentry).2
    simpa using hne
  · rw [if_neg hother, List.find?_filter]
    congr 1
    funext entry
    by_cases hentry : entry.1 = other
    · simp [hentry, hother]
    · simp [hentry]

/-! ## Files -/

namespace Files

/-- All files that have a number keep it, and no buffer changes. -/
structure Extends (files more : Files) : Prop where
  paths : files.paths <+: more.paths
  buffers : more.buffers = files.buffers

theorem Extends.refl (files : Files) : files.Extends files := ⟨List.prefix_rfl, rfl⟩

theorem Extends.trans {files more most : Files} (h : files.Extends more) (h' : more.Extends most) :
    files.Extends most :=
  ⟨h.paths.trans h'.paths, h'.buffers.trans h.buffers⟩

theorem extends_number (files : Files) (path : Path) : files.Extends (files.number path).2 := by
  unfold number
  split
  · exact .refl files
  · exact ⟨List.prefix_append .., rfl⟩

theorem extends_numberAll (files : Files) (paths : List Path) :
    files.Extends (files.numberAll paths).2 := by
  induction paths generalizing files with
  | nil => exact .refl files
  | cons path more ih => exact (files.extends_number path).trans (ih _)

theorem extends_load (disk : Disk) (config : IndexConfig) (files : Files) (roots : List Path)
    (cancelled : Bool) : files.Extends (Index.load disk config files roots cancelled).2.2 :=
  files.extends_numberAll _

theorem extends_addFiles (root : Place) (m : ModuleMap) (files : Files) (places : List Place) :
    files.Extends (m.addFiles root files places).2 := by
  induction places generalizing m files with
  | nil => exact .refl files
  | cons place more ih =>
    rw [ModuleMap.addFiles]
    split
    · exact (files.extends_number place.path).trans (ih _ _)
    · exact ih m files

theorem extends_addPath (disk : Disk) (config : IndexConfig) (m : ModuleMap) (files : Files)
    (path : Path) : files.Extends (m.addPath disk config files path).2 := by
  unfold ModuleMap.addPath
  split
  · exact files.extends_addFiles ..
  · exact .refl files

theorem extends_foldl_addPath (disk : Disk) (config : IndexConfig) (m : ModuleMap) (files : Files)
    (paths : List Path) :
    files.Extends (paths.foldl
      (fun found path => found.1.addPath disk config found.2 path) (m, files)).2 := by
  induction paths generalizing m files with
  | nil => exact .refl files
  | cons path more ih => exact (files.extends_addPath disk config m path).trans (ih _ _)

theorem extends_discover (disk : Disk) (config : IndexConfig) (files : Files)
    (paths : List Path) : files.Extends (ModuleMap.discover disk config files paths).2 :=
  extends_foldl_addPath disk config .empty files paths

/-- A file with a path keeps it. -/
theorem Extends.path? {files more : Files} (h : files.Extends more) {file : FileId} {path : Path}
    (hpath : files.path? file = some path) : more.path? file = some path := by
  rcases h.paths with ⟨new, hnew⟩
  unfold Files.path? at *
  rw [← hnew, List.getElem?_append_left (List.getElem?_eq_some_iff.1 hpath).1]
  exact hpath

/-- The text of a file is that of its buffer, or else that on disk. -/
theorem text?_eq (files : Files) (disk : Disk) (file : FileId) :
    files.text? disk file = (files.buffer? file).or (files.diskText? disk file) := by
  unfold text? read diskText?
  cases files.buffer? file with
  | some text => rfl
  | none =>
    cases files.path? file with
    | none => rfl
    | some path =>
      cases hread : disk.read path with
      | ok text => simp [hread, Except.toOption]
      | error reason => simp [hread, Except.toOption]

/-- A file with a text on disk keeps it. -/
theorem Extends.diskText? {files more : Files} (h : files.Extends more) {disk : Disk}
    {file : FileId} {text : String} (htext : files.diskText? disk file = some text) :
    more.diskText? disk file = some text := by
  unfold Files.diskText? at *
  rcases Option.bind_eq_some_iff.1 htext with ⟨path, hpath, hread⟩
  rw [h.path? hpath]
  exact hread

/-- A file with a text on disk is one of those known. -/
theorem mem_all_of_diskText? {files : Files} {disk : Disk} {file : FileId} {text : String}
    (h : files.diskText? disk file = some text) : file ∈ files.all := by
  rcases Option.bind_eq_some_iff.1 h with ⟨path, hpath, -⟩
  have hlt := (List.getElem?_eq_some_iff.1 hpath).1
  exact List.mem_map.2 ⟨file.index, List.mem_range.2 hlt, rfl⟩

theorem buffer?_dropBuffer (files : Files) (file other : FileId) :
    (files.dropBuffer file).buffer? other = if other = file then none else files.buffer? other := by
  unfold buffer? dropBuffer
  rw [find?_filter_file]
  split <;> rfl

theorem buffer?_setBuffer (files : Files) (file : FileId) (text : String) (other : FileId) :
    (files.setBuffer file text).buffer? other =
      if other = file then some text else files.buffer? other := by
  have hdrop := files.buffer?_dropBuffer file other
  unfold buffer? setBuffer at *
  rw [List.find?_cons]
  by_cases hother : other = file
  · simp [hother]
  · have hne : (file == other) = false := beq_false_of_ne fun h => hother h.symm
    rw [hne, if_neg hother]
    rw [if_neg hother] at hdrop
    exact hdrop

end Files

/-! ## Documents -/

namespace Host

theorem document?_updateDocument (host : Host) (file : FileId) (text : String) (other : FileId) :
    (host.updateDocument file text).document? other =
      if other = file then
        some ⟨text, Table.parse file text .navigation host.classifier,
          Table.parse file text .outline host.classifier⟩
      else host.document? other := by
  unfold document? updateDocument
  rw [List.find?_cons]
  by_cases hother : other = file
  · simp [hother]
  · have hne : (file == other) = false := beq_false_of_ne fun h => hother h.symm
    rw [hne, if_neg hother, find?_filter_file, if_neg hother]

/-- Documents that are dropped are gone, and the others are left alone. -/
theorem document?_of_filter {host host' : Host} {file : FileId}
    (h : host'.documents = host.documents.filter (·.1 != file)) (other : FileId) :
    host'.document? other = if other = file then none else host.document? other := by
  unfold document?
  rw [h, find?_filter_file]
  split <;> rfl

/-- Bringing the index up to date changes only the index. -/
theorem reindex_eq (host : Host) (disk : Disk) (file : FileId) :
    ∃ index, host.reindex disk file = { host with index := index } := by
  unfold reindex
  split
  · exact ⟨_, rfl⟩
  · exact ⟨_, rfl⟩

theorem foldl_reindex_eq (host : Host) (disk : Disk) (files : List FileId) :
    ∃ index, files.foldl (fun host file => host.reindex disk file) host =
      { host with index := index } := by
  induction files generalizing host with
  | nil => exact ⟨host.index, rfl⟩
  | cons file more ih =>
    rcases host.reindex_eq disk file with ⟨index, hindex⟩
    rcases ih (host.reindex disk file) with ⟨index', hindex'⟩
    refine ⟨index', ?_⟩
    rw [List.foldl_cons, hindex', hindex]

/-- Setting the folders builds index and modules anew, empties the cache and
numbers the files that are found. -/
theorem setFolders_eq (host : Host) (disk : Disk) (roots : List Path) (cancelled : Bool) :
    ∃ index modules files, host.files.Extends files ∧
      (host.setFolders disk roots cancelled).2 =
        { host with
          roots := roots, cache := host.cache.clear, index := index, files := files,
          modules := modules } := by
  have hload := host.files.extends_load disk host.config.index roots cancelled
  unfold setFolders
  rcases hresult : Index.load disk host.config.index host.files roots cancelled with
    ⟨index, report, files⟩
  rw [hresult] at hload
  simp only
  rcases foldl_reindex_eq
    { host with roots := roots, cache := host.cache.clear, index := index, files := files } disk
    (host.documents.map Prod.fst) with ⟨index', hindex'⟩
  rw [hindex']
  exact ⟨index', _, _, hload.trans (files.extends_discover disk host.config.index _), rfl⟩

/-- Opening a document takes over its text and changes the index. -/
theorem openDocument_eq (host : Host) (disk : Disk) (path : Path) (text : String) :
    ∃ index, (host.openDocument disk path text).2 =
      { { host with files := (host.files.number path).2 }.updateDocument
          (host.files.number path).1 text with index := index } :=
  reindex_eq _ disk _

/-- A change on disk drops the table of the file and changes the index. -/
theorem fileChanged_eq (host : Host) (disk : Disk) (path : Path) :
    ∃ index, (host.fileChanged disk path).2 =
      { host with
        files := (host.files.number path).2
        cache := host.cache.remove (host.files.number path).1
        index := index } := by
  simp only [fileChanged]
  split
  · exact ⟨host.index, rfl⟩
  · exact reindex_eq _ disk _

/-- Buffers and open documents agree. -/
structure InSync (host : Host) : Prop where
  /-- A file has a buffer if it is open, and the buffer has the text of the
  document. -/
  buffer?_eq : ∀ file, host.files.buffer? file = (host.document? file).map OpenDocument.text
  navigation_file : ∀ file doc, host.document? file = some doc → doc.navigation.file = file

theorem inSync_new (config : HostConfig) : (Host.new config).InSync where
  buffer?_eq := by simp [new, Files.empty, Files.buffer?, document?]
  navigation_file := by simp [new, document?]

/-- Only documents and buffers matter. -/
theorem InSync.of_eq {host host' : Host} (h : host.InSync)
    (hdocuments : host'.documents = host.documents)
    (hbuffers : host'.files.buffers = host.files.buffers) : host'.InSync where
  buffer?_eq := by
    intro file
    have hfile := h.buffer?_eq file
    unfold Files.buffer? document? at *
    rw [hbuffers, hdocuments]
    exact hfile
  navigation_file := by
    intro file doc hdoc
    unfold document? at hdoc
    rw [hdocuments] at hdoc
    exact h.navigation_file file doc hdoc

theorem InSync.updateDocument {host : Host} (h : host.InSync) (file : FileId) (text : String) :
    (host.updateDocument file text).InSync where
  buffer?_eq := by
    intro other
    have hbuffer := host.files.buffer?_setBuffer file text other
    rw [document?_updateDocument]
    show (host.files.setBuffer file text).buffer? other = _
    rw [hbuffer]
    split
    · rfl
    · exact h.buffer?_eq other
  navigation_file := by
    intro other doc hdoc
    rw [document?_updateDocument] at hdoc
    split at hdoc
    · next hother =>
      cases hdoc
      rw [Table.file_parse, hother]
    · exact h.navigation_file other doc hdoc

/-- A file may be dropped from the documents and the buffers. -/
theorem InSync.drop {host host' : Host} (h : host.InSync) {file : FileId}
    (hdocuments : host'.documents = host.documents.filter (·.1 != file))
    (hbuffers : host'.files = host.files.dropBuffer file) : host'.InSync where
  buffer?_eq := by
    intro other
    rw [hbuffers, Files.buffer?_dropBuffer, document?_of_filter hdocuments]
    split
    · rfl
    · exact h.buffer?_eq other
  navigation_file := by
    intro other doc hdoc
    rw [document?_of_filter hdocuments] at hdoc
    split at hdoc
    · cases hdoc
    · exact h.navigation_file other doc hdoc

/-- Every event keeps buffers and documents in agreement. -/
theorem InSync.handle {host : Host} (h : host.InSync) (disk : Disk) (event : Event) :
    (host.handle disk event).InSync := by
  cases event with
  | setFolders roots cancelled =>
    rcases host.setFolders_eq disk roots cancelled with ⟨index, modules, files, hextends, heq⟩
    show (host.setFolders disk roots cancelled).2.InSync
    rw [heq]
    exact h.of_eq rfl hextends.buffers
  | setClassifier classifier => exact h.of_eq rfl rfl
  | openDocument path text =>
    -- a path that gets a number does not get a buffer
    have hnumbered : { host with files := (host.files.number path).2 }.InSync :=
      h.of_eq rfl (host.files.extends_number path).buffers
    rcases host.openDocument_eq disk path text with ⟨index, heq⟩
    show (host.openDocument disk path text).2.InSync
    rw [heq]
    exact (hnumbered.updateDocument (host.files.number path).1 text).of_eq rfl rfl
  | changeDocument file text => exact h.updateDocument file text
  | saveDocument file =>
    rcases host.reindex_eq disk file with ⟨index, hindex⟩
    show (host.reindex disk file).InSync
    rw [hindex]
    exact h.of_eq rfl rfl
  | closeDocument file => exact h.drop rfl rfl
  | fileChanged path =>
    rcases host.fileChanged_eq disk path with ⟨index, heq⟩
    show (host.fileChanged disk path).2.InSync
    rw [heq]
    exact h.of_eq rfl (host.files.extends_number path).buffers
  | fileDeleted path =>
    show (host.fileDeleted path).InSync
    unfold fileDeleted
    split
    · exact h
    · exact h.drop rfl rfl

end Host

end RakuAtlas
