import RakuAtlas.Proofs.Session.Caching
import RakuAtlas.Proofs.Workspace.Numbering

/-!
# RakuAtlas.Proofs.Session.Folders — setting the folders of a workspace

Setting the folders loads an index, enters the open documents on top of it and
finds the modules. `Host.setFolders_spec` says so in one equation.

* `Host.image_enterOpen`: on top of what is loaded, every file with a buffer has
  the symbols of its buffer, and the other files have what they had. So the
  order in which open documents are entered shows in no answer.
* `setFolders_rebuilds`: this holds at any point of any session, whatever the
  index and the modules were before, and setting the same folders again changes
  nothing.
-/

namespace RakuAtlas

open Lexical (Classifier)

/-! ## Entering tables on top of an index -/

/-- In a list with at most one entry for each file, the order does not matter to
what is found. -/
theorem find?_of_perm {α : Type} {entries entries' : List (FileId × α)}
    (h : entries.Perm entries') (hnodup : (entries.map Prod.fst).Nodup) (file : FileId) :
    entries.find? (·.1 == file) = entries'.find? (·.1 == file) := by
  induction h with
  | nil => rfl
  | cons entry _ ih =>
    rw [List.map_cons, List.nodup_cons] at hnodup
    rw [List.find?_cons, List.find?_cons, ih hnodup.2]
  | swap a b more =>
    -- two entries that change places are not of one file
    have hne : b.1 ≠ a.1 := by
      intro heq
      simp [heq] at hnodup
    by_cases ha : a.1 = file
    · have hb : b.1 ≠ file := fun hb => hne (hb.trans ha.symm)
      simp [ha, hb]
    · simp [List.find?_cons, ha]
  | trans h₁ _ ih₁ ih₂ =>
    have hmap := (h₁.map Prod.fst).nodup_iff.1 hnodup
    rw [ih₁ hnodup, ih₂ hmap]

namespace Index

/-- Entering tables of some files puts their symbols in place of what these
files had. -/
theorem Image.foldl_enter {index : Index} {contents : Contents} (h : Image index contents)
    {table? : FileId → Option Table}
    (hparsed : ∀ file t, table? file = some t →
      ∃ text mode classifier, t = Table.parse file text mode classifier)
    (files : List FileId) :
    Image ((files.filterMap table?).foldl Index.enter index) fun file =>
      if file ∈ files then ((table? file).map indexed).getD (contents file)
      else contents file := by
  induction files generalizing index contents with
  | nil => simpa using h
  | cons first more ih =>
    cases hfirst : table? first with
    | none =>
      rw [List.filterMap_cons_none hfirst]
      convert ih h using 2 with file
      by_cases hfile : file = first
      · simp [hfile, hfirst]
      · simp [hfile]
    | some t =>
      rw [List.filterMap_cons_some hfirst, List.foldl_cons]
      rcases hparsed first t hfirst with ⟨text, mode, classifier, rfl⟩
      convert ih (h.enter first text mode classifier) using 2 with file
      by_cases hfile : file = first
      · simp [hfile, hfirst]
      · simp [hfile]

end Index

/-- The symbols of the files, where those of a buffer take the place of what its
file had. -/
def Files.overlaid (files : Files) (classifier : Option Classifier) (contents : Index.Contents) :
    Index.Contents :=
  fun file =>
    match files.buffer? file with
    | some text => Index.indexed (Table.parse file text .workspaceIndex classifier)
    | none => contents file

namespace Host

/-- The table of an open document for the index. -/
def openTable? (host : Host) (file : FileId) : Option Table :=
  (host.document? file).map fun doc => Table.parse file doc.text .workspaceIndex host.classifier

/-- The index after the open documents have been entered in turn. -/
def enterOpen (host : Host) (index : Index) : Index :=
  ((host.documents.map Prod.fst).filterMap host.openTable?).foldl Index.enter index

theorem isSome_document?_iff (host : Host) (file : FileId) :
    (host.document? file).isSome ↔ file ∈ host.documents.map Prod.fst := by
  rw [document?, Option.isSome_map, List.find?_isSome, List.mem_map]
  constructor
  · rintro ⟨entry, hentry, hfile⟩
    exact ⟨entry, hentry, eq_of_beq hfile⟩
  · rintro ⟨entry, hentry, hfile⟩
    exact ⟨entry, hentry, beq_iff_eq.2 hfile⟩

/-- Open documents on top of an index: their symbols take the place of what
their files had. -/
theorem image_enterOpen (host : Host) {index : Index} {contents : Index.Contents}
    (h : index.Image contents) :
    (host.enterOpen index).Image fun file =>
      ((host.openTable? file).map Index.indexed).getD (contents file) := by
  have hparsed : ∀ file t, host.openTable? file = some t →
      ∃ text mode classifier, t = Table.parse file text mode classifier := by
    intro file t ht
    rcases Option.map_eq_some_iff.1 ht with ⟨doc, -, rfl⟩
    exact ⟨doc.text, .workspaceIndex, host.classifier, rfl⟩
  unfold enterOpen
  convert h.foldl_enter hparsed (host.documents.map Prod.fst) using 2 with file
  split
  · rfl
  · next hfile =>
    -- a file that is not open has no table
    rw [← isSome_document?_iff, Option.not_isSome_iff_eq_none] at hfile
    rw [openTable?, hfile]
    rfl

/-- The symbols of open documents are those of the buffers. -/
theorem InSync.overlaid_eq {host : Host} (h : host.InSync) (contents : Index.Contents) :
    host.files.overlaid host.classifier contents = fun file =>
      ((host.openTable? file).map Index.indexed).getD (contents file) := by
  funext file
  rw [Files.overlaid, h.buffer?_eq, openTable?]
  cases host.document? file with
  | some doc => rfl
  | none => rfl

/-! ## Setting the folders -/

/-- Bringing the index up to date with open documents enters their tables. -/
theorem foldl_reindex_open {host : Host} (disk : Disk) {files : List FileId}
    (h : ∀ file ∈ files, (host.document? file).isSome) :
    files.foldl (fun host file => host.reindex disk file) host =
      { host with index := (files.filterMap host.openTable?).foldl Index.enter host.index } := by
  induction files generalizing host with
  | nil => rfl
  | cons file more ih =>
    rw [List.forall_mem_cons] at h
    rcases Option.isSome_iff_exists.1 h.1 with ⟨doc, hdoc⟩
    have htable : host.openTable? file =
        some (Table.parse file doc.text .workspaceIndex host.classifier) := by
      rw [openTable?, hdoc]
      rfl
    have hreindex : host.reindex disk file =
        { host with
          index := host.index.enter
            (Table.parse file doc.text .workspaceIndex host.classifier) } := by
      rw [reindex, hdoc]
    rw [List.foldl_cons, hreindex, List.filterMap_cons_some htable, List.foldl_cons]
    exact ih h.2

/-- Setting the folders loads an index, enters the open documents on top of it,
and finds the modules. -/
theorem setFolders_spec (host : Host) (disk : Disk) (roots : List Path) (cancelled : Bool) :
    let loaded := Index.load disk host.config.index host.files roots cancelled
    let found := ModuleMap.discover disk host.config.index loaded.2.2
      (host.config.resolveIncludePaths roots)
    host.setFolders disk roots cancelled =
      (loaded.2.1,
        { host with
          roots := roots, cache := host.cache.clear, index := host.enterOpen loaded.1,
          files := found.2, modules := found.1 }) := by
  intro loaded found
  have hopen : ∀ file ∈ host.documents.map Prod.fst, (host.document? file).isSome :=
    fun file hfile => (host.isSome_document?_iff file).2 hfile
  have hfold := @foldl_reindex_open
    { host with roots := roots, cache := host.cache.clear, index := loaded.1, files := loaded.2.2 }
    disk (host.documents.map Prod.fst) hopen
  exact congrArg (fun host => (loaded.2.1, withModules host disk roots)) hfold

/-- Setting the same folders again changes nothing. -/
theorem setFolders_again (host : Host) (disk : Disk) (roots : List Path) (cancelled : Bool) :
    (host.setFolders disk roots cancelled).2.setFolders disk roots cancelled =
      host.setFolders disk roots cancelled := by
  have hload := Index.load_again (Files.extends_discover disk host.config.index
    (Index.load disk host.config.index host.files roots cancelled).2.2
    (host.config.resolveIncludePaths roots))
  have hfound := Files.discover_again (.refl (ModuleMap.discover disk host.config.index
    (Index.load disk host.config.index host.files roots cancelled).2.2
    (host.config.resolveIncludePaths roots)).2)
  rw [setFolders_spec host, setFolders_spec]
  simp only [hload, hfound]
  rfl

/-- There is at most one open document for each file. -/
def OncePerFile (host : Host) : Prop := (host.documents.map Prod.fst).Nodup

theorem OncePerFile.filter {host host' : Host} (h : host.OncePerFile) {file : FileId}
    (hdocuments : host'.documents = host.documents.filter (·.1 != file)) :
    host'.OncePerFile := by
  unfold OncePerFile
  rw [hdocuments]
  exact (List.filter_sublist.map Prod.fst).nodup h

theorem OncePerFile.updateDocument {host : Host} (h : host.OncePerFile) (file : FileId)
    (text : String) : (host.updateDocument file text).OncePerFile := by
  have hrest : ((host.documents.filter (·.1 != file)).map Prod.fst).Nodup :=
    (List.filter_sublist.map Prod.fst).nodup h
  refine List.nodup_cons.2 ⟨?_, hrest⟩
  intro hmem
  rcases List.mem_map.1 hmem with ⟨entry, hentry, hfile⟩
  have hne := (List.mem_filter.1 hentry).2
  simp [hfile] at hne

theorem OncePerFile.handle {host : Host} (h : host.OncePerFile) (disk : Disk) (event : Event) :
    (host.handle disk event).OncePerFile := by
  cases event with
  | setFolders roots cancelled =>
    rcases host.setFolders_eq disk roots cancelled with ⟨index, modules, files, -, heq⟩
    rw [Host.handle, heq]
    exact h
  | setClassifier classifier => exact h
  | openDocument path text =>
    have hnumbered : { host with files := (host.files.number path).2 }.OncePerFile := h
    rcases host.openDocument_eq disk path text with ⟨index, heq⟩
    rw [Host.handle, heq]
    exact hnumbered.updateDocument (host.files.number path).1 text
  | changeDocument file text => exact h.updateDocument file text
  | saveDocument file =>
    rcases host.reindex_eq disk file with ⟨index, heq⟩
    rw [Host.handle, saveDocument, heq]
    exact h
  | closeDocument file => exact h.filter rfl
  | fileChanged path =>
    rcases host.fileChanged_eq disk path with ⟨index, heq⟩
    rw [Host.handle, heq]
    exact h
  | fileDeleted path =>
    rw [Host.handle, fileDeleted]
    split
    · exact h
    · exact h.filter rfl

end Host

namespace Session

theorem oncePerFile_step {s : Session} (h : s.host.OncePerFile) (step : Step) :
    (s.step step).host.OncePerFile := by
  cases step with
  | event event => exact h.handle s.disk event
  | request request =>
    rcases s.host_request request with ⟨cache, hhost⟩
    rw [hhost]
    exact h
  | write disk => exact h

/-- There is at most one open document for each file all along a session. -/
theorem oncePerFile_run (config : HostConfig) (disk : Disk) (steps : List Step) :
    ((start config disk).run steps).host.OncePerFile := by
  have hnew : (start config disk).host.OncePerFile := List.nodup_nil
  refine @run_invariant (fun s => s.host.OncePerFile) ?_ _ hnew steps
  intro s step h
  exact oncePerFile_step h step

end Session

/-- At any point of any session, setting the folders gives the index that is
loaded from the disk and the buffers, where each file with a buffer has the
symbols of its buffer under the classifier in force. No answer depends on the
order of the open documents, nothing depends on what the index and the modules
were before, and setting the same folders again changes nothing. -/
theorem setFolders_rebuilds (config : HostConfig) (disk : Disk) (steps : List Step)
    (roots : List Path) :
    let s := (Session.start config disk).run steps
    let loaded := Index.load s.disk s.host.config.index s.host.files roots false
    let result := s.host.setFolders s.disk roots false
    result.1 = loaded.2.1 ∧
      (∃ contents, loaded.1.Image contents ∧
        result.2.index.Image (s.host.files.overlaid s.host.classifier contents) ∧
        ∀ index : Index, index.Image (s.host.files.overlaid s.host.classifier contents) →
          Index.SameAnswers result.2.index index) ∧
      (∀ documents, documents.Perm s.host.documents →
        Index.SameAnswers
          ({ s.host with documents := documents }.setFolders s.disk roots false).2.index
          result.2.index) ∧
      (∀ index modules,
        { s.host with index := index, modules := modules }.setFolders s.disk roots false =
          result) ∧
      result.2.setFolders s.disk roots false = result := by
  intro s loaded result
  have hsync : s.host.InSync := Session.inSync_run config disk steps
  have honce : s.host.OncePerFile := Session.oncePerFile_run config disk steps
  rcases Index.isImage_load s.disk s.host.config.index s.host.files roots false with
    ⟨contents, hloaded⟩
  have hresult : result = _ := s.host.setFolders_spec s.disk roots false
  have himage : result.2.index.Image (s.host.files.overlaid s.host.classifier contents) := by
    rw [hresult, hsync.overlaid_eq]
    exact s.host.image_enterOpen hloaded
  refine ⟨?_, ⟨contents, hloaded, himage, fun index hindex => himage.sameAnswers hindex⟩, ?_, ?_,
    s.host.setFolders_again s.disk roots false⟩
  · rw [hresult]
  · intro documents hperm
    -- the same documents are found, so the symbols of all files are the same
    have hdocument : ∀ file, { s.host with documents := documents }.document? file =
        s.host.document? file := by
      intro file
      have hnodup := (hperm.map Prod.fst).nodup_iff.2 honce
      exact congrArg (Option.map Prod.snd) (find?_of_perm hperm hnodup file)
    have hother := { s.host with documents := documents }.image_enterOpen hloaded
    simp only [Host.openTable?, hdocument] at hother
    refine Index.Image.sameAnswers ?_ himage
    rw [Host.setFolders_spec, hsync.overlaid_eq]
    exact hother
  · intro index modules
    rw [hresult, Host.setFolders_spec]
    rfl

/-- Two open documents that declare the same name. -/
def twoOpen : Session :=
  (Session.start {} .empty).run
    [.event (.openDocument ⟨"/a"⟩ "sub f { }"), .event (.openDocument ⟨"/b"⟩ "sub f { }")]

theorem setFolders_rebuilds_reversed :
    twoOpen.host.documents.map Prod.fst = [⟨1⟩, ⟨0⟩] ∧
      twoOpen.host.documents.reverse.Perm twoOpen.host.documents ∧
      Index.SameAnswers
        ({ twoOpen.host with documents := twoOpen.host.documents.reverse }.setFolders
          twoOpen.disk [⟨"/"⟩] false).2.index
        (twoOpen.host.setFolders twoOpen.disk [⟨"/"⟩] false).2.index := by
  refine ⟨by decide +kernel, List.reverse_perm _, ?_⟩
  rcases setFolders_rebuilds {} .empty
    [.event (.openDocument ⟨"/a"⟩ "sub f { }"), .event (.openDocument ⟨"/b"⟩ "sub f { }")] [⟨"/"⟩]
    with ⟨-, -, hreordered, -, -⟩
  exact hreordered _ (List.reverse_perm _)

end RakuAtlas
