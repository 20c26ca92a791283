import RakuAtlas.Proofs.Index.Image
import RakuAtlas.Proofs.Session.Replies

/-!
# RakuAtlas.Proofs.Session.Indexing — the index of a host

All along a session the index of the host is an image of some map from files
to symbols (`Session.indexed_run`): it is only ever changed by entering tables
that were parsed from texts, and by dropping files. Which map it is depends on
when the host last looked at each file.
-/

namespace RakuAtlas

/-- The index is an image of some map from files to symbols. -/
def Index.IsImage (index : Index) : Prop := ∃ contents, index.Image contents

namespace Index

theorem isImage_empty : empty.IsImage := ⟨_, image_empty⟩

theorem IsImage.enter {index : Index} (h : index.IsImage) (file : FileId) (text : String)
    (mode : ParseMode) (classifier : Option Lexical.Classifier) :
    (index.enter (Table.parse file text mode classifier)).IsImage := by
  rcases h with ⟨contents, himage⟩
  exact ⟨_, himage.enter file text mode classifier⟩

theorem IsImage.refresh {index : Index} (h : index.IsImage) (files : Files) (disk : Disk)
    (file : FileId) : (index.refresh files disk file).IsImage := by
  rcases h with ⟨contents, himage⟩
  exact ⟨_, himage.refresh files disk file⟩

theorem IsImage.removeFile {index : Index} (h : index.IsImage) (file : FileId) :
    (index.removeFile file).IsImage := by
  rcases h with ⟨contents, himage⟩
  exact ⟨_, himage.removeFile file⟩

/-- What is found under a key belongs there. -/
theorem IsImage.isUnder {index : Index} (h : index.IsImage) {key : String} {s : Symbol}
    (hs : s ∈ index.find key) : isUnder key s := by
  rcases h with ⟨contents, himage⟩
  have hmem : s ∈ (index.find key).filter (·.file == s.file) :=
    List.mem_filter.2 ⟨hs, beq_self_eq_true _⟩
  rw [himage.find_filter] at hmem
  exact (List.mem_filter.1 hmem).2

/-- Entering parsed tables up to a limit. -/
theorem isImage_enterTables {maxSymbols : Nat} {progress : Load.Progress}
    (h : progress.index.IsImage) {tables : List (Option Table)}
    (htables : ∀ t, some t ∈ tables → ∃ file text mode classifier,
      t = Table.parse file text mode classifier) :
    (Load.enterTables maxSymbols progress tables).index.IsImage := by
  induction tables generalizing progress with
  | nil => exact h
  | cons table more ih =>
    have hmore := fun t ht => htables t (List.mem_cons_of_mem _ ht)
    unfold Load.enterTables
    split
    · exact h
    · split
      · next t =>
        rcases htables t (List.mem_cons_self ..) with ⟨file, text, mode, classifier, rfl⟩
        refine ih ?_ hmore
        exact h.enter file text mode classifier
      · exact ih h hmore

/-- Parsing files one after the other is entering their tables. -/
theorem enterFiles_eq (parse : FileId → Option Table) (maxSymbols : Nat)
    (progress : Load.Progress) (files : List FileId) :
    Load.enterFiles parse maxSymbols progress files =
      Load.enterTables maxSymbols progress (files.map parse) := by
  induction files generalizing progress with
  | nil => rfl
  | cons file more ih =>
    rw [List.map_cons]
    unfold Load.enterFiles Load.enterTables
    split
    · rfl
    · cases parse file with
      | some table => exact ih _
      | none => exact ih _

theorem isImage_load (disk : Disk) (config : IndexConfig) (files : Files) (roots : List Path)
    (cancelled : Bool) : (Index.load disk config files roots cancelled).1.IsImage := by
  have hparsed : ∀ (files : Files) (ids : List FileId) (t : Table),
      some t ∈ ids.map (Load.tableOf? disk files) →
      ∃ file text mode classifier, t = Table.parse file text mode classifier := by
    intro files ids t ht
    rcases List.mem_map.1 ht with ⟨file, -, hfile⟩
    rcases Option.map_eq_some_iff.1 hfile with ⟨text, -, rfl⟩
    exact ⟨file, text, _, _, rfl⟩
  simp only [load, enterFiles_eq]
  split
  · exact isImage_empty
  · split
    · exact isImage_enterTables isImage_empty (hparsed _ _)
    · exact isImage_enterTables isImage_empty (hparsed _ _)

end Index

namespace Host

theorem isImage_reindex (host : Host) (disk : Disk) (file : FileId) (h : host.index.IsImage) :
    (host.reindex disk file).index.IsImage := by
  unfold reindex
  split
  · exact h.enter file _ _ _
  · exact h.refresh _ disk file

theorem isImage_foldl_reindex {host : Host} (h : host.index.IsImage) (disk : Disk)
    (files : List FileId) :
    (files.foldl (fun host file => host.reindex disk file) host).index.IsImage := by
  induction files generalizing host with
  | nil => exact h
  | cons file more ih => exact ih (isImage_reindex host disk file h)

/-- Every event leaves the index an image. -/
theorem isImage_handle {host : Host} (h : host.index.IsImage) (disk : Disk) (event : Event) :
    (host.handle disk event).index.IsImage := by
  cases event with
  | setFolders roots cancelled =>
    -- open documents are entered on top of what is loaded
    have hload := Index.isImage_load disk host.config.index host.files roots cancelled
    show (host.setFolders disk roots cancelled).2.index.IsImage
    unfold setFolders
    rcases hresult : Index.load disk host.config.index host.files roots cancelled with
      ⟨index, report, files⟩
    rw [hresult] at hload
    exact isImage_foldl_reindex hload disk _
  | setClassifier classifier => exact h
  | openDocument path text => exact isImage_reindex _ disk _ h
  | changeDocument file text => exact h
  | saveDocument file => exact isImage_reindex host disk file h
  | closeDocument file => exact h.refresh _ disk file
  | fileChanged path =>
    show (host.fileChanged disk path).2.index.IsImage
    simp only [fileChanged]
    split
    · exact h
    · exact isImage_reindex _ disk _ h
  | fileDeleted path =>
    show (host.fileDeleted path).index.IsImage
    unfold fileDeleted
    split
    · exact h
    · exact h.removeFile _

end Host

namespace Session

theorem indexed_step {s : Session} (h : s.host.index.IsImage) (step : Step) :
    (s.step step).host.index.IsImage := by
  cases step with
  | event event => exact Host.isImage_handle h s.disk event
  | request request =>
    rcases s.host_request request with ⟨cache, hhost⟩
    rw [hhost]
    exact h
  | write disk => exact h

/-- The index of the host is an image all along a session. -/
theorem indexed_run (config : HostConfig) (disk : Disk) (steps : List Step) :
    ((start config disk).run steps).host.index.IsImage := by
  refine @run_invariant (fun s => s.host.index.IsImage) ?_ _ Index.isImage_empty steps
  intro s step h
  exact indexed_step h step

end Session

end RakuAtlas
