import RakuAtlas.Proofs.Session.Caching
import RakuAtlas.Proofs.Session.Indexing
import RakuAtlas.Proofs.Workspace.Loading

/-!
# RakuAtlas.Proofs.Session.Closing — opening and closing a document

While a document is open, the index takes over what its buffer has when it is
opened and saved, under any classifier. Closing it reads the disk again. What
was in between shows only in the entries of that one file, so nothing of it is
left if these were the entries of the text on disk before.

* `Index.Image.contents_eq`: an index with exactly the entries of a text has the
  symbols of that text in the file.
* `Session.WorkedOn`: all that work on one document changes, with a step lemma
  (`WorkedOn.step`) and a run lemma (`WorkedOn.run`).
* `WorkedOn.sameAnswers_close`, `WorkedOn.symbolTable_close`: what closing the
  document makes of that.
* `close_leaves_no_trace`: after a document is closed, the index answers as it
  did before it was opened.
-/

namespace RakuAtlas

open Lexical (Classifier)

/-! ## Entries of one file -/

/-- The table of the text that a file has on disk, for the index. -/
def Files.diskTable? (files : Files) (disk : Disk) (file : FileId) : Option Table :=
  (files.diskText? disk file).map fun text => Table.parse file text .workspaceIndex (some .raku)

namespace Index

/-- The entries of a file are exactly those of a table; without a table it has
none. -/
def HasEntries (index : Index) (file : FileId) (table : Option Table) : Prop :=
  ∀ key s, s.file = file → (s ∈ index.find key ↔ ∃ t ∈ table, s ∈ symbolsFrom key t)

/-- A file has the symbols that are found under their names. -/
theorem Image.mem_contents {index : Index} {contents : Contents} (h : Image index contents)
    {file : FileId} {s : Symbol} :
    s ∈ contents file ↔ s.file = file ∧ s ∈ index.find s.name := by
  constructor
  · intro hs
    have hfile := h.file_eq file s hs
    exact ⟨hfile, h.mem_find.2 ⟨hfile.symm ▸ hs, by simp [isUnder]⟩⟩
  · rintro ⟨rfl, hs⟩
    exact (h.mem_find.1 hs).1

/-- A text brings in the symbols that it has under their names. -/
theorem mem_indexed_parse (file : FileId) (text : String) (mode : ParseMode)
    (classifier : Option Classifier) (s : Symbol) :
    s ∈ indexed (Table.parse file text mode classifier) ↔
      s ∈ symbolsFrom s.name (Table.parse file text mode classifier) := by
  have hunder : isUnder s.name s := by simp [isUnder]
  rw [symbolsFrom, filter_entriesOf fun _ => Table.isPlainName_of_mem_symbols_parse,
    List.mem_filter]
  exact ⟨fun hs => ⟨hs, hunder⟩, fun hs => hs.1⟩

/-- With the entries of a text, a file has the symbols of the text. -/
theorem Image.contents_eq {index : Index} {contents : Contents} (h : Image index contents)
    {files : Files} {disk : Disk} {file : FileId}
    (hentries : index.HasEntries file (files.diskTable? disk file)) :
    contents file = ((files.diskTable? disk file).map indexed).getD [] := by
  apply Order.eq_of_pairwise Nat.lt_asymm (h.pairwise_line file)
  · cases hdisk : files.diskText? disk file with
    | none => simp [Files.diskTable?, hdisk]
    | some text =>
      simp only [Files.diskTable?, hdisk, Option.map_some, Option.getD_some]
      rw [indexed, List.pairwise_map]
      exact Table.pairwise_line_indexable file text .workspaceIndex (some .raku)
  · intro s
    rw [h.mem_contents]
    cases hdisk : files.diskText? disk file with
    | none =>
      simp only [HasEntries, Files.diskTable?, hdisk, Option.map_none] at hentries ⊢
      constructor
      · rintro ⟨hfile, hs⟩
        rcases (hentries s.name s hfile).1 hs with ⟨t, ht, -⟩
        cases ht
      · intro hs
        cases hs
    | some text =>
      simp only [HasEntries, Files.diskTable?, hdisk, Option.map_some, Option.getD_some] at hentries ⊢
      rw [mem_indexed_parse]
      constructor
      · rintro ⟨hfile, hs⟩
        rcases (hentries s.name s hfile).1 hs with ⟨t, ht, hmem⟩
        cases ht
        exact hmem
      · intro hs
        have hfile : s.file = file := by
          have hone := Table.inOneFile_parse file text .workspaceIndex (some .raku)
          rw [← mem_indexed_parse] at hs
          rw [file_of_mem_indexed hone hs, Table.file_parse]
        exact ⟨hfile, (hentries s.name s hfile).2 ⟨_, rfl, hs⟩⟩

end Index

/-- Reading a file without a buffer again gives what it has on disk. -/
theorem Index.reread_eq {files : Files} {disk : Disk} {file : FileId}
    (h : files.buffer? file = none) :
    Index.reread files disk file = ((files.diskTable? disk file).map Index.indexed).getD [] := by
  rw [Index.reread, Files.text?_eq, h, Option.none_or, Files.diskTable?]
  cases files.diskText? disk file with
  | some text => rfl
  | none => rfl

/-- A file without a buffer that is read again has the entries of its text on
disk. -/
theorem Index.Image.hasEntries_refresh {index : Index} {contents : Index.Contents}
    (h : index.Image contents) {files : Files} {file : FileId} (hbuffer : files.buffer? file = none)
    (disk : Disk) :
    (index.refresh files disk file).HasEntries file (files.diskTable? disk file) := by
  intro key s hfile
  have hfilter := (h.refresh files disk file).find_filter file key
  have hmem : s ∈ (index.refresh files disk file).find key ↔
      s ∈ ((index.refresh files disk file).find key).filter (·.file == file) := by
    simp [hfile]
  rw [hmem, hfilter, Function.update_self, Index.reread_eq hbuffer, Files.diskTable?]
  cases files.diskText? disk file with
  | none => simp
  | some text =>
    simp only [Option.map_some, Option.getD_some, Option.mem_some, exists_eq_left']
    rw [Index.symbolsFrom, Index.filter_entriesOf fun _ => Table.isPlainName_of_mem_symbols_parse]

/-- Only the paths decide what is on disk. -/
theorem Files.diskText?_of_paths {files files' : Files} (h : files'.paths = files.paths)
    (disk : Disk) (file : FileId) : files'.diskText? disk file = files.diskText? disk file := by
  unfold Files.diskText? Files.path?
  rw [h]

/-! ## Work on one document -/

/-- Work on an open document: its text changes, it is saved, or something is
asked. -/
inductive Step.WorksOn (file : FileId) : Step → Prop
  | change (text : String) : WorksOn file (.event (.changeDocument file text))
  | save : WorksOn file (.event (.saveDocument file))
  | request (request : Request) : WorksOn file (.request request)

namespace Session

/-- What work on one document has made of a session. The document is open, and in
the index only its file has other symbols than before. -/
structure WorkedOn (s : Session) (files : Files) (file : FileId) (t : Session) : Prop where
  disk : t.disk = s.disk
  classifier : t.host.classifier = s.host.classifier
  paths : t.host.files.paths = files.paths
  isOpen : (t.host.document? file).isSome
  index : ∀ contents, s.host.index.Image contents →
    ∃ symbols, t.host.index.Image (Function.update contents file symbols)

/-- An open document that is indexed changes the symbols of its file only. -/
theorem image_reindex_of_open {host : Host} {contents : Index.Contents} {file : FileId}
    {symbols : List Symbol} (h : host.index.Image (Function.update contents file symbols))
    (hopen : (host.document? file).isSome) (disk : Disk) :
    ∃ symbols', (host.reindex disk file).index.Image (Function.update contents file symbols') := by
  rcases Option.isSome_iff_exists.1 hopen with ⟨doc, hdoc⟩
  have henter := h.enter file doc.text .workspaceIndex host.classifier
  rw [Function.update_idem] at henter
  refine ⟨Index.indexed (Table.parse file doc.text .workspaceIndex host.classifier), ?_⟩
  rw [Host.reindex, hdoc]
  exact henter

/-- Opening a document is the beginning of the work on it. -/
theorem workedOn_open (s : Session) (path : Path) (text : String) :
    WorkedOn s (s.host.files.number path).2 (s.host.files.number path).1
      (s.step (.event (.openDocument path text))) := by
  set known := s.host.files.number path
  rcases s.host.openDocument_eq s.disk path text with ⟨index, heq⟩
  have hhost : (s.step (.event (.openDocument path text))).host = _ := heq
  have hdoc := { s.host with files := known.2 }.document?_updateDocument known.1 text known.1
  rw [if_pos rfl] at hdoc
  refine ⟨rfl, ?_, ?_, ?_, ?_⟩
  · rw [hhost]
    rfl
  · rw [hhost]
    rfl
  · rw [hhost]
    exact Option.isSome_iff_exists.2 ⟨_, hdoc⟩
  · intro contents himage
    have hopen := Option.isSome_iff_exists.2 ⟨_, hdoc⟩
    rw [← Function.update_eq_self known.1 contents] at himage
    exact @image_reindex_of_open ({ s.host with files := known.2 }.updateDocument known.1 text)
      _ _ _ himage hopen s.disk

/-- A step of the work leaves it at work. -/
theorem WorkedOn.step {s t : Session} {files : Files} {file : FileId}
    (h : WorkedOn s files file t) {step : Step} (hstep : step.WorksOn file) :
    WorkedOn s files file (t.step step) := by
  cases hstep with
  | change text =>
    refine ⟨h.disk, h.classifier, h.paths, ?_, h.index⟩
    show ((t.host.updateDocument file text).document? file).isSome
    rw [Host.document?_updateDocument, if_pos rfl]
    rfl
  | save =>
    rcases t.host.reindex_eq t.disk file with ⟨index, heq⟩
    have hhost : (t.step (.event (.saveDocument file))).host = { t.host with index := index } := heq
    refine ⟨h.disk, ?_, ?_, ?_, ?_⟩
    · rw [hhost]
      exact h.classifier
    · rw [hhost]
      exact h.paths
    · rw [hhost]
      exact h.isOpen
    · intro contents himage
      rcases h.index contents himage with ⟨symbols, hsymbols⟩
      exact image_reindex_of_open hsymbols h.isOpen t.disk
  | request request =>
    rcases t.host_request request with ⟨cache, hhost⟩
    refine ⟨h.disk, ?_, ?_, ?_, ?_⟩
    · rw [hhost]
      exact h.classifier
    · rw [hhost]
      exact h.paths
    · rw [hhost]
      exact h.isOpen
    · rw [hhost]
      exact h.index

theorem WorkedOn.run {s t : Session} {files : Files} {file : FileId}
    (h : WorkedOn s files file t) {work : List Step} (hwork : ∀ step ∈ work, step.WorksOn file) :
    WorkedOn s files file (t.run work) := by
  induction work generalizing t with
  | nil => exact h
  | cons step more ih =>
    rw [List.forall_mem_cons] at hwork
    exact ih (h.step hwork.1) hwork.2

end Session

/-! ## Closing -/

/-- The table of a file that is not open and not in the cache is parsed anew. -/
theorem Host.InSync.symbolTable_of_closed {host : Host} (h : host.InSync) {file : FileId}
    (hclosed : host.document? file = none)
    (hcache : ∀ entry ∈ host.cache.entries, entry.1 ≠ file) (disk : Disk) :
    (host.symbolTable disk file).1 = (host.files.diskText? disk file).map fun text =>
      Table.parse file text .navigation host.classifier := by
  have hget : host.cache.get? file = (none, host.cache) := by
    have hnone : host.cache.entries.lookup file = none := by
      rw [List.lookup_eq_none_iff]
      intro entry hentry
      exact bne_iff_ne.2 (hcache entry hentry).symm
    rw [Cache.get?, hnone]
  show (host.document disk file).1.map Query.Document.table = _
  rw [Host.document, hclosed, h.text?_eq_diskText? hclosed]
  cases host.files.diskText? disk file with
  | none => rfl
  | some text => simp [hget]

namespace Session

section
variable {s t : Session} {files : Files} {file : FileId}

/-- Closing gives the file the entries of its text on disk, so the index is what
it was if the file had these before. -/
theorem WorkedOn.sameAnswers_close (h : WorkedOn s files file t) (hindex : s.host.index.IsImage)
    (hentries : s.host.index.HasEntries file (files.diskTable? s.disk file)) :
    Index.SameAnswers (t.step (.event (.closeDocument file))).host.index s.host.index := by
  rcases hindex with ⟨contents, himage⟩
  rcases h.index contents himage with ⟨symbols, hsymbols⟩
  have hbuffer : (t.host.files.dropBuffer file).buffer? file = none := by
    rw [Files.buffer?_dropBuffer, if_pos rfl]
  have hpaths : (t.host.files.dropBuffer file).paths = files.paths := h.paths
  -- what is read is what the file had in the index before
  have hread : Index.reread (t.host.files.dropBuffer file) t.disk file = contents file := by
    rw [Index.reread_eq hbuffer, Files.diskTable?, Files.diskText?_of_paths hpaths, h.disk,
      ← Files.diskTable?, himage.contents_eq hentries]
  have hrefresh := hsymbols.refresh (t.host.files.dropBuffer file) t.disk file
  rw [Function.update_idem, hread, Function.update_eq_self] at hrefresh
  exact hrefresh.sameAnswers himage

/-- An open document has no table in the cache, and closing it brings none in. So
the table of the file is parsed from its text on disk. -/
theorem WorkedOn.symbolTable_close (h : WorkedOn s files file t) (hfresh : t.CacheFresh)
    (hsync : t.host.InSync) :
    let u := t.step (.event (.closeDocument file))
    u.host.files.buffer? file = none ∧ u.host.document? file = none ∧
      (u.host.symbolTable u.disk file).1 = (files.diskText? s.disk file).map fun text =>
        Table.parse file text .navigation s.host.classifier := by
  intro u
  have hclosed : u.host.document? file = none := by
    show (t.host.closeDocument t.disk file).document? file = none
    rw [Host.document?_of_filter rfl, if_pos rfl]
  have hsync' : u.host.InSync := inSync_step hsync _
  have hcache : ∀ entry ∈ u.host.cache.entries, entry.1 ≠ file := by
    intro entry hentry hfile
    have hnone := (hfresh entry hentry).1
    have hopen := h.isOpen
    rw [← hfile, hnone] at hopen
    cases hopen
  have hdisk : u.disk = s.disk := h.disk
  have hpaths : u.host.files.paths = files.paths := h.paths
  have hclassifier : u.host.classifier = s.host.classifier := h.classifier
  refine ⟨?_, hclosed, ?_⟩
  · rw [hsync'.buffer?_eq, hclosed]
    rfl
  · rw [hsync'.symbolTable_of_closed hclosed hcache, Files.diskText?_of_paths hpaths, hdisk,
      hclassifier]

end

end Session

/-- Opening a document, working on it and closing it leaves no trace, if its file
had the entries of its text on disk. The index answers as before, there is
neither a buffer nor an open document, and the table of the file is that of the
text on disk under the classifier in force. -/
theorem close_leaves_no_trace (config : HostConfig) (disk : Disk) (steps : List Step) (path : Path)
    (text : String) (work : List Step) :
    let s := (Session.start config disk).run steps
    let known := s.host.files.number path
    let t := s.run
      (.event (.openDocument path text) :: work ++ [.event (.closeDocument known.1)])
    s.host.index.HasEntries known.1 (known.2.diskTable? s.disk known.1) →
    (∀ step ∈ work, step.WorksOn known.1) →
    Index.SameAnswers t.host.index s.host.index ∧
      t.host.files.buffer? known.1 = none ∧
      t.host.document? known.1 = none ∧
      (t.host.symbolTable t.disk known.1).1 = (known.2.diskText? s.disk known.1).map fun text =>
        Table.parse known.1 text .navigation s.host.classifier := by
  intro s known t hentries hwork
  set u := s.run (.event (.openDocument path text) :: work)
  have ht : t = u.step (.event (.closeDocument known.1)) := by
    simp [t, u, Session.run, List.foldl_append]
  have hworked : Session.WorkedOn s known.2 known.1 u := (s.workedOn_open path text).run hwork
  have hreached : u = (Session.start config disk).run
      (steps ++ .event (.openDocument path text) :: work) := by
    simp [u, s, Session.run, List.foldl_append]
  have hfresh : u.CacheFresh := hreached ▸ Session.cacheFresh_run config disk _
  have hsync : u.host.InSync := hreached ▸ Session.inSync_run config disk _
  rw [ht]
  constructor
  · exact hworked.sameAnswers_close (Session.indexed_run config disk steps) hentries
  · exact hworked.symbolTable_close hfresh hsync

/-- A file that was read from disk. -/
def onDisk : Session :=
  (Session.start {} (oneFile "sub f { }")).run [.event (.fileChanged ⟨"/a"⟩)]

/-- A class is written in it and taken out again, and in between it is saved. -/
def editing : List Step :=
  [.event (.changeDocument ⟨0⟩ "class A { }"), .event (.saveDocument ⟨0⟩),
    .request (.symbolTable ⟨0⟩), .event (.changeDocument ⟨0⟩ "")]

theorem close_leaves_no_trace_editing :
    onDisk.host.index.HasEntries ⟨0⟩ (onDisk.host.files.diskTable? onDisk.disk ⟨0⟩) ∧
      (∀ step ∈ editing, step.WorksOn ⟨0⟩) ∧
      Index.SameAnswers
        (onDisk.run (.event (.openDocument ⟨"/a"⟩ "sub g { }") :: editing ++
          [.event (.closeDocument ⟨0⟩)])).host.index onDisk.host.index := by
  have hentries : onDisk.host.index.HasEntries ⟨0⟩
      (onDisk.host.files.diskTable? onDisk.disk ⟨0⟩) :=
    Index.image_empty.hasEntries_refresh rfl (oneFile "sub f { }")
  have hwork : ∀ step ∈ editing, step.WorksOn ⟨0⟩ := by
    simp only [editing, List.forall_mem_cons, List.not_mem_nil, false_implies, implies_true,
      and_true]
    exact ⟨.change _, .save, .request _, .change _⟩
  have hclosed := close_leaves_no_trace {} (oneFile "sub f { }") [.event (.fileChanged ⟨"/a"⟩)]
    ⟨"/a"⟩ "sub g { }" editing hentries hwork
  exact ⟨hentries, hwork, hclosed.1⟩

end RakuAtlas
