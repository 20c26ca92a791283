import RakuAtlas.Proofs.Query.Resolution
import RakuAtlas.Proofs.Query.SymbolList
import RakuAtlas.Proofs.Session.Folders
import RakuAtlas.Proofs.Session.Renaming
import RakuAtlas.Proofs.Session.Tables

/-!
# RakuAtlas.Proofs.Session.Deletion — what is left of a deleted file

Deleting a file drops its entries in the index, its table, its buffer and its
document. The modules that were found are left as they are until the folders are
set again, and are the one place that still names the file.

* `Index.Lacks`: an index that has nothing of a file.
* `Host.Gone`: what a host knows of a deleted file. Deleting it makes it gone
  (`Host.gone_fileDeleted`), and it stays so along a session until the host gets
  a text for it (`Session.gone_step`, `Session.gone_run`).
* `deleted_only_as_module`: no answer names a deleted file, but for the module
  that was found in it, and `deleted_still_module` is a session in which one does.
-/

namespace RakuAtlas

/-! ## An index without a file -/

namespace Index

/-- The index has nothing of a file. -/
def Lacks (index : Index) (file : FileId) : Prop :=
  ∃ contents, index.Image contents ∧ contents file = []

theorem Lacks.file_ne {index : Index} {file : FileId} (h : index.Lacks file) {key : String}
    {s : Symbol} (hs : s ∈ index.find key) : s.file ≠ file := by
  rcases h with ⟨contents, himage, hnil⟩
  intro hfile
  have hmem := (himage.consistent.mem_files file).2 ⟨key, s, hs, hfile⟩
  exact (himage.mem_files file).1 hmem hnil

theorem lacks_removeFile {index : Index} (h : index.IsImage) (file : FileId) :
    (index.removeFile file).Lacks file := by
  rcases h with ⟨contents, himage⟩
  exact ⟨_, himage.removeFile file, Function.update_self ..⟩

/-- Dropping a file brings no other back. -/
theorem Lacks.removeFile {index : Index} {file : FileId} (h : index.Lacks file)
    (other : FileId) : (index.removeFile other).Lacks file := by
  rcases h with ⟨contents, himage, hnil⟩
  refine ⟨_, himage.removeFile other, ?_⟩
  rw [Function.update_apply]
  split
  · rfl
  · exact hnil

theorem Lacks.enter {index : Index} {file : FileId} (h : index.Lacks file) {other : FileId}
    (hother : other ≠ file) (text : String) (mode : ParseMode)
    (classifier : Option Lexical.Classifier) :
    (index.enter (Table.parse other text mode classifier)).Lacks file := by
  rcases h with ⟨contents, himage, hnil⟩
  refine ⟨_, himage.enter other text mode classifier, ?_⟩
  rw [Function.update_of_ne hother.symm]
  exact hnil

/-- Reading any file again brings nothing of a file that has no text. -/
theorem Lacks.refresh {index : Index} {file : FileId} (h : index.Lacks file) {files : Files}
    {disk : Disk} {other : FileId} (htext : other = file → files.text? disk file = none) :
    (index.refresh files disk other).Lacks file := by
  rcases h with ⟨contents, himage, hnil⟩
  refine ⟨_, himage.refresh files disk other, ?_⟩
  rw [Function.update_apply]
  split
  · next hfile => rw [reread, ← hfile, htext hfile.symm]
  · exact hnil

end Index

/-! ## A file that is gone -/

/-- A file with a path keeps it when more paths come after it. -/
theorem Files.path?_of_prefix {files more : Files} (h : files.paths <+: more.paths)
    {file : FileId} {path : Path} (hpath : files.path? file = some path) :
    more.path? file = some path := by
  have hextends : files.Extends ⟨more.paths, files.buffers⟩ := ⟨h, rfl⟩
  exact hextends.path? hpath

namespace Host

/-- Without setting the folders no event changes the modules, and all files keep
their numbers. -/
theorem handle_keeps (host : Host) (disk : Disk) {event : Event}
    (h : ∀ roots cancelled, event ≠ .setFolders roots cancelled) :
    (host.handle disk event).modules = host.modules ∧
      host.files.paths <+: (host.handle disk event).files.paths := by
  cases event with
  | setFolders roots cancelled => exact absurd rfl (h roots cancelled)
  | setClassifier classifier => exact ⟨rfl, List.prefix_rfl⟩
  | openDocument path text =>
    rcases host.openDocument_eq disk path text with ⟨index, heq⟩
    rw [handle, heq]
    exact ⟨rfl, (host.files.extends_number path).paths⟩
  | changeDocument file text => exact ⟨rfl, List.prefix_rfl⟩
  | saveDocument file =>
    rcases host.reindex_eq disk file with ⟨index, heq⟩
    rw [handle, saveDocument, heq]
    exact ⟨rfl, List.prefix_rfl⟩
  | closeDocument file => exact ⟨rfl, List.prefix_rfl⟩
  | fileChanged path =>
    rcases host.fileChanged_eq disk path with ⟨index, heq⟩
    rw [handle, heq]
    exact ⟨rfl, (host.files.extends_number path).paths⟩
  | fileDeleted path =>
    rw [handle, fileDeleted]
    split
    · exact ⟨rfl, List.prefix_rfl⟩
    · exact ⟨rfl, List.prefix_rfl⟩

/-- Indexing any file brings nothing of a file that is neither open nor on
disk. -/
theorem lacks_reindex {host : Host} {disk : Disk} {file : FileId} (h : host.index.Lacks file)
    {other : FileId}
    (hfile : other = file → host.document? file = none ∧ host.files.text? disk file = none) :
    (host.reindex disk other).index.Lacks file := by
  unfold reindex
  split
  · next doc hdoc =>
    have hother : other ≠ file := by
      rintro rfl
      rw [(hfile rfl).1] at hdoc
      cases hdoc
    exact h.enter hother _ _ _
  · exact h.refresh fun hother => (hfile hother).2

/-- What a host knows of a file that is gone: its path, and nothing else. -/
structure Gone (host : Host) (disk : Disk) (file : FileId) : Prop where
  known : ∃ path, host.files.path? file = some path
  disk : host.files.diskText? disk file = none
  document : host.document? file = none
  index : host.index.Lacks file

theorem Gone.text? {host : Host} {disk : Disk} {file : FileId} (h : host.Gone disk file)
    (hsync : host.InSync) : host.files.text? disk file = none := by
  rw [hsync.text?_eq_diskText? h.document]
  exact h.disk

/-- Deleting a file that is not on disk leaves nothing of it. -/
theorem gone_fileDeleted {host : Host} (hindex : host.index.IsImage) {disk : Disk} {path : Path}
    {file : FileId} (hfile : host.files.lookup? path = some file)
    (hdisk : host.files.diskText? disk file = none) : (host.fileDeleted path).Gone disk file := by
  have hknown := Files.exists_path?_of_lookup? hfile
  rw [fileDeleted, hfile]
  refine ⟨hknown, hdisk, ?_, Index.lacks_removeFile hindex file⟩
  rw [document?_of_filter rfl, if_pos rfl]

section
variable {host : Host} {disk : Disk} {file : FileId}

theorem Gone.lacks_openDocument (h : host.Gone disk file) {path : Path} {text : String}
    (htext : (Event.openDocument path text).textFor? host.files file = none) :
    (host.openDocument disk path text).2.index.Lacks file := by
  have hother : (host.files.number path).1 ≠ file := by
    intro hfile
    simp [Event.textFor?, hfile] at htext
  exact @lacks_reindex ({ host with files := (host.files.number path).2 }.updateDocument
    (host.files.number path).1 text) disk file h.index _ fun hfile => absurd hfile hother

theorem Gone.lacks_closeDocument (h : host.Gone disk file) (hsync : host.InSync) (other : FileId) :
    (host.closeDocument disk other).index.Lacks file := by
  have hclosed : (host.handle disk (.closeDocument other)).InSync := hsync.handle disk _
  refine h.index.refresh ?_
  rintro rfl
  have hnone : (host.closeDocument disk other).document? other = none := by
    rw [document?_of_filter rfl, if_pos rfl]
  exact (hclosed.text?_eq_diskText? hnone disk).trans h.disk

theorem Gone.lacks_fileChanged (h : host.Gone disk file) (hsync : host.InSync) (path : Path) :
    (host.fileChanged disk path).2.index.Lacks file := by
  rcases h.known with ⟨own, hpath⟩
  have hnumbered : (host.files.number path).2.text? disk file = none := by
    rw [(host.files.extends_number path).text?_eq hpath]
    exact h.text? hsync
  simp only [fileChanged]
  split
  · exact h.index
  · exact @lacks_reindex { host with
      files := (host.files.number path).2
      cache := host.cache.remove (host.files.number path).1 } disk file h.index _
      fun _ => ⟨h.document, hnumbered⟩

theorem Gone.lacks_fileDeleted (h : host.Gone disk file) (path : Path) :
    (host.fileDeleted path).index.Lacks file := by
  unfold fileDeleted
  split
  · exact h.index
  · exact h.index.removeFile _

/-- What is entered for a file was read from its buffer or the disk, and so nothing is entered for
one that is gone. -/
theorem Gone.lacks_handle (h : host.Gone disk file) (hsync : host.InSync) {event : Event}
    (htext : event.textFor? host.files file = none)
    (hset : ∀ roots cancelled, event ≠ .setFolders roots cancelled) :
    (host.handle disk event).index.Lacks file := by
  cases event with
  | setFolders roots cancelled => exact absurd rfl (hset roots cancelled)
  | setClassifier classifier => exact h.index
  | openDocument path text => exact h.lacks_openDocument htext
  | changeDocument other text => exact h.index
  | saveDocument other => exact lacks_reindex h.index fun _ => ⟨h.document, h.text? hsync⟩
  | closeDocument other => exact h.lacks_closeDocument hsync other
  | fileChanged path => exact h.lacks_fileChanged hsync path
  | fileDeleted path => exact h.lacks_fileDeleted path

/-- A file that is gone stays so, unless an event has a text for it or sets the
folders. -/
theorem Gone.handle (h : host.Gone disk file) (hsync : host.InSync) {event : Event}
    (htext : event.textFor? host.files file = none)
    (hset : ∀ roots cancelled, event ≠ .setFolders roots cancelled) :
    (host.handle disk event).Gone disk file := by
  rcases h.known with ⟨path, hpath⟩
  have hkept := Files.path?_of_prefix (host.handle_keeps disk hset).2 hpath
  refine ⟨⟨path, hkept⟩, ?_, ?_, h.lacks_handle hsync htext hset⟩
  · have hdisk := h.disk
    rw [Files.diskText?, hpath] at hdisk
    rw [Files.diskText?, hkept]
    exact hdisk
  · rcases document?_of_textFor?_none disk htext with hsame | hnone
    · rw [hsame]
      exact h.document
    · exact hnone

end

end Host

namespace Session

/-- A step that does not bring back a file that is gone: it has no text for the
file, does not put it on disk again, and does not set the folders. -/
def LeavesGone (s : Session) (file : FileId) : Step → Prop
  | .event event => event.textFor? s.host.files file = none ∧
      ∀ roots cancelled, event ≠ .setFolders roots cancelled
  | .request _ => True
  | .write disk => s.host.files.diskText? disk file = none

/-- None of the steps brings back a file that is gone. -/
def StaysGone (s : Session) (file : FileId) : List Step → Prop
  | [] => True
  | step :: more => s.LeavesGone file step ∧ (s.step step).StaysGone file more

theorem gone_step {s : Session} {file : FileId} (h : s.host.Gone s.disk file)
    (hsync : s.host.InSync) {step : Step} (hstep : s.LeavesGone file step) :
    (s.step step).host.Gone (s.step step).disk file ∧
      (s.step step).host.modules = s.host.modules := by
  cases step with
  | event event =>
    rcases hstep with ⟨htext, hset⟩
    exact ⟨h.handle hsync htext hset, (s.host.handle_keeps s.disk hset).1⟩
  | request request =>
    rcases s.host_request request with ⟨cache, hhost⟩
    rw [hhost]
    exact ⟨⟨h.known, h.disk, h.document, h.index⟩, rfl⟩
  | write disk => exact ⟨⟨h.known, hstep, h.document, h.index⟩, rfl⟩

/-- A file that is gone stays so, and the modules stay what they are. -/
theorem gone_run {s : Session} {file : FileId} (h : s.host.Gone s.disk file)
    (hsync : s.host.InSync) {later : List Step} (hlater : s.StaysGone file later) :
    (s.run later).host.Gone (s.run later).disk file ∧
      (s.run later).host.modules = s.host.modules := by
  induction later generalizing s with
  | nil => exact ⟨h, rfl⟩
  | cons step more ih =>
    rcases hlater with ⟨hstep, hmore⟩
    rcases gone_step h hsync hstep with ⟨hgone, hmodules⟩
    rcases ih hgone (inSync_step hsync step) hmore with ⟨hlast, hsame⟩
    exact ⟨hlast, hsame.trans hmodules⟩

end Session

/-! ## What answers name -/

namespace Host

section
variable {host : Host} {disk : Disk} {file g : FileId} {pos : Pos}

/-- A file with a text is not gone. -/
theorem Gone.ne_of_text? (h : host.Gone disk file) (hsync : host.InSync) {text : String}
    (htext : host.files.text? disk g = some text) : g ≠ file := by
  rintro rfl
  rw [h.text? hsync] at htext
  cases htext

/-- A file that is gone has no document. -/
theorem Gone.file_ne (h : host.Gone disk file) (hsync : host.InSync)
    (hcache : host.cache.Counted) {doc : Query.Document}
    (hdoc : (host.document disk g).1 = some doc) : doc.table.file ≠ file := by
  rcases hsync.document hcache hdoc with ⟨hfile, htext⟩
  rw [hfile]
  exact h.ne_of_text? hsync htext

/-- A declaration in a file that is gone is a module. -/
theorem Gone.symbol?_of_mem (h : host.Gone disk file) (hsync : host.InSync)
    (hcache : host.cache.Counted) (hplace : host.InPlace) {doc : Query.Document} (hdoc : (host.document disk g).1 = some doc)
    {symbol : String} {line : Nat} {e : Symbol}
    (he : e ∈ ((doc.scopes (host.world disk)).resolve symbol line).symbols)
    (hfile : e.file = file) : host.modules.symbol? symbol = some e := by
  rcases Scopes.mem_resolve (hplace.document hdoc) he with hown | ⟨modules, hmodules, hmodule⟩ |
    ⟨index, hindex, hmem⟩
  · exact absurd (hown.symm.trans hfile) (h.file_ne hsync hcache hdoc)
  · cases hmodules
    exact hmodule
  · cases hindex
    exact absurd hfile (h.index.file_ne hmem)

theorem Gone.resolve (h : host.Gone disk file) (hsync : host.InSync)
    (hcache : host.cache.Counted) (hplace : host.InPlace) {symbol : String} {line : Nat} {e : Symbol}
    (he : e ∈ (host.resolve disk g symbol line).1.symbols) (hfile : e.file = file) :
    host.modules.symbol? symbol = some e := by
  unfold Host.resolve at he
  rw [host.document_eq disk g] at he
  rcases hdoc : (host.document disk g).1 with _ | doc
  · rw [hdoc] at he
    cases he
  · rw [hdoc] at he
    exact h.symbol?_of_mem hsync hcache hplace hdoc he hfile

theorem Gone.definitions (h : host.Gone disk file) (hsync : host.InSync)
    (hcache : host.cache.Counted) (hplace : host.InPlace) {l : Location} (hl : l ∈ (host.definitions disk g pos).1) (hfile : l.file = file) :
    ∃ name e, host.modules.symbol? name = some e ∧ l = e.location := by
  unfold Host.definitions at hl
  rw [host.document_eq disk g] at hl
  rcases hdoc : (host.document disk g).1 with _ | doc
  · rw [hdoc] at hl
    cases hl
  · rw [hdoc] at hl
    have hlocation : l ∈ Query.definitions (host.world disk) doc pos := hl
    unfold Query.definitions at hlocation
    split at hlocation
    · next found hfound =>
      rcases List.mem_map.1 hlocation with ⟨e, he, rfl⟩
      exact ⟨_, e, h.symbol?_of_mem hsync hcache hplace hdoc he hfile, rfl⟩
    · cases hlocation

/-- References are found in texts, and a file that is gone has none. -/
theorem Gone.references (h : host.Gone disk file) (hsync : host.InSync)
    (hcache : host.cache.Counted) {withDeclaration : Bool} {locations : List Location}
    (hrefs : (host.references disk g pos withDeclaration).1 = some locations) {l : Location}
    (hl : l ∈ locations) : l.file ≠ file := by
  unfold Host.references at hrefs
  rw [host.document_eq disk g] at hrefs
  rcases hdoc : (host.document disk g).1 with _ | doc
  · rw [hdoc] at hrefs
    cases hrefs
  · rw [hdoc] at hrefs
    have hsome : Query.referenceLocations? (host.world disk) doc pos withDeclaration =
        some locations := hrefs
    rcases hsync.document hcache hdoc with ⟨hfile, htext⟩
    rw [← hfile] at htext
    rcases Query.exists_text_of_mem_locations htext hsome hl with ⟨text, hread⟩
    exact h.ne_of_text? hsync hread

theorem Gone.rename (h : host.Gone disk file) (hsync : host.InSync)
    (hcache : host.cache.Counted) (hindex : host.index.IsImage) {newName : String} {edit : Query.WorkspaceEdit}
    (hedit : (host.rename disk g pos newName).1 = .ok (some edit)) {change}
    (hchange : change ∈ edit.changes) : change.1 ≠ file := by
  unfold Host.rename at hedit
  rw [host.document_eq disk g] at hedit
  rcases hdoc : (host.document disk g).1 with _ | doc
  · rw [hdoc] at hedit
    cases hedit
  · rw [hdoc] at hedit
    rcases hsync.document hcache hdoc with ⟨hfile, htext⟩
    rw [← hfile] at htext
    have hrename : Query.rename (host.world disk) doc pos newName = .ok (some edit) := hedit
    rcases Query.isRename_of_rename hindex htext hrename with ⟨_, _, _, -, -, -, hfits⟩
    rcases hfits.edits change hchange with ⟨text, hread, -⟩
    exact h.ne_of_text? hsync hread

theorem Gone.workspaceSymbols (h : host.Gone disk file) {start : String} {limit : Option Nat}
    {info : Query.SymbolInfo} (hinfo : info ∈ host.workspaceSymbols start limit) :
    info.location.file ≠ file := by
  rcases Query.exists_find_of_mem_workspaceSymbols hinfo with ⟨key, s, hs, rfl⟩
  exact h.index.file_ne hs

end

end Host

/-- A file that was deleted after it was gone from disk is named by no answer,
but for the module that was found in it. This holds until the host gets a text
for the file, the file is on disk again, or the folders are set. -/
theorem deleted_only_as_module (config : HostConfig) (disk : Disk) (steps : List Step)
    (path : Path) (file : FileId) (later : List Step) :
    let s := (Session.start config disk).run steps
    let t := s.step (.event (.fileDeleted path))
    let u := t.run later
    s.host.files.lookup? path = some file → s.host.files.diskText? s.disk file = none →
    t.StaysGone file later →
    (∀ g symbol line, ∀ e ∈ (u.host.resolve u.disk g symbol line).1.symbols,
      e.file = file → s.host.modules.symbol? symbol = some e) ∧
    (∀ g pos, ∀ l ∈ (u.host.definitions u.disk g pos).1,
      l.file = file → ∃ name e, s.host.modules.symbol? name = some e ∧ l = e.location) ∧
    (∀ g pos withDeclaration locations,
      (u.host.references u.disk g pos withDeclaration).1 = some locations →
      ∀ l ∈ locations, l.file ≠ file) ∧
    (∀ start limit, ∀ info ∈ u.host.workspaceSymbols start limit, info.location.file ≠ file) ∧
    ∀ g pos newName edit, (u.host.rename u.disk g pos newName).1 = .ok (some edit) →
      ∀ change ∈ edit.changes, change.1 ≠ file := by
  intro s t u hfile hdisk hlater
  have hreached : u = (Session.start config disk).run
      (steps ++ .event (.fileDeleted path) :: later) := by
    simp [u, t, s, Session.run, List.foldl_append]
  have hsync : u.host.InSync := hreached ▸ Session.inSync_run config disk _
  have hcache : u.host.cache.Counted := hreached ▸ Session.counted_run config disk _
  have hplace : u.host.InPlace := hreached ▸ Session.inPlace_run config disk _
  have hindex : u.host.index.IsImage := hreached ▸ Session.indexed_run config disk _
  have hdeleted : t.host.Gone t.disk file :=
    Host.gone_fileDeleted (Session.indexed_run config disk steps) hfile hdisk
  have hgone := Session.gone_run hdeleted
    (Session.inSync_step (Session.inSync_run config disk steps) _) hlater
  have hmodules : u.host.modules = s.host.modules := by
    have hset : ∀ roots cancelled, Event.fileDeleted path ≠ .setFolders roots cancelled := by simp
    exact hgone.2.trans (s.host.handle_keeps s.disk hset).1
  rw [← hmodules]
  refine ⟨?_, ?_, ?_, ?_, ?_⟩
  · intro g symbol line e he
    exact hgone.1.resolve hsync hcache hplace he
  · intro g pos l hl
    exact hgone.1.definitions hsync hcache hplace hl
  · intro g pos withDeclaration locations hrefs l hl
    exact hgone.1.references hsync hcache hrefs hl
  · intro start limit info hinfo
    exact hgone.1.workspaceSymbols hinfo
  · intro g pos newName edit hedit change hchange
    exact hgone.1.rename hsync hcache hindex hedit hchange

/-! A module in a file that is deleted, and a document that names the module. -/

def libConfig : HostConfig := { includePaths := ["/lib"] }

def libDisk : Disk := ⟨[(["lib"], .directory), (["lib", "Foo.rakumod"], .file (some ""))]⟩

def fooPath : Path := ⟨"/lib/Foo.rakumod"⟩

/-- The modules are found, and then the disk is emptied. -/
def unlinking : List Step := [.event (.setFolders [] false), .write .empty]

def unlinked : Session := (Session.start libConfig libDisk).run unlinking

/-- A document that names the module. -/
def naming : List Step := [.event (.openDocument ⟨"/a"⟩ "Foo")]

def deleted : Session := unlinked.step (.event (.fileDeleted fooPath))

theorem reach_fooPath (disk : Disk) :
    disk.reach fooPath = disk.follow Disk.linkLimit [] [.name "lib", .name "Foo.rakumod"] := by
  have hsteps : fooPath.steps = [.root, .name "lib", .name "Foo.rakumod"] := by decide +kernel
  rw [Disk.reach, if_neg (by decide +kernel), Disk.resolve, if_pos (by decide +kernel), hsteps]

theorem lookup?_lib : libDisk.lookup? ["lib"] = some .directory := rfl

theorem resolve_lib : libDisk.resolve ⟨"/lib"⟩ = .ok (["lib"], .directory) := by
  have hsteps : Path.steps ⟨"/lib"⟩ = [.root, .name "lib"] := by decide
  rw [Disk.resolve, if_pos (by decide), hsteps]
  simp only
  rw [Disk.follow, if_neg (by decide), List.nil_append, lookup?_lib]
  simp only
  rw [Disk.follow]

theorem reach_foo :
    libDisk.reach fooPath = .ok (["lib", "Foo.rakumod"], .file (some "")) := by
  have hfoo : libDisk.lookup? ["lib", "Foo.rakumod"] = some (.file (some "")) := rfl
  rw [reach_fooPath, Disk.follow, if_neg (by decide), List.nil_append, lookup?_lib]
  simp only
  rw [Disk.follow, if_neg (by decide), List.singleton_append, hfoo]
  rfl

/-- The walk comes to the directory and the one file in it. -/
theorem visits_lib (config : IndexConfig) :
    Walk.visits libDisk config [⟨"/lib"⟩] =
      [.directory ["lib"], .file (some "Foo.rakumod") ["lib", "Foo.rakumod"]] := by
  have htarget : (Walk.Pending.root libDisk ⟨"/lib"⟩).target = .ok (["lib"], .directory) := by
    show libDisk.reach ⟨"/lib"⟩ = _
    rw [Disk.reach, if_neg (by decide), resolve_lib]
  have hchildren : libDisk.children ["lib"] = ["Foo.rakumod"] := by
    rw [Disk.children, List.mergeSort_of_pairwise (by decide)]
    decide
  have hchild : Walk.Pending.child libDisk (.root libDisk ⟨"/lib"⟩) ["lib"] "Foo.rakumod" =
      ⟨fooPath, false, false, [["lib"]], .ok (["lib", "Foo.rakumod"], .file (some ""))⟩ := by
    rw [← reach_foo]
    rfl
  have hname : fooPath.fileName? = some "Foo.rakumod" := by decide +kernel
  have hdirectories : libDisk.directories = [[], ["lib"]] := rfl
  rw [Walk.visits, hdirectories, List.map_cons, List.map_nil, Walk.visitsFrom, htarget]
  simp only
  rw [if_neg (by decide), if_neg (by simp [Walk.Pending.isIgnored, Walk.Pending.root]),
    dif_pos (by decide), hchildren]
  simp only [List.map_cons, List.map_nil, hchild, List.cons_append, List.nil_append]
  rw [Walk.visitsFrom, Walk.visitsFrom, Walk.Pending.name, hname]

theorem discover_lib :
    ModuleMap.discover libDisk {} .empty [⟨"/lib"⟩] = (⟨[("Foo", ⟨0⟩)]⟩, ⟨[fooPath], []⟩) := by
  have hwalk : libDisk.walk { extensions := ModuleMap.moduleExtensions } [⟨"/lib"⟩] false =
      ⟨[["lib", "Foo.rakumod"]], false, false⟩ := by
    rw [Disk.walk, visits_lib]
    decide +kernel
  have hname : ModuleMap.moduleName? ["lib"] ["lib", "Foo.rakumod"] = some "Foo" := by
    decide +kernel
  have hpath : Place.path ["lib"] = ⟨"/lib"⟩ := rfl
  show ModuleMap.addPath libDisk {} .empty .empty ⟨"/lib"⟩ = _
  rw [ModuleMap.addPath, resolve_lib]
  simp only
  rw [hpath, hwalk, ModuleMap.addFiles, hname]
  rfl

/-- Only the one module is known, and the one file. -/
theorem host_unlinked :
    unlinked.host =
      { Host.new libConfig with files := ⟨[fooPath], []⟩, modules := ⟨[("Foo", ⟨0⟩)]⟩ } := by
  have hinclude : HostConfig.resolveIncludePaths libConfig [] = [⟨"/lib"⟩] := rfl
  have hload : Index.load libDisk {} .empty [] false =
      (.empty, ⟨0, 0, 0, none, false⟩, .empty) := by
    have hvisits : Walk.visits libDisk {} [] = [] := by
      rw [Walk.visits, List.map_nil, Walk.visitsFrom]
    rw [Index.load, Disk.walk, hvisits]
    rfl
  show ((Host.new libConfig).setFolders libDisk [] false).2 = _
  rw [Host.setFolders_spec]
  simp only [Host.new, hinclude, show libConfig.index = {} from rfl, hload, discover_lib]
  rfl

/-- The file of the module is known, was gone when it was deleted, and stays so. -/
theorem deletion_lib :
    unlinked.host.files.lookup? fooPath = some ⟨0⟩ ∧
      unlinked.host.files.diskText? unlinked.disk ⟨0⟩ = none ∧ deleted.StaysGone ⟨0⟩ naming := by
  have hread : Disk.empty.read fooPath = .error .notFound := by
    rw [Disk.read, reach_fooPath, Disk.follow]
    rfl
  have hother : Event.textFor? (unlinked.host.fileDeleted fooPath).files ⟨0⟩
      (.openDocument ⟨"/a"⟩ "Foo") = none := by
    rw [host_unlinked]
    decide +kernel
  refine ⟨?_, ?_, ⟨hother, by simp⟩, trivial⟩
  · rw [host_unlinked]
    decide +kernel
  · rw [host_unlinked]
    show (Disk.empty.read fooPath).toOption = none
    rw [hread]
    rfl

theorem document?_naming :
    (deleted.run naming).host.document? ⟨1⟩ = some (.parse ⟨1⟩ "Foo" (some .raku)) := by
  have hhost : deleted.host = unlinked.host.fileDeleted fooPath := rfl
  have htext : Event.textFor? deleted.host.files ⟨1⟩ (.openDocument ⟨"/a"⟩ "Foo") = some "Foo" := by
    rw [hhost, host_unlinked]
    decide +kernel
  have hclassifier : deleted.host.classifier = some .raku := by
    rw [hhost, host_unlinked]
    rfl
  have hopened := Host.document?_of_textFor? deleted.disk htext
  rw [hclassifier] at hopened
  exact hopened

theorem deleted_only_as_module_lib :
    (unlinked.host.files.lookup? fooPath = some ⟨0⟩ ∧
      unlinked.host.files.diskText? unlinked.disk ⟨0⟩ = none ∧ deleted.StaysGone ⟨0⟩ naming) ∧
      ∀ start limit, ∀ info ∈ (deleted.run naming).host.workspaceSymbols start limit,
        info.location.file ≠ ⟨0⟩ := by
  refine ⟨deletion_lib, ?_⟩
  rcases deletion_lib with ⟨hfile, hdisk, hlater⟩
  exact (deleted_only_as_module libConfig libDisk unlinking fooPath ⟨0⟩ naming hfile hdisk
    hlater).2.2.2.1

/-- A module is still resolved to the file that was deleted. -/
theorem deleted_still_module :
    (unlinked.host.files.lookup? fooPath = some ⟨0⟩ ∧
      unlinked.host.files.diskText? unlinked.disk ⟨0⟩ = none ∧ deleted.StaysGone ⟨0⟩ naming) ∧
      (∃ e ∈ ((deleted.run naming).host.resolve (deleted.run naming).disk ⟨1⟩ "Foo" 0).1.symbols,
        e.file = ⟨0⟩) ∧
      ∃ l ∈ ((deleted.run naming).host.definitions (deleted.run naming).disk ⟨1⟩ ⟨0, 1⟩).1,
        l.file = ⟨0⟩ := by
  have hmodules : (deleted.run naming).host.modules = ⟨[("Foo", ⟨0⟩)]⟩ := by
    rcases deleted.host.openDocument_eq deleted.disk ⟨"/a"⟩ "Foo" with ⟨index, hopened⟩
    show (deleted.host.openDocument deleted.disk ⟨"/a"⟩ "Foo").2.modules = _
    rw [hopened]
    show (unlinked.host.fileDeleted fooPath).modules = _
    rw [host_unlinked]
    rfl
  have htable : Table.parse ⟨1⟩ "Foo" .navigation (some .raku) = .empty ⟨1⟩ := by decide +kernel
  have hresolve : ∀ index, (Scopes.resolve ⟨.empty ⟨1⟩, some ⟨[("Foo", ⟨0⟩)]⟩, index⟩ "Foo" 0) =
      .found .module { Symbol.onLine "Foo" .module ⟨0⟩ 0 with origin := .moduleDiscovery } [] := by
    intro index
    rfl
  refine ⟨deletion_lib, ?_, ?_⟩
  · rw [Host.resolve, Host.document, document?_naming]
    simp only [OpenDocument.parse, htable, Query.Document.scopes, Host.world, hmodules, hresolve]
    exact ⟨_, List.mem_cons_self, rfl⟩
  · have hsymbol : Query.symbolIn? "Foo" ⟨0, 1⟩ = some ⟨"Foo".toList, .onLine 0 0 3⟩ := by
      decide +kernel
    rw [Host.definitions, Host.document, document?_naming]
    simp only [OpenDocument.parse, htable, Query.definitions, hsymbol, String.ofList_toList,
      Query.Document.scopes, Host.world, hmodules, hresolve]
    exact ⟨_, List.mem_cons_self, rfl⟩

end RakuAtlas
