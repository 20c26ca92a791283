import RakuAtlas.Proofs.Session.Replies
import RakuAtlas.Proofs.Workspace.Recency

/-!
# RakuAtlas.Proofs.Session.Caching — the cache does not show

The tables of files that are not open are kept in a cache of bounded size,
which requests fill and evict from. The invariant `Session.CacheFresh` says
that every table in it is that of a file that is not open, and the one that
parsing the text on disk would give, unless the text changed and the host was
not told.

* `Session.counted_run`: the cache stays counted, each table under its own file.
* `Session.cacheFresh_step`, `Session.cacheFresh_run`: the invariant holds all
  along a session, whether or not the host is told of changes.
* `Host.document_eq_current`: when the host was told of all changes, a document
  is what an empty cache would give.
* `Session.replies_eq_of_alike`: two sessions that differ only in their caches
  give the same answers.
* `cache_transparent`: the answers do not depend on the budget of the cache,
  and the table of a file that is not open is that of its text on disk.
-/

namespace RakuAtlas

/-! ## Freshness -/

namespace Host

/-- The text and the table of a file as they would be without a cache. -/
def current (host : Host) (disk : Disk) (file : FileId) : Option Query.Document :=
  match host.document? file with
  | some doc => some ⟨doc.navigation, doc.text⟩
  | none => (host.files.text? disk file).map fun text =>
      ⟨Table.parse file text .navigation host.classifier, text⟩

/-- The text of a file that is not open is that on disk. -/
theorem InSync.text?_eq_diskText? {host : Host} (h : host.InSync) {file : FileId}
    (hfile : host.document? file = none) (disk : Disk) :
    host.files.text? disk file = host.files.diskText? disk file := by
  rw [Files.text?_eq, h.buffer?_eq, hfile]
  rfl

/-- Asking for a document brings no table into the cache but that of the
file. -/
theorem mem_cache_document {host : Host} {disk : Disk} {file : FileId} {entry : FileId × Table}
    (h : entry ∈ (host.document disk file).2.cache.entries) :
    entry ∈ host.cache.entries ∨ host.document? file = none ∧
      ∃ text, host.files.text? disk file = some text ∧
        entry = (file, Table.parse file text .navigation host.classifier) := by
  unfold document at h
  split at h
  · exact Or.inl h
  · next hclosed =>
    split at h
    · exact Or.inl h
    · next text htext =>
      split at h
      · next table cache hget =>
        have hcache : cache = (host.cache.get? file).2 := by rw [hget]
        rw [hcache] at h
        exact Or.inl (Cache.mem_of_mem_get? h)
      · rcases Cache.mem_of_mem_insert h with heq | hmem
        · rw [Table.file_parse] at heq
          exact Or.inr ⟨hclosed, text, htext, heq⟩
        · exact Or.inl hmem

/-- Events change the cache only by dropping tables, and it stays counted. -/
theorem counted_handle {host : Host} (h : host.cache.Counted) (disk : Disk) (event : Event) :
    (host.handle disk event).cache.Counted := by
  cases event with
  | setFolders roots cancelled =>
    rcases host.setFolders_eq disk roots cancelled with ⟨index, modules, files, -, heq⟩
    rw [handle, heq]
    exact h.apply .clear
  | setClassifier classifier => exact h.apply .clear
  | openDocument path text =>
    rcases host.openDocument_eq disk path text with ⟨index, heq⟩
    rw [handle, heq]
    exact h.remove _
  | changeDocument file text => exact h.remove file
  | saveDocument file =>
    rcases host.reindex_eq disk file with ⟨index, heq⟩
    rw [handle, saveDocument, heq]
    exact h
  | closeDocument file => exact h
  | fileChanged path =>
    rcases host.fileChanged_eq disk path with ⟨index, heq⟩
    rw [handle, heq]
    exact h.remove _
  | fileDeleted path =>
    rw [handle, fileDeleted]
    split
    · exact h
    · exact h.remove _

/-- Asking for a document gets its table or inserts it. -/
theorem counted_document {host : Host} (h : host.cache.Counted) (disk : Disk) (file : FileId) :
    (host.document disk file).2.cache.Counted := by
  unfold document
  split
  · exact h
  · split
    · exact h
    · split
      · next table cache hget =>
        have hcache : cache = (host.cache.get? file).2 := by rw [hget]
        rw [hcache]
        exact h.get? file
      · exact h.insert _

end Host

namespace Session

/-- The cache of a host is counted all along a session. -/
theorem counted_run (config : HostConfig) (disk : Disk) (steps : List Step) :
    ((start config disk).run steps).host.cache.Counted := by
  refine @run_invariant (fun s => s.host.cache.Counted) ?_ _
    (Cache.counted_empty config.cacheBudget) steps
  intro s step h
  cases step with
  | event event => exact Host.counted_handle h s.disk event
  | request request =>
    rcases s.host.reply_eq s.disk request with ⟨cache, hcache, hreply⟩
    rw [Session.step, hreply]
    rcases hcache with rfl | ⟨file, rfl⟩
    · exact h
    · exact Host.counted_document h s.disk file
  | write disk => exact h

/-- Every table in the cache is that of a file that is not open, and of its text
on disk, unless that changed without an announcement. -/
def CacheFresh (s : Session) : Prop :=
  ∀ entry ∈ s.host.cache.entries, s.host.document? entry.1 = none ∧
    (entry.1 ∈ s.unannounced ∨ ∃ text, s.host.files.diskText? s.disk entry.1 = some text ∧
      entry.2 = Table.parse entry.1 text .navigation s.host.classifier)

theorem cacheFresh_start (config : HostConfig) (disk : Disk) : (start config disk).CacheFresh := by
  intro entry hentry
  simp [start, Host.new, Cache.empty] at hentry

/-- An empty cache is fresh. -/
theorem cacheFresh_of_nil {s : Session} (h : s.host.cache.entries = []) : s.CacheFresh := by
  intro entry hentry
  rw [h] at hentry
  simp at hentry

/-- The cache stays fresh where tables are only dropped, files that are not open
and have a table stay so, and neither their texts nor the classifier change. -/
theorem CacheFresh.of_kept {s s' : Session} (h : s.CacheFresh)
    (hkept : ∀ t ∈ s'.host.cache.entries, t ∈ s.host.cache.entries ∧
      (s.host.document? t.1 = none → s'.host.document? t.1 = none) ∧
      (t.1 ∈ s.unannounced → t.1 ∈ s'.unannounced))
    (htext : ∀ file text, s.host.files.diskText? s.disk file = some text →
      s'.host.files.diskText? s'.disk file = some text)
    (hclassifier : s'.host.classifier = s.host.classifier) : s'.CacheFresh := by
  intro entry hentry
  rcases hkept entry hentry with ⟨hmem, hdocument, hunannounced⟩
  rcases h entry hmem with ⟨hclosed, hstale | ⟨text, hdisk, hparse⟩⟩
  · exact ⟨hdocument hclosed, Or.inl (hunannounced hstale)⟩
  · refine ⟨hdocument hclosed, Or.inr ⟨text, htext _ _ hdisk, ?_⟩⟩
    rw [hclassifier]
    exact hparse

section
variable {s : Session}

/-- An event keeps the cache fresh that only drops tables, among them those of the files that it
opens or is news of. -/
theorem CacheFresh.of_event (h : s.CacheFresh) {event : Event} {host : Host}
    (hhost : s.host.handle s.disk event = host)
    (hkept : ∀ t ∈ host.cache.entries, t ∈ s.host.cache.entries ∧
      (s.host.document? t.1 = none → host.document? t.1 = none) ∧
      t.1 ∉ event.announces s.host.files)
    (htext : ∀ file text, s.host.files.diskText? s.disk file = some text →
      host.files.diskText? s.disk file = some text)
    (hclassifier : host.classifier = s.host.classifier) : (s.step (.event event)).CacheFresh := by
  subst hhost
  refine h.of_kept ?_ htext hclassifier
  intro t ht
  rcases hkept t ht with ⟨hmem, hclosed, hnews⟩
  exact ⟨hmem, hclosed, fun hstale => List.mem_filter.2 ⟨hstale, by simpa using hnews⟩⟩

theorem CacheFresh.setFolders (roots : List Path) (cancelled : Bool) :
    (s.step (.event (.setFolders roots cancelled))).CacheFresh := by
  rcases s.host.setFolders_eq s.disk roots cancelled with ⟨index, modules, files, -, heq⟩
  apply cacheFresh_of_nil
  show (s.host.setFolders s.disk roots cancelled).2.cache.entries = []
  rw [heq]
  rfl

/-- Taking over the text of a buffer drops the table of its file. -/
theorem CacheFresh.updateDocument (h : s.CacheFresh) {event : Event} {files : Files}
    {file : FileId} {text : String} (index : Index) (hfiles : s.host.files.Extends files)
    (hhost : s.host.handle s.disk event =
      { { s.host with files := files }.updateDocument file text with index := index })
    (hnews : event.announces s.host.files = []) : (s.step (.event event)).CacheFresh := by
  refine h.of_event hhost ?_ ?_ rfl
  · intro t ht
    rcases Cache.mem_of_mem_remove ht with ⟨hmem, hne⟩
    refine ⟨hmem, ?_, by simp [hnews]⟩
    intro hclosed
    have hdocument := { s.host with files := files }.document?_updateDocument file text t.1
    rw [if_neg hne] at hdocument
    exact hdocument.trans hclosed
  · intro f t ht
    exact hfiles.diskText? ht

theorem CacheFresh.openDocument (h : s.CacheFresh) (path : Path) (text : String) :
    (s.step (.event (.openDocument path text))).CacheFresh := by
  rcases s.host.openDocument_eq s.disk path text with ⟨index, heq⟩
  exact h.updateDocument index (s.host.files.extends_number path) heq rfl

theorem CacheFresh.changeDocument (h : s.CacheFresh) (file : FileId) (text : String) :
    (s.step (.event (.changeDocument file text))).CacheFresh :=
  h.updateDocument s.host.index (.refl _) rfl rfl

/-- Saving a document changes the index only. -/
theorem CacheFresh.saveDocument (h : s.CacheFresh) (file : FileId) :
    (s.step (.event (.saveDocument file))).CacheFresh := by
  rcases s.host.reindex_eq s.disk file with ⟨index, heq⟩
  exact h.of_event heq (fun t ht => ⟨ht, id, List.not_mem_nil⟩) (fun f t ht => ht) rfl

/-- Closing a document brings no table into the cache. -/
theorem CacheFresh.closeDocument (h : s.CacheFresh) (file : FileId) :
    (s.step (.event (.closeDocument file))).CacheFresh := by
  refine h.of_event rfl ?_ (fun f t ht => ht) rfl
  intro t ht
  refine ⟨ht, ?_, List.not_mem_nil⟩
  intro hclosed
  show (s.host.closeDocument s.disk file).document? t.1 = none
  rw [Host.document?_of_filter rfl]
  split
  · rfl
  · exact hclosed

/-- The file that changed loses its table. -/
theorem CacheFresh.fileChanged (h : s.CacheFresh) (path : Path) :
    (s.step (.event (.fileChanged path))).CacheFresh := by
  rcases s.host.fileChanged_eq s.disk path with ⟨index, heq⟩
  refine h.of_event heq ?_ ?_ rfl
  · intro t ht
    rcases Cache.mem_of_mem_remove ht with ⟨hmem, hne⟩
    refine ⟨hmem, id, fun hnews => hne ?_⟩
    have hlookup : s.host.files.lookup? path = some t.1 := by simpa [Event.announces] using hnews
    rw [Files.number, hlookup]
  · intro f t ht
    exact (s.host.files.extends_number path).diskText? ht

/-- The file that was deleted loses its table, if it is known. -/
theorem CacheFresh.fileDeleted (h : s.CacheFresh) (path : Path) :
    (s.step (.event (.fileDeleted path))).CacheFresh := by
  cases hlookup : s.host.files.lookup? path with
  | none =>
    have hhost : s.host.handle s.disk (.fileDeleted path) = s.host := by
      rw [Host.handle, Host.fileDeleted, hlookup]
    have hnews : Event.announces s.host.files (.fileDeleted path) = [] := by
      simp [Event.announces, hlookup]
    exact h.of_event hhost (fun t ht => ⟨ht, id, by simp [hnews]⟩) (fun f t ht => ht) rfl
  | some file =>
    have hhost : s.host.handle s.disk (.fileDeleted path) =
        { s.host with
          index := s.host.index.removeFile file
          cache := s.host.cache.remove file
          documents := s.host.documents.filter (·.1 != file)
          files := s.host.files.dropBuffer file } := by
      rw [Host.handle, Host.fileDeleted, hlookup]
    have hnews : Event.announces s.host.files (.fileDeleted path) = [file] := by
      simp [Event.announces, hlookup]
    refine h.of_event hhost ?_ (fun f t ht => ht) rfl
    intro t ht
    rcases Cache.mem_of_mem_remove ht with ⟨hmem, hne⟩
    refine ⟨hmem, ?_, by simpa [hnews] using hne⟩
    intro hclosed
    rw [Host.document?_of_filter rfl, if_neg hne]
    exact hclosed

/-- Every event keeps the cache fresh. -/
theorem CacheFresh.event (h : s.CacheFresh) (event : Event) :
    (s.step (.event event)).CacheFresh := by
  cases event with
  | setFolders roots cancelled => exact .setFolders roots cancelled
  | setClassifier classifier => exact cacheFresh_of_nil rfl
  | openDocument path text => exact h.openDocument path text
  | changeDocument file text => exact h.changeDocument file text
  | saveDocument file => exact h.saveDocument file
  | closeDocument file => exact h.closeDocument file
  | fileChanged path => exact h.fileChanged path
  | fileDeleted path => exact h.fileDeleted path

end

/-- Every request keeps the cache fresh: what it brings in was just parsed. -/
theorem CacheFresh.request {s : Session} (h : s.CacheFresh) (hsync : s.host.InSync)
    (request : Request) : (s.step (.request request)).CacheFresh := by
  rcases s.host.reply_eq s.disk request with ⟨cache, hcache, hreply⟩
  have hhost : (s.step (.request request)).host = { s.host with cache := cache } := by
    show (s.host.reply s.disk request).2 = _
    rw [hreply]
  have hmem : ∀ entry ∈ cache.entries, entry ∈ s.host.cache.entries ∨
      ∃ file, entry ∈ (s.host.document s.disk file).2.cache.entries := by
    intro entry hentry
    rcases hcache with rfl | ⟨file, rfl⟩
    · exact Or.inl hentry
    · exact Or.inr ⟨file, hentry⟩
  intro entry hentry
  rw [hhost] at hentry ⊢
  -- an entry is an old one, or that of the document that was asked for
  have hold : entry ∈ s.host.cache.entries ∨ ∃ file, s.host.document? file = none ∧
      ∃ text, s.host.files.text? s.disk file = some text ∧
        entry = (file, Table.parse file text .navigation s.host.classifier) := by
    rcases hmem entry hentry with hmem | ⟨file, hfile⟩
    · exact Or.inl hmem
    · rcases Host.mem_cache_document hfile with hmem | ⟨hclosed, hparse⟩
      · exact Or.inl hmem
      · exact Or.inr ⟨file, hclosed, hparse⟩
  rcases hold with hmem | ⟨file, hclosed, text, htext, rfl⟩
  · exact h entry hmem
  · rw [hsync.text?_eq_diskText? hclosed] at htext
    exact ⟨hclosed, Or.inr ⟨text, htext, rfl⟩⟩

/-- A change of the disk keeps the cache fresh, since it is noted which files it
affects. -/
theorem CacheFresh.write {s : Session} (h : s.CacheFresh) (disk : Disk) :
    (s.step (.write disk)).CacheFresh := by
  intro entry hentry
  rcases h entry hentry with ⟨hclosed, hstale | ⟨text, htext, hparse⟩⟩
  · exact ⟨hclosed, Or.inl (List.mem_append_left _ hstale)⟩
  · refine ⟨hclosed, ?_⟩
    by_cases hsame : s.host.files.diskText? s.disk entry.1 =
        s.host.files.diskText? disk entry.1
    · exact Or.inr ⟨text, hsame ▸ htext, hparse⟩
    · refine Or.inl (List.mem_append_right _ (List.mem_filter.2 ⟨?_, ?_⟩))
      · exact Files.mem_all_of_diskText? htext
      · exact decide_eq_true hsame

theorem cacheFresh_step {s : Session} (h : s.CacheFresh) (hsync : s.host.InSync) (step : Step) :
    (s.step step).CacheFresh := by
  cases step with
  | event event => exact h.event event
  | request request => exact h.request hsync request
  | write disk => exact h.write disk

/-- The cache is fresh all along a session. -/
theorem cacheFresh_run (config : HostConfig) (disk : Disk) (steps : List Step) :
    ((start config disk).run steps).CacheFresh := by
  -- a step keeps the cache fresh only while buffers and documents agree
  have hboth := @run_invariant (fun s => s.CacheFresh ∧ s.host.InSync) (by
    intro s step h
    exact ⟨cacheFresh_step h.1 h.2 step, inSync_step h.2 step⟩) _
    ⟨cacheFresh_start config disk, Host.inSync_new config⟩ steps
  exact hboth.1

/-- When the host was told of all changes, a document is what it would be
without a cache. -/
theorem document_eq_current {s : Session} (h : s.CacheFresh) (hsync : s.host.InSync)
    (htold : s.unannounced = []) (file : FileId) :
    (s.host.document s.disk file).1 = s.host.current s.disk file := by
  unfold Host.document Host.current
  cases hclosed : s.host.document? file with
  | some doc => rfl
  | none =>
    cases htext : s.host.files.text? s.disk file with
    | none => rfl
    | some text =>
      rcases hget : s.host.cache.get? file with ⟨_ | table, cache⟩
      · rfl
      · -- the table that is found is that of the text that is read
        rcases h _ (Cache.mem_of_get? hget) with ⟨-, hstale | ⟨text', htext', hparse⟩⟩
        · rw [htold] at hstale
          simp at hstale
        · rw [hsync.text?_eq_diskText? hclosed] at htext
          rw [htext] at htext'
          cases htext'
          obtain rfl : table = Table.parse file text .navigation s.host.classifier := hparse
          rfl

/-! ## Two budgets -/

end Session

namespace Host

/-- The host with an empty cache without a budget. -/
def uncached (host : Host) : Host :=
  { host with config := { host.config with cacheBudget := 0 }, cache := .empty 0 }

theorem uncached_reindex (host : Host) (disk : Disk) (file : FileId) :
    (host.reindex disk file).uncached = host.uncached.reindex disk file := by
  unfold reindex
  show _ = match host.document? file with
    | some doc => _
    | none => _
  cases host.document? file with
  | some doc => rfl
  | none => rfl

theorem uncached_foldl_reindex (host : Host) (disk : Disk) (files : List FileId) :
    (files.foldl (fun host file => host.reindex disk file) host).uncached =
      files.foldl (fun host file => host.reindex disk file) host.uncached := by
  induction files generalizing host with
  | nil => rfl
  | cons file more ih => rw [List.foldl_cons, List.foldl_cons, ih, uncached_reindex]

/-- The host with the modules found under the include paths. -/
def withModules (host : Host) (disk : Disk) (roots : List Path) : Host :=
  { host with
    modules := (ModuleMap.discover disk host.config.index host.files
      (host.config.resolveIncludePaths roots)).1
    files := (ModuleMap.discover disk host.config.index host.files
      (host.config.resolveIncludePaths roots)).2 }

/-- No event looks at the cache or at its budget. -/
theorem uncached_handle (host : Host) (disk : Disk) (event : Event) :
    (host.handle disk event).uncached = host.uncached.handle disk event := by
  cases event with
  | setFolders roots cancelled =>
    rcases hload : Index.load disk host.config.index host.files roots cancelled with
      ⟨index, report, files⟩
    -- both load the same index, and what follows does not look at the cache
    have hfold := uncached_foldl_reindex
      { host with roots := roots, cache := host.cache.clear, index := index, files := files } disk
      (host.documents.map Prod.fst)
    show (host.setFolders disk roots cancelled).2.uncached =
      (host.uncached.setFolders disk roots cancelled).2
    simp only [setFolders, show host.uncached.config.index = host.config.index from rfl,
      show host.uncached.files = host.files from rfl, hload]
    exact congrArg (withModules · disk roots) hfold
  | setClassifier classifier => rfl
  | openDocument path text => exact uncached_reindex ..
  | changeDocument file text => rfl
  | saveDocument file => exact uncached_reindex ..
  | closeDocument file => rfl
  | fileChanged path =>
    show uncached (if (host.document? (host.files.number path).1).isSome then _ else _) =
      if (host.document? (host.files.number path).1).isSome then _ else _
    split
    · rfl
    · exact uncached_reindex ..
  | fileDeleted path =>
    have hfiles : host.uncached.files = host.files := rfl
    show (host.fileDeleted path).uncached = host.uncached.fileDeleted path
    unfold fileDeleted
    rw [hfiles]
    cases host.files.lookup? path with
    | none => rfl
    | some file => rfl

/-- No answer looks at the cache, but for the documents. -/
theorem uncached_answer (host : Host) (disk : Disk) (documents : FileId → Option Query.Document)
    (request : Request) :
    host.uncached.answer disk documents request = host.answer disk documents request := by
  cases request <;> rfl

end Host

namespace Session

/-- Two sessions that differ only in their caches. -/
structure Alike (s t : Session) : Prop where
  host : s.host.uncached = t.host.uncached
  disk : s.disk = t.disk
  unannounced : s.unannounced = t.unannounced

theorem Alike.files {s t : Session} (h : Alike s t) : s.host.files = t.host.files := by
  show s.host.uncached.files = t.host.uncached.files
  rw [h.host]

/-- Every step keeps sessions alike. -/
theorem Alike.step {s t : Session} (h : Alike s t) (step : Step) :
    Alike (s.step step) (t.step step) := by
  cases step with
  | event event =>
    refine ⟨?_, h.disk, ?_⟩
    · show (s.host.handle s.disk event).uncached = (t.host.handle t.disk event).uncached
      rw [Host.uncached_handle, Host.uncached_handle, h.host, h.disk]
    · simp only [Session.step]
      rw [h.unannounced, h.files]
  | request request =>
    rcases s.host_request request with ⟨cache, hs⟩
    rcases t.host_request request with ⟨cache', ht⟩
    refine ⟨?_, h.disk, h.unannounced⟩
    rw [hs, ht]
    exact h.host
  | write disk =>
    refine ⟨h.host, rfl, ?_⟩
    simp only [Session.step, affected]
    rw [h.unannounced, h.files, h.disk]

/-- Hosts that were told of all changes and differ only in their caches give the
same answer. -/
theorem reply_eq_of_alike {s t : Session} (h : Alike s t) (hs : s.CacheFresh) (ht : t.CacheFresh)
    (hsyncs : s.host.InSync) (hsynct : t.host.InSync) (htold : s.unannounced = [])
    (request : Request) :
    (s.host.reply s.disk request).1 = (t.host.reply t.disk request).1 := by
  rcases s.host.reply_eq s.disk request with ⟨cache, -, hreplys⟩
  rcases t.host.reply_eq t.disk request with ⟨cache', -, hreplyt⟩
  -- both have the documents that they would have without a cache
  have hdocuments : (fun file => (s.host.document s.disk file).1) =
      fun file => (t.host.document t.disk file).1 := by
    funext file
    rw [document_eq_current hs hsyncs htold,
      document_eq_current ht hsynct (h.unannounced ▸ htold), ← h.disk]
    show s.host.uncached.current s.disk file = t.host.uncached.current s.disk file
    rw [h.host]
  rw [hreplys, hreplyt]
  show s.host.answer s.disk _ request = t.host.answer t.disk _ request
  rw [← Host.uncached_answer, ← t.host.uncached_answer, hdocuments, h.host, h.disk]

/-- Sessions that differ only in their caches give the same answers all along,
if every request finds the host told of all changes. -/
theorem replies_eq_of_alike {s t : Session} (h : Alike s t) (hs : s.CacheFresh)
    (ht : t.CacheFresh) (hsyncs : s.host.InSync) (hsynct : t.host.InSync) {steps : List Step}
    (hprompt : s.Prompt steps) : s.replies steps = t.replies steps := by
  induction steps generalizing s t with
  | nil => rfl
  | cons step more ih =>
    have hmore : (s.step step).Prompt more → (s.step step).replies more = (t.step step).replies more :=
      ih (h.step step) (cacheFresh_step hs hsyncs step) (cacheFresh_step ht hsynct step)
        (inSync_step hsyncs step) (inSync_step hsynct step)
    cases step with
    | event event => exact hmore hprompt
    | request request =>
      -- the one step with an answer, and it finds both hosts told
      rcases hprompt with ⟨htold, hprompt⟩
      rw [replies, replies, reply_eq_of_alike h hs ht hsyncs hsynct htold, hmore hprompt]
    | write disk => exact hmore hprompt

/-- Whether requests find the host told of all changes does not depend on the
cache. -/
theorem Alike.prompt {s t : Session} (h : Alike s t) {steps : List Step}
    (hprompt : s.Prompt steps) : t.Prompt steps := by
  induction steps generalizing s t with
  | nil => trivial
  | cons step more ih =>
    have hmore : (s.step step).Prompt more → (t.step step).Prompt more := ih (h.step step)
    cases step with
    | event event => exact hmore hprompt
    | request request => exact ⟨h.unannounced ▸ hprompt.1, hmore hprompt.2⟩
    | write disk => exact hmore hprompt

theorem alike_start (config : HostConfig) (disk : Disk) (budget : Nat) :
    Alike (start config disk) (start { config with cacheBudget := budget } disk) :=
  ⟨rfl, rfl, rfl⟩

end Session

/-- The cache does not show. In a session in which every change on disk is
announced before the next request, the answers are the same for any two budgets
of the cache; and the table of a file that is not open and can be read is the
one that parsing its text on disk gives. -/
theorem cache_transparent (config : HostConfig) (disk : Disk) (steps : List Step)
    (hprompt : (Session.start config disk).Prompt steps) (budget budget' : Nat) :
    (Session.start { config with cacheBudget := budget } disk).replies steps =
        (Session.start { config with cacheBudget := budget' } disk).replies steps ∧
      ∀ s, s = (Session.start { config with cacheBudget := budget } disk).run steps →
        s.unannounced = [] → ∀ file path text, s.host.document? file = none →
        s.host.files.path? file = some path → s.disk.read path = .ok text →
        (s.host.symbolTable s.disk file).1 =
          some (Table.parse file text .navigation s.host.classifier) := by
  have halike := Session.alike_start config disk budget
  have halike' : Session.Alike (Session.start { config with cacheBudget := budget } disk)
      (Session.start { config with cacheBudget := budget' } disk) := ⟨rfl, rfl, rfl⟩
  constructor
  · exact Session.replies_eq_of_alike halike' (Session.cacheFresh_start _ disk)
      (Session.cacheFresh_start _ disk) (Host.inSync_new _) (Host.inSync_new _)
      (halike.prompt hprompt)
  · rintro s rfl htold file path text hclosed hpath hread
    have hfresh := Session.cacheFresh_run { config with cacheBudget := budget } disk steps
    have hsync := Session.inSync_run { config with cacheBudget := budget } disk steps
    generalize (Session.start { config with cacheBudget := budget } disk).run steps = s at *
    have hdocument := Session.document_eq_current hfresh hsync htold file
    -- the file is not open, so what is read is what is on disk
    have htext : s.host.files.text? s.disk file = some text := by
      rw [hsync.text?_eq_diskText? hclosed, Files.diskText?, hpath, Option.bind_some, hread]
      rfl
    show (s.host.document s.disk file).1.map Query.Document.table = _
    rw [hdocument, Host.current, hclosed, htext]
    rfl

/-- A disk with one file. -/
def oneFile (text : String) : Disk := ⟨[(["a"], .file (some text))]⟩

/-- A file is asked for, changes, is announced and asked for again. -/
def rereading : List Step :=
  [.event (.fileChanged ⟨"/a"⟩), .request (.symbolTable ⟨0⟩), .write (oneFile "sub g { }"),
    .event (.fileChanged ⟨"/a"⟩), .request (.symbolTable ⟨0⟩)]

theorem read_oneFile (text : String) : (oneFile text).read ⟨"/a"⟩ = .ok text := by
  have hsteps : Path.steps ⟨"/a"⟩ = [.root, .name "a"] := by decide
  have hlookup : (oneFile text).lookup? ["a"] = some (.file (some text)) := rfl
  have hreach : (oneFile text).reach ⟨"/a"⟩ = .ok (["a"], .file (some text)) := by
    rw [Disk.reach, if_neg (by decide), Disk.resolve, if_pos (by decide), hsteps]
    simp only
    rw [Disk.follow, if_neg (by decide), List.nil_append, hlookup]
    rfl
  rw [Disk.read, hreach]

/-- Where only one file is known, its announcement is all that is needed. -/
theorem told_of_only_file {s : Session} (hfiles : s.host.files = ⟨[⟨"/a"⟩], []⟩)
    (htold : s.unannounced = []) (disk : Disk) :
    ((s.step (.write disk)).step (.event (.fileChanged ⟨"/a"⟩))).unannounced = [] := by
  have hnews : Event.announces ⟨[⟨"/a"⟩], []⟩ (.fileChanged ⟨"/a"⟩) = [⟨0⟩] := rfl
  show (s.unannounced ++ s.affected disk).filter
    (!(Event.announces s.host.files (.fileChanged ⟨"/a"⟩)).contains ·) = []
  rw [htold, hfiles, hnews, List.filter_eq_nil_iff]
  intro file hfile
  have hall := (List.mem_filter.1 hfile).1
  rw [hfiles] at hall
  have hzero : file = ⟨0⟩ := by simpa [Files.all, Files.size] using hall
  simp [hzero]

theorem cache_transparent_rereading :
    (Session.start {} (oneFile "sub f { }")).Prompt rereading ∧
      (Session.start { cacheBudget := 0 } (oneFile "sub f { }")).replies rereading =
        (Session.start { cacheBudget := 9 } (oneFile "sub f { }")).replies rereading ∧
      ((((Session.start { cacheBudget := 0 } (oneFile "sub f { }")).run
        [.event (.fileChanged ⟨"/a"⟩)]).host.symbolTable (oneFile "sub f { }") ⟨0⟩).1 =
          some (Table.parse ⟨0⟩ "sub f { }" .navigation (some .raku))) := by
  have hprompt : (Session.start {} (oneFile "sub f { }")).Prompt rereading := by
    refine ⟨rfl, ?_, trivial⟩
    apply told_of_only_file _ rfl
    -- the request before leaves the files as the first event left them
    rcases Session.host_request ((Session.start {} (oneFile "sub f { }")).step
      (.event (.fileChanged ⟨"/a"⟩))) (.symbolTable ⟨0⟩) with ⟨cache, hhost⟩
    rw [hhost]
    rfl
  refine ⟨hprompt, (cache_transparent {} _ rereading hprompt 0 9).1, ?_⟩
  exact (cache_transparent {} (oneFile "sub f { }") [.event (.fileChanged ⟨"/a"⟩)] trivial 0 9).2
    _ rfl rfl ⟨0⟩ ⟨"/a"⟩ "sub f { }" rfl rfl (read_oneFile _)

end RakuAtlas
