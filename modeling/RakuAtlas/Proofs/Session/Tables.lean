import Mathlib.Data.List.Induction
import RakuAtlas.Proofs.Session.Caching

/-!
# RakuAtlas.Proofs.Session.Tables — where the tables of a host come from

A host keeps tables with its open documents and in its cache. Those of an open
document are parsed when the host takes over a text for its file, and stay
until the next text comes. Replacing the classifier empties the cache, but
leaves these tables alone.

* `Host.document?_handle`: an event takes over a text for a file, or leaves the
  open document of the file as it was or drops it.
* `Session.exists_taking`: an open document is what the last text that was taken
  over for its file gave, under the classifier of that time.
* `open_tables_since_text`: so its tables are those of its buffer under the
  classifier in force as long as the classifier was not replaced since, and
  `open_tables_outdated` is a session in which it was.
* `Session.inPlace_run`: all symbols of a table are in the file of the table.
-/

namespace RakuAtlas

open Lexical (Classifier)

/-! ## Open documents -/

/-- The document that a text opens. -/
def OpenDocument.parse (file : FileId) (text : String) (classifier : Option Classifier) :
    OpenDocument :=
  ⟨text, Table.parse file text .navigation classifier, Table.parse file text .outline classifier⟩

/-- The text that an event has for the buffer of a file. -/
def Event.textFor? (files : Files) (file : FileId) : Event → Option String
  | .openDocument path text => if file = (files.number path).1 then some text else none
  | .changeDocument other text => if file = other then some text else none
  | _ => none

namespace Host

/-- Only the documents matter to what is open. -/
theorem document?_of_eq {host host' : Host} (h : host'.documents = host.documents)
    (file : FileId) : host'.document? file = host.document? file := by
  unfold document?
  rw [h]

/-- Where an event has a text for a file, the text becomes its document. -/
theorem document?_of_textFor? {host : Host} (disk : Disk) {event : Event} {file : FileId}
    {text : String} (h : event.textFor? host.files file = some text) :
    (host.handle disk event).document? file = some (.parse file text host.classifier) := by
  cases event with
  | openDocument path text' =>
    obtain ⟨rfl, rfl⟩ : file = (host.files.number path).1 ∧ text' = text := by
      simpa [Event.textFor?] using h
    rcases host.openDocument_eq disk path text' with ⟨index, heq⟩
    have hupdate := { host with files := (host.files.number path).2 }.document?_updateDocument
      (host.files.number path).1 text' (host.files.number path).1
    rw [if_pos rfl] at hupdate
    show (host.openDocument disk path text').2.document? _ = _
    rw [heq]
    exact hupdate
  | changeDocument other text' =>
    obtain ⟨rfl, rfl⟩ : file = other ∧ text' = text := by simpa [Event.textFor?] using h
    show (host.updateDocument file text').document? file = _
    rw [document?_updateDocument, if_pos rfl]
    rfl
  | _ => cases h

/-- An event without a text for a file leaves its document or drops it. -/
theorem document?_of_textFor?_none {host : Host} (disk : Disk) {event : Event} {file : FileId}
    (h : event.textFor? host.files file = none) :
    (host.handle disk event).document? file = host.document? file ∨
      (host.handle disk event).document? file = none := by
  -- events that close a file or delete it drop its document
  have hdrop : ∀ {host' : Host} {other : FileId},
      host'.documents = host.documents.filter (·.1 != other) →
      host'.document? file = host.document? file ∨ host'.document? file = none := by
    intro host' other hdocuments
    rw [document?_of_filter hdocuments]
    split
    · exact Or.inr rfl
    · exact Or.inl rfl
  cases event with
  | setFolders roots cancelled =>
    rcases host.setFolders_eq disk roots cancelled with ⟨index, modules, files, -, heq⟩
    refine Or.inl (document?_of_eq ?_ file)
    show (host.setFolders disk roots cancelled).2.documents = _
    rw [heq]
  | setClassifier classifier => exact Or.inl rfl
  | openDocument path text =>
    have hne : file ≠ (host.files.number path).1 := by
      intro hfile
      simp [Event.textFor?, hfile] at h
    rcases host.openDocument_eq disk path text with ⟨index, heq⟩
    have hupdate := { host with files := (host.files.number path).2 }.document?_updateDocument
      (host.files.number path).1 text file
    rw [if_neg hne] at hupdate
    left
    show (host.openDocument disk path text).2.document? file = _
    rw [heq]
    exact hupdate
  | changeDocument other text =>
    have hne : file ≠ other := by
      intro hfile
      simp [Event.textFor?, hfile] at h
    left
    show (host.updateDocument other text).document? file = _
    rw [document?_updateDocument, if_neg hne]
  | saveDocument other =>
    rcases host.reindex_eq disk other with ⟨index, heq⟩
    refine Or.inl (document?_of_eq ?_ file)
    show (host.reindex disk other).documents = _
    rw [heq]
  | closeDocument other => exact hdrop rfl
  | fileChanged path =>
    rcases host.fileChanged_eq disk path with ⟨index, heq⟩
    refine Or.inl (document?_of_eq ?_ file)
    show (host.fileChanged disk path).2.documents = _
    rw [heq]
  | fileDeleted path =>
    show (host.fileDeleted path).document? file = _ ∨ (host.fileDeleted path).document? file = _
    unfold fileDeleted
    split
    · exact Or.inl rfl
    · exact hdrop rfl

/-- After an event a document is the one that a text of the event opened, or it
was open before. -/
theorem document?_handle {host : Host} {disk : Disk} {event : Event} {file : FileId}
    {doc : OpenDocument} (h : (host.handle disk event).document? file = some doc) :
    (event.textFor? host.files file = some doc.text ∧
      doc = .parse file doc.text host.classifier) ∨
    (event.textFor? host.files file = none ∧ host.document? file = some doc) := by
  cases htext : event.textFor? host.files file with
  | some text =>
    rw [document?_of_textFor? disk htext] at h
    cases h
    exact Or.inl ⟨rfl, rfl⟩
  | none =>
    rcases document?_of_textFor?_none disk htext with hkept | hdropped
    · exact Or.inr ⟨rfl, hkept.symm.trans h⟩
    · rw [hdropped] at h
      cases h

/-- The classifier is what it is until it is replaced. -/
theorem classifier_handle (host : Host) (disk : Disk) {event : Event}
    (h : ∀ classifier, event ≠ .setClassifier classifier) :
    (host.handle disk event).classifier = host.classifier := by
  cases event with
  | setFolders roots cancelled =>
    rcases host.setFolders_eq disk roots cancelled with ⟨index, modules, files, -, heq⟩
    show (host.setFolders disk roots cancelled).2.classifier = _
    rw [heq]
  | setClassifier classifier => exact absurd rfl (h classifier)
  | openDocument path text =>
    rcases host.openDocument_eq disk path text with ⟨index, heq⟩
    show (host.openDocument disk path text).2.classifier = _
    rw [heq]
    rfl
  | changeDocument file text => rfl
  | saveDocument file =>
    rcases host.reindex_eq disk file with ⟨index, heq⟩
    show (host.reindex disk file).classifier = _
    rw [heq]
  | closeDocument file => rfl
  | fileChanged path =>
    rcases host.fileChanged_eq disk path with ⟨index, heq⟩
    show (host.fileChanged disk path).2.classifier = _
    rw [heq]
  | fileDeleted path =>
    show (host.fileDeleted path).classifier = _
    unfold fileDeleted
    split <;> rfl

end Host

namespace Session

/-- The text that a step has for the buffer of a file. -/
def textFor? (s : Session) (file : FileId) : Step → Option String
  | .event event => event.textFor? s.host.files file
  | _ => none

/-- No step has a text for the buffer of a file. -/
def NoTextFor (s : Session) (file : FileId) : List Step → Prop
  | [] => True
  | step :: more => s.textFor? file step = none ∧ (s.step step).NoTextFor file more

theorem run_concat (s : Session) (steps : List Step) (step : Step) :
    s.run (steps ++ [step]) = (s.run steps).step step := by
  simp [run]

theorem noTextFor_concat {s : Session} {file : FileId} {steps : List Step} {step : Step}
    (h : s.NoTextFor file steps) (hstep : (s.run steps).textFor? file step = none) :
    s.NoTextFor file (steps ++ [step]) := by
  induction steps generalizing s with
  | nil => exact ⟨hstep, trivial⟩
  | cons first more ih => exact ⟨h.1, ih h.2 hstep⟩

/-- After a step a document is the one that a text of the step opened, or it was
open before. -/
theorem document?_step {s : Session} {step : Step} {file : FileId} {doc : OpenDocument}
    (h : (s.step step).host.document? file = some doc) :
    (s.textFor? file step = some doc.text ∧ doc = .parse file doc.text s.host.classifier) ∨
    (s.textFor? file step = none ∧ s.host.document? file = some doc) := by
  cases step with
  | event event => exact Host.document?_handle h
  | request request =>
    rcases s.host_request request with ⟨cache, hhost⟩
    rw [hhost] at h
    exact Or.inr ⟨rfl, h⟩
  | write disk => exact Or.inr ⟨rfl, h⟩

/-- A document that is open came with the last text for its file, and was
parsed under the classifier of that time. -/
theorem exists_taking {s : Session} (hnone : ∀ file, s.host.document? file = none)
    {steps : List Step} {file : FileId} {doc : OpenDocument}
    (h : (s.run steps).host.document? file = some doc) :
    ∃ before step after, steps = before ++ step :: after ∧
      (s.run before).textFor? file step = some doc.text ∧
      ((s.run before).step step).NoTextFor file after ∧
      doc = .parse file doc.text (s.run before).host.classifier := by
  induction steps using List.reverseRecOn with
  | nil =>
    rw [show s.run [] = s from rfl, hnone] at h
    cases h
  | append_singleton steps step ih =>
    rw [run_concat] at h
    rcases document?_step h with ⟨htext, hparse⟩ | ⟨htext, hbefore⟩
    · exact ⟨steps, step, [], rfl, htext, trivial, hparse⟩
    · -- the last text came before this step
      rcases ih hbefore with ⟨before, taking, after, rfl, htaking, hafter, hparse⟩
      refine ⟨before, taking, after ++ [step], by simp, htaking, ?_, hparse⟩
      refine noTextFor_concat hafter ?_
      rw [run, List.foldl_append] at htext
      exact htext

/-- Without a new classifier the one in force stays. -/
theorem classifier_run (s : Session) {steps : List Step}
    (h : ∀ classifier, .event (.setClassifier classifier) ∉ steps) :
    (s.run steps).host.classifier = s.host.classifier := by
  induction steps generalizing s with
  | nil => rfl
  | cons step more ih =>
    have hmore := ih (s.step step) fun classifier hmem => h classifier (List.mem_cons_of_mem _ hmem)
    have hstep : (s.step step).host.classifier = s.host.classifier := by
      cases step with
      | event event =>
        refine s.host.classifier_handle s.disk ?_
        rintro classifier rfl
        exact h classifier List.mem_cons_self
      | request request =>
        rcases s.host_request request with ⟨cache, hhost⟩
        rw [hhost]
      | write disk => rfl
    exact hmore.trans hstep

end Session

/-- The answers about an open document come from the tables it was opened
with. -/
theorem Host.symbolTable_of_open {host : Host} {file : FileId} {doc : OpenDocument}
    (h : host.document? file = some doc) (disk : Disk) :
    (host.symbolTable disk file).1 = some doc.navigation ∧
      host.outline disk file = some doc.outline := by
  constructor
  · show (host.document disk file).1.map Query.Document.table = _
    rw [Host.document, h]
    rfl
  · rw [Host.outline, h]

/-- The tables of an open document are those of its buffer under the classifier
that was in force when the buffer got its text: that was the last text for the
file. If the classifier was not replaced since, they are those under the
classifier in force. -/
theorem open_tables_since_text (config : HostConfig) (disk : Disk) (steps : List Step)
    (file : FileId) (text : String)
    (hopen : ((Session.start config disk).run steps).host.files.buffer? file = some text) :
    let s := (Session.start config disk).run steps
    ∃ before step after, steps = before ++ step :: after ∧
      let t := (Session.start config disk).run before
      t.textFor? file step = some text ∧ (t.step step).NoTextFor file after ∧
      (s.host.symbolTable s.disk file).1 =
        some (Table.parse file text .navigation t.host.classifier) ∧
      s.host.outline s.disk file = some (Table.parse file text .outline t.host.classifier) ∧
      ((∀ classifier, .event (.setClassifier classifier) ∉ after) →
        (s.host.symbolTable s.disk file).1 =
          some (Table.parse file text .navigation s.host.classifier) ∧
        s.host.outline s.disk file = some (Table.parse file text .outline s.host.classifier)) := by
  intro s
  have hsync : s.host.InSync := Session.inSync_run config disk steps
  rw [hsync.buffer?_eq, Option.map_eq_some_iff] at hopen
  rcases hopen with ⟨doc, hdoc, rfl⟩
  rcases Session.exists_taking (fun _ => rfl) hdoc with
    ⟨before, step, after, hsteps, htext, hafter, hparse⟩
  rcases Host.symbolTable_of_open hdoc s.disk with ⟨hnavigation, houtline⟩
  rw [hnavigation, houtline]
  refine ⟨before, step, after, hsteps, htext, hafter, ?_, ?_, ?_⟩
  · rw [hparse]
    rfl
  · rw [hparse]
    rfl
  · intro hkept
    -- the step itself has a text, so it does not replace the classifier either
    have hclassifier : s.host.classifier =
        ((Session.start config disk).run before).host.classifier := by
      have hrun : s = ((Session.start config disk).run before).run (step :: after) := by
        show (Session.start config disk).run steps = _
        rw [hsteps, Session.run, Session.run, Session.run, List.foldl_append]
      rw [hrun]
      refine Session.classifier_run _ ?_
      intro classifier hmem
      rcases List.mem_cons.1 hmem with rfl | hlater
      · cases htext
      · exact hkept classifier hlater
    rw [hclassifier, hparse]
    exact ⟨rfl, rfl⟩

/-! A declaration inside a string that goes over several lines. -/

def quotedSub : String := "my $s = \"\nsub f { }\n\";"

/-- The text is opened. -/
def quoted : Session :=
  (Session.start {} .empty).run [.event (.openDocument ⟨"/a"⟩ quotedSub)]

/-- The text is opened, and then the classifier that knows strings is gone. -/
def reclassified : Session :=
  (Session.start {} .empty).run
    [.event (.openDocument ⟨"/a"⟩ quotedSub), .event (.setClassifier none)]

theorem document?_quoted :
    quoted.host.document? ⟨0⟩ = some (.parse ⟨0⟩ quotedSub (some .raku)) :=
  @Host.document?_of_textFor? (Host.new {}) .empty (.openDocument ⟨"/a"⟩ quotedSub) ⟨0⟩ quotedSub
    rfl

theorem open_tables_since_text_quoted :
    quoted.host.files.buffer? ⟨0⟩ = some quotedSub ∧
      (quoted.host.symbolTable quoted.disk ⟨0⟩).1 =
        some (Table.parse ⟨0⟩ quotedSub .navigation (some .raku)) := by
  have hsync : quoted.host.InSync := Session.inSync_run _ _ _
  have hbuffer : quoted.host.files.buffer? ⟨0⟩ = some quotedSub := by
    rw [hsync.buffer?_eq, document?_quoted]
    rfl
  refine ⟨hbuffer, ?_⟩
  rcases open_tables_since_text {} .empty [.event (.openDocument ⟨"/a"⟩ quotedSub)] ⟨0⟩ quotedSub
    hbuffer with ⟨before, step, after, hsteps, -, -, htable, -, -⟩
  -- there is only one step
  obtain rfl : before = [] := by
    rcases before with _ | ⟨first, more⟩
    · rfl
    · simp at hsteps
  exact htable

/-- After the classifier was replaced, the tables of an open document are not
those of its buffer under the classifier in force. -/
theorem open_tables_outdated :
    reclassified.host.files.buffer? ⟨0⟩ = some quotedSub ∧
      (reclassified.host.symbolTable reclassified.disk ⟨0⟩).1 ≠
        some (Table.parse ⟨0⟩ quotedSub .navigation reclassified.host.classifier) ∧
      reclassified.host.outline reclassified.disk ⟨0⟩ ≠
        some (Table.parse ⟨0⟩ quotedSub .outline reclassified.host.classifier) := by
  have hdoc : reclassified.host.document? ⟨0⟩ = some (.parse ⟨0⟩ quotedSub (some .raku)) :=
    document?_quoted
  have hsync : reclassified.host.InSync := Session.inSync_run _ _ _
  have hclassifier : reclassified.host.classifier = none := rfl
  rcases Host.symbolTable_of_open hdoc reclassified.disk with ⟨hnavigation, houtline⟩
  refine ⟨?_, ?_, ?_⟩
  · rw [hsync.buffer?_eq, hdoc]
    rfl
  · rw [hnavigation, hclassifier]
    decide +kernel
  · rw [houtline, hclassifier]
    decide +kernel

/-! ## Symbols in their file -/

/-- All symbols of a table that the host keeps are in the file of the table. -/
structure Host.InPlace (host : Host) : Prop where
  documents : ∀ file doc, host.document? file = some doc → doc.navigation.InOneFile
  cache : ∀ entry ∈ host.cache.entries, entry.2.InOneFile

namespace Host

theorem inPlace_new (config : HostConfig) : (Host.new config).InPlace where
  documents := by
    intro file doc hdoc
    cases hdoc
  cache := by
    intro entry hentry
    cases hentry

/-- No event brings a table into the cache. -/
theorem mem_cache_handle {host : Host} {disk : Disk} {event : Event} {entry : FileId × Table}
    (h : entry ∈ (host.handle disk event).cache.entries) : entry ∈ host.cache.entries := by
  cases event with
  | setFolders roots cancelled =>
    rcases host.setFolders_eq disk roots cancelled with ⟨index, modules, files, -, heq⟩
    rw [handle, heq] at h
    cases h
  | setClassifier classifier => cases h
  | openDocument path text =>
    rcases host.openDocument_eq disk path text with ⟨index, heq⟩
    rw [handle, heq] at h
    exact (Cache.mem_of_mem_remove h).1
  | changeDocument file text => exact (Cache.mem_of_mem_remove h).1
  | saveDocument file =>
    rcases host.reindex_eq disk file with ⟨index, heq⟩
    rw [handle, saveDocument, heq] at h
    exact h
  | closeDocument file => exact h
  | fileChanged path =>
    rcases host.fileChanged_eq disk path with ⟨index, heq⟩
    rw [handle, heq] at h
    exact (Cache.mem_of_mem_remove h).1
  | fileDeleted path =>
    rw [handle, fileDeleted] at h
    split at h
    · exact h
    · exact (Cache.mem_of_mem_remove h).1

/-- The table of a document is one of those in place. -/
theorem InPlace.document {host : Host} (h : host.InPlace) {disk : Disk} {file : FileId}
    {doc : Query.Document} (hdoc : (host.document disk file).1 = some doc) :
    doc.table.InOneFile := by
  unfold Host.document at hdoc
  split at hdoc
  · next opened hopened =>
    cases hdoc
    exact h.documents file opened hopened
  · split at hdoc
    · cases hdoc
    · split at hdoc
      · next table cache hget =>
        cases hdoc
        exact h.cache _ (Cache.mem_of_get? hget)
      · cases hdoc
        exact Table.inOneFile_parse _ _ _ _

end Host

namespace Session

theorem inPlace_step {s : Session} (h : s.host.InPlace) (step : Step) :
    (s.step step).host.InPlace where
  documents := by
    intro file doc hdoc
    rcases document?_step hdoc with ⟨-, hparse⟩ | ⟨-, hbefore⟩
    · rw [hparse]
      exact Table.inOneFile_parse _ _ _ _
    · exact h.documents file doc hbefore
  cache := by
    intro entry hentry
    cases step with
    | event event => exact h.cache entry (Host.mem_cache_handle hentry)
    | request request =>
      rcases s.host.reply_eq s.disk request with ⟨cache, hcache, hreply⟩
      rw [Session.step, hreply] at hentry
      -- what a request brings in was just parsed
      rcases hcache with rfl | ⟨file, rfl⟩
      · exact h.cache entry hentry
      · rcases Host.mem_cache_document hentry with hold | ⟨-, text, -, rfl⟩
        · exact h.cache entry hold
        · exact Table.inOneFile_parse _ _ _ _
    | write disk => exact h.cache entry hentry

/-- All symbols are in their files all along a session. -/
theorem inPlace_run (config : HostConfig) (disk : Disk) (steps : List Step) :
    ((start config disk).run steps).host.InPlace := by
  refine @run_invariant (fun s => s.host.InPlace) ?_ _ (Host.inPlace_new config) steps
  intro s step h
  exact inPlace_step h step

end Session

end RakuAtlas
