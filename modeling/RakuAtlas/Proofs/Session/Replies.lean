import RakuAtlas.Proofs.Session.Documents

/-!
# RakuAtlas.Proofs.Session.Replies — what an answer depends on

Every answer is made from the text and the table of at most one file, and from
parts of the host that no request changes. `Host.answer` is the answer for
given texts and tables.

* `Host.reply_eq`: a reply is the answer for the texts and tables that the
  host has, and leaves everything but the cache as it was.
* `Session.inSync_run`: buffers and open documents agree after all steps of
  every session.
-/

namespace RakuAtlas

namespace Host

/-- The answer to a request, given the text and the table of each file. -/
def answer (host : Host) (disk : Disk) (documents : FileId → Option Query.Document) :
    Request → Reply
  | .text file => .text ((documents file).map Query.Document.text)
  | .lineCount file =>
    .lineCount ((documents file).map fun doc => (Text.LineIndex.ofText doc.text).size)
  | .symbolTable file => .table ((documents file).map Query.Document.table)
  | .outline file => .table (host.outline disk file)
  | .resolve file symbol line =>
    .resolution ((documents file).elim .notFound fun doc =>
      (doc.scopes (host.world disk)).resolve symbol line)
  | .definitions file pos =>
    .definitions ((documents file).elim [] fun doc =>
      Query.definitions (host.world disk) doc pos)
  | .references file pos withDeclaration =>
    .references ((documents file).bind fun doc =>
      Query.referenceLocations? (host.world disk) doc pos withDeclaration)
  | .renameTarget file pos =>
    .renameTarget ((documents file).bind fun doc => Query.renameTarget? doc.text pos)
  | .rename file pos newName =>
    .rename ((documents file).elim (.error .unknownDocument) fun doc =>
      Query.rename (host.world disk) doc pos newName)
  | .documentSymbols file => .symbols (host.documentSymbols disk file)
  | .workspaceSymbols start limit => .symbols (host.workspaceSymbols start limit)
  | .folds file =>
    .folds ((host.outline disk file).elim [] fun table =>
      (documents file).elim [] fun doc => Query.folds table doc.text host.classifier)

/-- Asking for a document changes nothing but the cache. -/
theorem document_eq (host : Host) (disk : Disk) (file : FileId) :
    host.document disk file =
      ((host.document disk file).1, { host with cache := (host.document disk file).2.cache }) := by
  unfold document
  split
  · rfl
  · split
    · rfl
    · split
      · rfl
      · rfl

/-- A request that asks for one document changes the cache as asking for it does. -/
theorem exists_cache_of_asks {host : Host} {disk : Disk} {request : Request} (file : FileId)
    (h : ∀ doc cache, host.document disk file = (doc, { host with cache := cache }) →
      host.reply disk request =
        (host.answer disk (fun file => (host.document disk file).1) request,
          { host with cache := cache })) :
    ∃ cache, (cache = host.cache ∨ ∃ file, cache = (host.document disk file).2.cache) ∧
      host.reply disk request =
        (host.answer disk (fun file => (host.document disk file).1) request,
          { host with cache := cache }) :=
  ⟨(host.document disk file).2.cache, Or.inr ⟨file, rfl⟩, h _ _ (host.document_eq disk file)⟩

/-- A reply is the answer for the documents that the host has. It changes
nothing but the cache, and that only by asking for a document. -/
theorem reply_eq (host : Host) (disk : Disk) (request : Request) :
    ∃ cache, (cache = host.cache ∨ ∃ file, cache = (host.document disk file).2.cache) ∧
      host.reply disk request =
        (host.answer disk (fun file => (host.document disk file).1) request,
          { host with cache := cache }) := by
  -- requests about a text ask for the document of its file, and the others for none
  cases request with
  | text file | lineCount file | symbolTable file | resolve file symbol line
  | definitions file pos | references file pos withDeclaration | renameTarget file pos
  | rename file pos newName =>
    refine exists_cache_of_asks file fun doc cache h => ?_
    simp only [reply, text, lineCount, symbolTable, resolve, definitions, references, renameTarget,
      rename, answer, h]
    cases doc <;> rfl
  | outline file | documentSymbols file | workspaceSymbols start limit =>
    exact ⟨host.cache, Or.inl rfl, rfl⟩
  | folds file =>
    -- only a file with an outline is asked for its text
    cases houtline : host.outline disk file with
    | none =>
      refine ⟨host.cache, Or.inl rfl, ?_⟩
      simp only [reply, folds, answer, houtline]
      rfl
    | some table =>
      refine exists_cache_of_asks file fun doc cache h => ?_
      simp only [reply, folds, text, answer, houtline, h]
      cases doc <;> rfl

end Host

namespace Session

/-- A request changes nothing but the cache. -/
theorem host_request (s : Session) (request : Request) :
    ∃ cache, (s.step (.request request)).host = { s.host with cache := cache } := by
  rcases s.host.reply_eq s.disk request with ⟨cache, -, hreply⟩
  refine ⟨cache, ?_⟩
  show (s.host.reply s.disk request).2 = _
  rw [hreply]

theorem inSync_step {s : Session} (h : s.host.InSync) (step : Step) :
    (s.step step).host.InSync := by
  cases step with
  | event event => exact h.handle s.disk event
  | request request =>
    rcases s.host_request request with ⟨cache, hhost⟩
    rw [hhost]
    exact h.of_eq rfl rfl
  | write disk => exact h

/-- Buffers and open documents agree all along a session. -/
theorem inSync_run (config : HostConfig) (disk : Disk) (steps : List Step) :
    ((start config disk).run steps).host.InSync := by
  refine @run_invariant (fun s => s.host.InSync) ?_ _ (Host.inSync_new config) steps
  intro s step h
  exact inSync_step h step

end Session

end RakuAtlas
