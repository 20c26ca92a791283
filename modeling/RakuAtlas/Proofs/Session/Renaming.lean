import RakuAtlas.Proofs.Query.Rename
import RakuAtlas.Proofs.Session.Caching

/-!
# RakuAtlas.Proofs.Session.Renaming — renaming in a session

Whatever happened in a session, the edits of a rename fit the texts that the
files have now (`rename_fits`): open buffers, saved or not, and for other files
what is on disk. The table of a document and the index may be older than the
texts. They decide which files are searched and from which line on, but not
what is replaced.
-/

namespace RakuAtlas

open Query (WorkspaceEdit IsRename symbolIn? normalizeNewName referencesAt?)

/-- A document has the current text of its file, whatever its table is. -/
theorem Host.InSync.document {host : Host} (h : host.InSync) (hcache : host.cache.Counted)
    {disk : Disk} {file : FileId} {doc : Query.Document}
    (hdoc : (host.document disk file).1 = some doc) :
    doc.table.file = file ∧ host.files.text? disk file = some doc.text := by
  unfold Host.document at hdoc
  split at hdoc
  · next opened hopened =>
    cases hdoc
    refine ⟨h.navigation_file file opened hopened, ?_⟩
    rw [Files.text?_eq, h.buffer?_eq, hopened]
    rfl
  · split at hdoc
    · cases hdoc
    · next text htext =>
      split at hdoc
      · next table cache hget =>
        cases hdoc
        exact ⟨hcache.file_eq _ (Cache.mem_of_get? hget), htext⟩
      · cases hdoc
        exact ⟨Table.file_parse .., htext⟩

/-- At any point of any session, the edits of a rename are in the order of the
files and replace in their current texts the symbol that is searched for by the
new name, or the base of the one by the base of the other, and nothing else. -/
theorem rename_fits (config : HostConfig) (disk : Disk) (steps : List Step) {s : Session}
    (hs : s = (Session.start config disk).run steps) (file : FileId) (pos : Pos)
    (newName : String) {edit : WorkspaceEdit}
    (h : (s.host.rename s.disk file pos newName).1 = .ok (some edit)) :
    ∃ doc found full refs, (s.host.document s.disk file).1 = some doc ∧
      symbolIn? doc.text pos = some found ∧
      normalizeNewName (String.ofList found.text) newName = .ok full ∧
      referencesAt? (s.host.world s.disk) doc pos = some refs ∧
      IsRename s.host.files s.disk refs.symbol full edit := by
  have hsync := Session.inSync_run config disk steps
  have hcache := Session.counted_run config disk steps
  have hindex := Session.indexed_run config disk steps
  rw [← hs] at hsync hcache hindex
  unfold Host.rename at h
  rw [s.host.document_eq s.disk file] at h
  rcases hdoc : (s.host.document s.disk file).1 with _ | doc
  · rw [hdoc] at h
    cases h
  · rw [hdoc] at h
    rcases hsync.document hcache hdoc with ⟨hfile, htext⟩
    rw [← hfile] at htext
    -- the cache is no part of what a rename looks at
    have hrename : Query.rename (s.host.world s.disk) doc pos newName = .ok (some edit) := h
    rcases Query.isRename_of_rename hindex htext hrename with
      ⟨found, full, refs, hfound, hfull, hrefs, hfits⟩
    exact ⟨doc, found, full, refs, rfl, hfound, hfull, hrefs, hfits⟩

/-! A variable in a buffer that was not saved, and an attribute with its base. -/

def unsavedText : String := "my $x;\r\n$!x"

/-- The file is opened with a text that is not the one on disk. -/
def unsaved : Session :=
  (Session.start {} (oneFile "say 1")).run [.event (.openDocument ⟨"/a"⟩ unsavedText)]

def unsavedTable : Table := ⟨⟨0⟩, [.onLine "$x" .localVar ⟨0⟩ 0], []⟩

/-- The variable is replaced as a whole, and of the attribute only its base. -/
def unsavedEdit : WorkspaceEdit := ⟨[(⟨0⟩, [⟨.onLine 0 3 5, "$y"⟩, ⟨.onLine 1 2 3, "y"⟩])]⟩

theorem symbolIn?_unsaved :
    symbolIn? unsavedText ⟨0, 4⟩ = some ⟨"$x".toList, .onLine 0 3 5⟩ := by
  decide +kernel

theorem references_unsaved (world : Query.World) (h : world.classifier = some .raku) :
    referencesAt? world ⟨unsavedTable, unsavedText⟩ ⟨0, 4⟩ =
      some ⟨"$x", .onLine "$x" .localVar ⟨0⟩ 0,
        [⟨⟨⟨0⟩, .onLine 0 3 5⟩, .onLine 0 3 5, .whole⟩,
          ⟨⟨⟨0⟩, .onLine 1 0 3⟩, .onLine 1 2 3, .baseOnly⟩]⟩ := by
  have hresolve : ((Query.Document.scopes ⟨unsavedTable, unsavedText⟩ world).resolve
      "$x" 0).primary? = some (.onLine "$x" .localVar ⟨0⟩ 0) := rfl
  have hfound : Query.occurrences (some .raku) (.parse "$x".toList) ⟨0⟩ unsavedText 0 =
      [⟨⟨⟨0⟩, .onLine 0 3 5⟩, .onLine 0 3 5, .whole⟩,
        ⟨⟨⟨0⟩, .onLine 1 0 3⟩, .onLine 1 2 3, .baseOnly⟩] := by
    decide +kernel
  have hrefs : referencesAt? world ⟨unsavedTable, unsavedText⟩ ⟨0, 4⟩ =
      some ⟨"$x", .onLine "$x" .localVar ⟨0⟩ 0, Query.deduplicate Query.Occurrence.location
        (Query.occurrences (some .raku) (.parse "$x".toList) ⟨0⟩ unsavedText 0)⟩ := by
    simp only [referencesAt?, symbolIn?_unsaved, Option.bind_eq_bind, Option.bind_some,
      Query.referencesTo?, h, String.ofList_toList, hresolve]
    rfl
  -- the occurrences are in order already
  rw [hrefs, hfound, Query.deduplicate, List.mergeSort_of_pairwise (by decide +kernel)]
  rfl

theorem rename_unsaved :
    (unsaved.host.rename unsaved.disk ⟨0⟩ ⟨0, 4⟩ "y").1 = .ok (some unsavedEdit) := by
  have hallowed : Query.refusal? "$x".toList = none := by decide +kernel
  have hfull : normalizeNewName "$x" "y" = .ok "$y" := by decide +kernel
  have htable : Table.parse ⟨0⟩ unsavedText .navigation (some .raku) = unsavedTable := by
    decide +kernel
  rcases (Host.new {}).openDocument_eq (oneFile "say 1") ⟨"/a"⟩ unsavedText with ⟨index, hopened⟩
  have hhost : unsaved.host = _ := hopened
  have hdoc : unsaved.host.document? ⟨0⟩ =
      some ⟨unsavedText, unsavedTable, Table.parse ⟨0⟩ unsavedText .outline (some .raku)⟩ := by
    rw [hhost, ← htable]
    exact Host.document?_updateDocument _ ⟨0⟩ unsavedText ⟨0⟩
  have hrefs := references_unsaved (unsaved.host.world unsaved.disk) (by rw [hhost]; rfl)
  simp only [Host.rename, Host.document, hdoc, Query.rename, symbolIn?_unsaved, hallowed,
    String.ofList_toList, hfull, hrefs]
  rfl

theorem rename_fits_unsaved :
    (unsaved.host.rename unsaved.disk ⟨0⟩ ⟨0, 4⟩ "y").1 = .ok (some unsavedEdit) ∧
      ∃ searched full, IsRename unsaved.host.files unsaved.disk searched full unsavedEdit := by
  refine ⟨rename_unsaved, ?_⟩
  rcases rename_fits {} (oneFile "say 1") [.event (.openDocument ⟨"/a"⟩ unsavedText)] rfl ⟨0⟩
    ⟨0, 4⟩ "y" rename_unsaved with ⟨-, -, full, refs, -, -, -, -, hfits⟩
  exact ⟨refs.symbol, full, hfits⟩

end RakuAtlas
