import RakuAtlas.Proofs.Order
import RakuAtlas.Proofs.Query.Uses
import RakuAtlas.Query.References

/-!
# RakuAtlas.Proofs.Query.References — what the references to a symbol are

References are collected file by file, put in order and rid of overlaps. In one
file nothing overlaps, and no file is searched twice, so that nothing is lost on
the way:

* `exists_references_variable`: the references to a variable are what is found in
  its document from the line of its declaration on;
* `exists_references_plain`: the references to anything else are what is found in
  the texts that are searched for it (`searchedText?`).

Both say that there are references, in order, and exactly which, if the pattern
of the name can be compiled. If it cannot, there are none
(`referencesTo?_variable_refused`, `referencesTo?_plain_refused`).
-/

namespace RakuAtlas.Query

open RakuAtlas.Symbol (SymbolName)

/-- The text in which a name is searched for, by file: that of the document, and
those of the files that declare the name, as far as they can be read. -/
def searchedText? (world : World) (doc : Document) (name : String) (file : FileId) :
    Option String :=
  if file = doc.table.file then some doc.text
  else if file ∈ world.index.filesDeclaring name then world.files.text? world.disk file
  else none

/-! ## Files -/

theorem nodup_filesDeclaring (index : Index) (key : String) :
    (index.filesDeclaring key).Nodup := by
  have hperm := List.mergeSort_perm ((index.find key).map Symbol.file).eraseDups
    fun a b : FileId => decide (a.index ≤ b.index)
  exact hperm.nodup_iff.2 (Order.nodup_eraseDups _)

/-- What is found in a file is in that file. -/
theorem file_of_mem_occurrences {classifier : Option Lexical.Classifier} {name : SymbolName}
    {file : FileId} {text : String} {first : Nat} {o : Occurrence}
    (h : o ∈ occurrences classifier name file text first) : o.location.file = file := by
  rcases isUse_of_mem_occurrences h with ⟨-, huse⟩
  cases huse
  rfl

theorem mem_occurrencesIn {world : World} {name : SymbolName} {file : FileId} {o : Occurrence} :
    o ∈ occurrencesIn world name file ↔ ∃ text, world.files.text? world.disk file = some text ∧
      o ∈ occurrences world.classifier name file text 0 := by
  unfold occurrencesIn
  cases world.files.text? world.disk file with
  | none => simp
  | some text => simp

/-! ## Nothing is lost -/

section
variable {world : World} {doc : Document} {name : SymbolName}

/-- What is found in the document and in other files. -/
def foundFor (world : World) (doc : Document) (name : SymbolName) (key : String) :
    List Occurrence :=
  occurrences world.classifier name doc.table.file doc.text 0 ++
    ((world.index.filesDeclaring key).filter (· != doc.table.file)).flatMap
      (occurrencesIn world name)

theorem mem_foundFor {key : String} {o : Occurrence} :
    o ∈ foundFor world doc name key ↔ ∃ file text, searchedText? world doc key file = some text ∧
      o ∈ occurrences world.classifier name file text 0 := by
  simp only [foundFor, List.mem_append, List.mem_flatMap, List.mem_filter, bne_iff_ne,
    mem_occurrencesIn]
  constructor
  · rintro (hown | ⟨file, ⟨hfile, hne⟩, text, htext, ho⟩)
    · exact ⟨doc.table.file, doc.text, if_pos rfl, hown⟩
    · refine ⟨file, text, ?_, ho⟩
      rw [searchedText?, if_neg hne, if_pos hfile, htext]
  · rintro ⟨file, text, htext, ho⟩
    unfold searchedText? at htext
    split at htext
    · next hown =>
      subst hown
      cases htext
      exact Or.inl ho
    · next hne =>
      split at htext
      · next hfile => exact Or.inr ⟨file, ⟨hfile, hne⟩, text, htext, ho⟩
      · cases htext

/-- No two places that are found clash: in one file they come one after the
other, and no file is searched twice. -/
theorem pairwise_foundFor (key : String) :
    (foundFor world doc name key).Pairwise fun a b => clashes a.location b.location = false := by
  have hone : ∀ file text, (occurrences world.classifier name file text 0).Pairwise
      fun a b => clashes a.location b.location = false := by
    intro file text
    exact (pairwise_occurrences ..).imp not_clashes_of_precedes
  have hother : ∀ {a b : Occurrence}, a.location.file ≠ b.location.file →
      clashes a.location b.location = false := by
    intro a b hne
    simp [clashes, hne]
  rw [foundFor, List.pairwise_append]
  refine ⟨hone _ _, ?_, ?_⟩
  · rw [List.pairwise_flatMap]
    constructor
    · intro file _
      unfold occurrencesIn
      split
      · exact hone _ _
      · exact .nil
    · refine ((nodup_filesDeclaring world.index key).filter _).imp ?_
      intro file file' hne a ha b hb
      rcases mem_occurrencesIn.1 ha with ⟨text, -, ha⟩
      rcases mem_occurrencesIn.1 hb with ⟨text', -, hb⟩
      apply hother
      rw [file_of_mem_occurrences ha, file_of_mem_occurrences hb]
      exact hne
  · intro a ha b hb
    rcases List.mem_flatMap.1 hb with ⟨file, hfile, hb⟩
    rcases mem_occurrencesIn.1 hb with ⟨text, -, hb⟩
    apply hother
    rw [file_of_mem_occurrences ha, file_of_mem_occurrences hb]
    exact fun heq => bne_iff_ne.1 (List.mem_filter.1 hfile).2 heq.symm

/-- Putting places in order that do not clash keeps all of them. -/
theorem deduplicate_of_not_clashes {found : List Occurrence}
    (h : found.Pairwise fun a b => clashes a.location b.location = false)
    (hranges : ∀ o ∈ found, o.location.range.start ≤ o.location.range.stop) :
    (deduplicate Occurrence.location found).Pairwise
        (fun a b => a.location.Precedes b.location) ∧
      ∀ o, o ∈ deduplicate Occurrence.location found ↔ o ∈ found := by
  constructor
  · exact pairwise_deduplicate hranges
  · intro o
    exact (deduplicate_perm h).mem_iff

theorem IsUse.start_le_stop {classifier : Option Lexical.Classifier} {file : FileId}
    {text : String} {o : Occurrence} (h : IsUse classifier name file text o) :
    o.location.range.start ≤ o.location.range.stop := by
  rcases h with ⟨-, -, -, -, -⟩
  refine Or.inr ⟨rfl, ?_⟩
  show Text.byteLen _ ≤ Text.byteLen _
  rw [Text.byteLen_append]
  exact Nat.le_add_right ..

end

section
variable [PatternLibrary] {world : World} {doc : Document} {symbol : String} {line : Nat}
  {declaration : Symbol}

theorem referencesTo?_variable
    (hresolve : ((doc.scopes world).resolve symbol line).primary? = some declaration)
    (hsigil : (SymbolName.parse symbol.toList).hasSigil)
    (hbase : (SymbolName.parse symbol.toList).base ≠ [])
    (hbuilds : PatternLibrary.builds (SymbolName.parse symbol.toList)) :
    referencesTo? world doc symbol line = some ⟨symbol, declaration,
      deduplicate Occurrence.location (occurrences world.classifier
        (SymbolName.parse symbol.toList) doc.table.file doc.text declaration.line)⟩ := by
  simp [referencesTo?, hresolve, hsigil, hbase, hbuilds]

theorem referencesTo?_plain
    (hresolve : ((doc.scopes world).resolve symbol line).primary? = some declaration)
    (hsymbol : (SymbolName.parse symbol.toList).hasSigil = false)
    (hplain : (SymbolName.parse declaration.name.toList).hasSigil = false)
    (hbase : (SymbolName.parse declaration.name.toList).base ≠ [])
    (hbuilds : PatternLibrary.builds (SymbolName.parse declaration.name.toList)) :
    referencesTo? world doc symbol line = some ⟨declaration.name, declaration,
      deduplicate Occurrence.location (foundFor world doc
        (SymbolName.parse declaration.name.toList) declaration.name)⟩ := by
  simp [referencesTo?, hresolve, hsymbol, hplain, hbase, hbuilds, foundFor]

/-- There are no references to a variable whose pattern is not compiled. -/
theorem referencesTo?_variable_refused (hsigil : (SymbolName.parse symbol.toList).hasSigil)
    (hrefused : PatternLibrary.builds (SymbolName.parse symbol.toList) = false) :
    referencesTo? world doc symbol line = none := by
  cases hresolve : ((doc.scopes world).resolve symbol line).primary? with
  | none => simp [referencesTo?, hresolve]
  | some declaration => simp [referencesTo?, hresolve, hsigil, hrefused]

/-- Nor are there any to a declaration whose pattern is not compiled. -/
theorem referencesTo?_plain_refused
    (hresolve : ((doc.scopes world).resolve symbol line).primary? = some declaration)
    (hsymbol : (SymbolName.parse symbol.toList).hasSigil = false)
    (hrefused : PatternLibrary.builds (SymbolName.parse declaration.name.toList) = false) :
    referencesTo? world doc symbol line = none := by
  simp [referencesTo?, hresolve, hsymbol, hrefused]

/-- The references to a variable are what is found in its document from the line
of its declaration on. -/
theorem exists_references_variable
    (hresolve : ((doc.scopes world).resolve symbol line).primary? = some declaration)
    (hsigil : (SymbolName.parse symbol.toList).hasSigil)
    (hbase : (SymbolName.parse symbol.toList).base ≠ [])
    (hbuilds : PatternLibrary.builds (SymbolName.parse symbol.toList)) :
    ∃ refs, referencesTo? world doc symbol line = some refs ∧ refs.symbol = symbol ∧
      refs.declaration = declaration ∧
      refs.occurrences.Pairwise (fun a b => a.location.Precedes b.location) ∧
      ∀ o, o ∈ refs.occurrences ↔ o ∈ occurrences world.classifier
        (SymbolName.parse symbol.toList) doc.table.file doc.text declaration.line := by
  have hapart := (pairwise_occurrences world.classifier (SymbolName.parse symbol.toList)
    doc.table.file doc.text declaration.line).imp not_clashes_of_precedes
  rcases deduplicate_of_not_clashes hapart fun o ho => (isUse_of_mem_occurrences ho).2.start_le_stop
    with ⟨hsorted, hmem⟩
  exact ⟨_, referencesTo?_variable hresolve hsigil hbase hbuilds, rfl, rfl, hsorted, hmem⟩

/-- The references to anything but a variable are what is found in the texts that
are searched for its declaration. -/
theorem exists_references_plain
    (hresolve : ((doc.scopes world).resolve symbol line).primary? = some declaration)
    (hsymbol : (SymbolName.parse symbol.toList).hasSigil = false)
    (hplain : (SymbolName.parse declaration.name.toList).hasSigil = false)
    (hbase : (SymbolName.parse declaration.name.toList).base ≠ [])
    (hbuilds : PatternLibrary.builds (SymbolName.parse declaration.name.toList)) :
    ∃ refs, referencesTo? world doc symbol line = some refs ∧ refs.symbol = declaration.name ∧
      refs.declaration = declaration ∧
      refs.occurrences.Pairwise (fun a b => a.location.Precedes b.location) ∧
      ∀ o, o ∈ refs.occurrences ↔
        ∃ file text, searchedText? world doc declaration.name file = some text ∧
          o ∈ occurrences world.classifier (SymbolName.parse declaration.name.toList) file text
            0 := by
  have hranges : ∀ o ∈ foundFor world doc (SymbolName.parse declaration.name.toList)
      declaration.name, o.location.range.start ≤ o.location.range.stop := by
    intro o ho
    rcases mem_foundFor.1 ho with ⟨file, text, -, ho⟩
    exact (isUse_of_mem_occurrences ho).2.start_le_stop
  rcases deduplicate_of_not_clashes (pairwise_foundFor declaration.name) hranges with
    ⟨hsorted, hmem⟩
  refine ⟨_, referencesTo?_plain hresolve hsymbol hplain hbase hbuilds, rfl, rfl, hsorted, ?_⟩
  intro o
  rw [hmem, mem_foundFor]

end

/-- The references at a position are those to the symbol there. -/
theorem referencesAt?_eq [PatternLibrary] {world : World} {doc : Document} {pos : Pos}
    {found : SymbolAt} (h : symbolIn? doc.text pos = some found) :
    referencesAt? world doc pos = referencesTo? world doc (String.ofList found.text) pos.line := by
  rw [referencesAt?, h]
  rfl

end RakuAtlas.Query
