import RakuAtlas.Proofs.Query.References

/-!
# RakuAtlas.Proofs.Query.Isolation — each file is searched on its own

What is found in several files is put together, ordered and rid of overlaps in one pass over
all of it. Still every file keeps exactly what is found in it alone (`foundIn`), so that a file
that cannot be read takes away what is in it and nothing else (`referencesTo?_isolates`).

* The order of places is strict (`Location.Precedes.asymm`), so that a list in this order is
  determined by its members. It is enough then to know what is in the result
  (`deduplicate_found`).
* What is searched for and its declaration (`target?`) come from the table, the modules and
  the index, and so does whether its pattern is compiled. No text is read for them.
-/

namespace RakuAtlas.Query

open RakuAtlas.Symbol (SymbolName)

/-! ## What is searched -/

section
variable (world : World) (doc : Document)

/-- What is searched for, and its declaration. -/
def target? [PatternLibrary] (symbol : String) (line : Nat) : Option (String × Symbol) := do
  let declaration ← ((doc.scopes world).resolve symbol line).primary?
  let searched := if (SymbolName.parse symbol.toList).hasSigil then symbol else declaration.name
  let name := SymbolName.parse searched.toList
  if name.base.isEmpty || !PatternLibrary.builds name then none else some (searched, declaration)

variable (searched : String) (declaration : Symbol)

/-- What is found, before it is put in order. -/
def found : List Occurrence :=
  if (SymbolName.parse searched.toList).hasSigil then
    occurrences world.classifier (.parse searched.toList) doc.table.file doc.text declaration.line
  else foundFor world doc (.parse searched.toList) declaration.name

/-- The text of a file in which something is searched for, and the first line that counts: a
variable is searched for in its document, from its declaration on. -/
def searchedFrom? (file : FileId) : Option (String × Nat) :=
  if (SymbolName.parse searched.toList).hasSigil then
    if file = doc.table.file then some (doc.text, declaration.line) else none
  else (searchedText? world doc declaration.name file).map fun text => (text, 0)

/-- What is found in one file alone. -/
def foundIn (file : FileId) : List Occurrence :=
  match searchedFrom? world doc searched declaration file with
  | some (text, first) => occurrences world.classifier (.parse searched.toList) file text first
  | none => []

theorem referencesTo?_eq [PatternLibrary] (symbol : String) (line : Nat) :
    referencesTo? world doc symbol line = (target? world doc symbol line).map fun target =>
      ⟨target.1, target.2,
        deduplicate Occurrence.location (found world doc target.1 target.2)⟩ := by
  unfold referencesTo? target?
  cases ((doc.scopes world).resolve symbol line).primary? with
  | none => rfl
  | some declaration =>
    simp only [Option.bind_eq_bind, Option.bind_some]
    generalize (if (SymbolName.parse symbol.toList).hasSigil then symbol else declaration.name) =
      searched
    by_cases hbase : (SymbolName.parse searched.toList).base.isEmpty
    · rw [if_pos hbase, if_pos (Bool.or_eq_true_iff.2 (Or.inl hbase))]
      rfl
    · rw [if_neg hbase]
      by_cases hrefused : (!PatternLibrary.builds (SymbolName.parse searched.toList)) = true
      · rw [if_pos hrefused, if_pos (Bool.or_eq_true_iff.2 (Or.inr hrefused))]
        rfl
      · rw [if_neg hrefused, if_neg fun h => (Bool.or_eq_true_iff.1 h).elim hbase hrefused]
        rfl

end

section
variable {world : World} {doc : Document} {searched : String} {declaration : Symbol}

theorem file_of_mem_foundIn {file : FileId} {o : Occurrence}
    (h : o ∈ foundIn world doc searched declaration file) : o.location.file = file := by
  unfold foundIn at h
  split at h
  · exact file_of_mem_occurrences h
  · cases h

theorem pairwise_foundIn (file : FileId) :
    (foundIn world doc searched declaration file).Pairwise
      fun a b => a.location.Precedes b.location := by
  unfold foundIn
  split
  · exact pairwise_occurrences ..
  · exact .nil

/-- What is found is what is found in each file alone. -/
theorem mem_found {o : Occurrence} :
    o ∈ found world doc searched declaration ↔
      o ∈ foundIn world doc searched declaration o.location.file := by
  by_cases hsigil : (SymbolName.parse searched.toList).hasSigil
  · simp only [found, foundIn, searchedFrom?, if_pos hsigil]
    by_cases hfile : o.location.file = doc.table.file
    · rw [if_pos hfile, hfile]
    · rw [if_neg hfile]
      exact iff_of_false (fun h => hfile (file_of_mem_occurrences h)) List.not_mem_nil
  · simp only [found, foundIn, searchedFrom?, if_neg hsigil, mem_foundFor]
    constructor
    · rintro ⟨file, text, htext, ho⟩
      rw [file_of_mem_occurrences ho, htext]
      exact ho
    · intro h
      cases htext : searchedText? world doc declaration.name o.location.file with
      | none =>
        rw [htext] at h
        cases h
      | some text =>
        rw [htext] at h
        exact ⟨o.location.file, text, htext, h⟩

theorem not_clashes_found : (found world doc searched declaration).Pairwise
    fun a b => clashes a.location b.location = false := by
  unfold found
  split
  · exact (pairwise_occurrences ..).imp not_clashes_of_precedes
  · exact pairwise_foundFor declaration.name

/-- Putting what is found in order neither loses nor adds anything. -/
theorem deduplicate_found :
    (deduplicate Occurrence.location (found world doc searched declaration)).Pairwise
        (fun a b => a.location.Precedes b.location) ∧
      ∀ o, o ∈ deduplicate Occurrence.location (found world doc searched declaration) ↔
        o ∈ foundIn world doc searched declaration o.location.file := by
  have hranges : ∀ o ∈ found world doc searched declaration,
      o.location.range.start ≤ o.location.range.stop := by
    intro o ho
    rw [mem_found, foundIn] at ho
    split at ho
    · exact (isUse_of_mem_occurrences ho).2.start_le_stop
    · cases ho
  obtain ⟨hsorted, hmem⟩ := deduplicate_of_not_clashes not_clashes_found hranges
  exact ⟨hsorted, fun o => (hmem o).trans mem_found⟩

/-- Each file keeps what is found in it alone. -/
theorem filter_deduplicate_found (file : FileId) :
    (deduplicate Occurrence.location (found world doc searched declaration)).filter
      (·.location.file == file) = foundIn world doc searched declaration file := by
  obtain ⟨hsorted, hmem⟩ := @deduplicate_found world doc searched declaration
  refine Order.eq_of_pairwise Location.Precedes.asymm (hsorted.filter _) (pairwise_foundIn file) ?_
  intro o
  rw [List.mem_filter, hmem, beq_iff_eq]
  constructor
  · rintro ⟨ho, rfl⟩
    exact ho
  · intro ho
    have hfile := file_of_mem_foundIn ho
    exact ⟨by rwa [hfile], hfile⟩

end

/-! ## A file that cannot be read -/

/-- Two worlds that differ in one file only, which has no text in the second. -/
structure World.Loses (world world' : World) (file : FileId) : Prop where
  index_eq : world'.index = world.index
  modules_eq : world'.modules = world.modules
  classifier_eq : world'.classifier = world.classifier
  text?_eq : ∀ other, other ≠ file →
    world'.files.text? world'.disk other = world.files.text? world.disk other
  text?_file : world'.files.text? world'.disk file = none

namespace World.Loses

variable {world world' : World} {file : FileId} {doc : Document}

theorem target?_eq [PatternLibrary] (h : world.Loses world' file) (symbol : String) (line : Nat) :
    target? world' doc symbol line = target? world doc symbol line := by
  simp only [target?, Document.scopes, h.index_eq, h.modules_eq]

theorem searchedText?_eq (h : world.Loses world' file) (hne : file ≠ doc.table.file)
    (name : String) (other : FileId) :
    searchedText? world' doc name other =
      if other = file then none else searchedText? world doc name other := by
  by_cases hother : other = file
  · subst hother
    simp [searchedText?, hne, h.text?_file]
  · simp only [searchedText?, if_neg hother, h.index_eq, h.text?_eq other hother]

/-- Nothing is found in the file that is lost, and what is found in any other is the same. -/
theorem foundIn_eq (h : world.Loses world' file) (hne : file ≠ doc.table.file)
    (searched : String) (declaration : Symbol) (other : FileId) :
    foundIn world' doc searched declaration other =
      if other = file then [] else foundIn world doc searched declaration other := by
  have hsearched : searchedFrom? world' doc searched declaration other =
      if other = file then none else searchedFrom? world doc searched declaration other := by
    unfold searchedFrom?
    by_cases hother : other = file
    · simp [hother, hne, h.searchedText?_eq hne]
    · simp only [h.searchedText?_eq hne, if_neg hother]
  rw [foundIn, hsearched, h.classifier_eq]
  by_cases hother : other = file
  · rw [if_pos hother, if_pos hother]
  · rw [if_neg hother, if_neg hother, foundIn]

/-- What is found loses what was found in the file. -/
theorem deduplicate_found_eq (h : world.Loses world' file) (hne : file ≠ doc.table.file)
    (searched : String) (declaration : Symbol) :
    deduplicate Occurrence.location (found world' doc searched declaration) =
      (deduplicate Occurrence.location (found world doc searched declaration)).filter
        (·.location.file != file) := by
  obtain ⟨hsorted, hmem⟩ := @deduplicate_found world doc searched declaration
  obtain ⟨hsorted', hmem'⟩ := @deduplicate_found world' doc searched declaration
  refine Order.eq_of_pairwise Location.Precedes.asymm hsorted' (hsorted.filter _) ?_
  intro o
  rw [List.mem_filter, hmem, hmem', h.foundIn_eq hne, bne_iff_ne]
  by_cases ho : o.location.file = file
  · simp [ho]
  · simp [ho]

end World.Loses

/-- The references in a file are what is found in it alone: no other file that is searched
changes them. A file besides the document that cannot be read is missing from the references
with all that was found in it; what was searched for, its declaration and everything that was
found elsewhere are as they were, in the same order. -/
theorem referencesTo?_isolates [PatternLibrary] (world : World) (doc : Document) (symbol : String)
    (line : Nat) :
    (∀ refs, referencesTo? world doc symbol line = some refs → ∀ file,
        refs.occurrences.filter (·.location.file == file) =
          foundIn world doc refs.symbol refs.declaration file) ∧
      ∀ world' file, world.Loses world' file → file ≠ doc.table.file →
        referencesTo? world' doc symbol line = (referencesTo? world doc symbol line).map
          fun refs => { refs with
            occurrences := refs.occurrences.filter (·.location.file != file) } := by
  constructor
  · intro refs hrefs file
    rw [referencesTo?_eq, Option.map_eq_some_iff] at hrefs
    obtain ⟨target, -, rfl⟩ := hrefs
    exact filter_deduplicate_found file
  · intro world' file hloses hne
    rw [referencesTo?_eq, referencesTo?_eq, hloses.target?_eq, Option.map_map]
    refine congrArg (Option.map · _) (funext fun target => ?_)
    rw [hloses.deduplicate_found_eq hne]
    rfl

/-! Three files declare one routine, and one of them cannot be read. -/

def routineSub (file : Nat) : Symbol := .onLine "run" .sub ⟨file⟩ 0

def routineDoc : Document := ⟨⟨⟨0⟩, [routineSub 0], []⟩, "sub run \x7b \x7d\nrun();"⟩

/-- The texts of the other two files are those that are open. -/
def routineWorld (buffers : List (FileId × String)) : World :=
  ⟨⟨[]⟩, ⟨[], buffers⟩,
    ⟨[("run", [routineSub 1, routineSub 2])], [(⟨1⟩, ["run"]), (⟨2⟩, ["run"])], 2⟩, .empty,
    some .raku⟩

def bothOpen : World :=
  routineWorld [(⟨1⟩, "sub run \x7b \x7d"), (⟨2⟩, "run; sub run \x7b \x7d")]

def oneOpen : World := routineWorld [(⟨2⟩, "run; sub run \x7b \x7d")]

def useOfRun (file line col : Nat) : Occurrence :=
  ⟨⟨⟨file⟩, .onLine line col (col + 3)⟩, .onLine line col (col + 3), .whole⟩

/-- What was found in the second file is gone. -/
theorem referencesTo?_isolates_routine :
    bothOpen.Loses oneOpen ⟨1⟩ ∧ ⟨1⟩ ≠ routineDoc.table.file ∧
      ∃ refs, referencesTo? bothOpen routineDoc "run" 1 = some refs ∧
        refs.occurrences.filter (·.location.file == ⟨1⟩) = [useOfRun 1 0 4] ∧
        referencesTo? oneOpen routineDoc "run" 1 = some { refs with
          occurrences := refs.occurrences.filter (·.location.file != ⟨1⟩) } := by
  have hloses : bothOpen.Loses oneOpen ⟨1⟩ := by
    refine ⟨rfl, rfl, rfl, ?_, by decide +kernel⟩
    intro other hne
    have hother : ((⟨1⟩ : FileId) == other) = false := beq_false_of_ne hne.symm
    simp [bothOpen, oneOpen, routineWorld, Files.text?, Files.read, Files.buffer?, Files.path?,
      hother]
  have hne : ⟨1⟩ ≠ routineDoc.table.file := by decide
  have hdeclaring : bothOpen.index.filesDeclaring "run" = [⟨1⟩, ⟨2⟩] := by
    rw [Index.filesDeclaring, List.mergeSort_of_pairwise (by decide)]
    decide
  have htext : searchedText? bothOpen routineDoc "run" ⟨1⟩ = some "sub run \x7b \x7d" := by
    rw [searchedText?, if_neg hne, hdeclaring, if_pos (by decide)]
    decide +kernel
  have hfound : foundIn bothOpen routineDoc "run" (routineSub 0) ⟨1⟩ = [useOfRun 1 0 4] := by
    rw [foundIn, searchedFrom?, if_neg (by decide), show (routineSub 0).name = "run" from rfl,
      htext]
    decide +kernel
  have htarget : target? bothOpen routineDoc "run" 1 = some ("run", routineSub 0) := by
    decide +kernel
  have hrefs := referencesTo?_eq bothOpen routineDoc "run" 1
  rw [htarget] at hrefs
  obtain ⟨halone, hlost⟩ := referencesTo?_isolates bothOpen routineDoc "run" 1
  refine ⟨hloses, hne, _, hrefs, (halone _ hrefs ⟨1⟩).trans hfound, ?_⟩
  rw [hlost oneOpen ⟨1⟩ hloses hne, hrefs]
  rfl

end RakuAtlas.Query
