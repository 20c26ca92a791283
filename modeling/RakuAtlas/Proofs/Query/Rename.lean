import RakuAtlas.Proofs.Query.Edits
import RakuAtlas.Proofs.Query.Names

/-!
# RakuAtlas.Proofs.Query.Rename — the edits of a rename

The edits of a rename replace the symbol that was searched for, or its base,
and nothing else. `RenameEdits` says what this means for one file, and
`IsRename` for all of them.

* `mem_references`: references are written in the texts of their files, and come
  one after the other.
* `Grouped`: collecting edits file by file keeps the order of the references.
* `isRename_of_rename`: the edits of a rename are as described, for any table
  and any index that came about by parsing, current or not.
-/

namespace RakuAtlas.Query

open Text
open RakuAtlas.Symbol (SymbolName)

/-! ## What a rename does to a file -/

/-- The base of a symbol. -/
def baseOf (symbol : String) : String := String.ofList (SymbolName.parse symbol.toList).base

/-- Edits of a text that replace a symbol by a new name, or the base of the one
by the base of the other. -/
structure RenameEdits (searched full text : String) (edits : List TextEdit) : Prop where
  ne_nil : edits ≠ []
  ascending : edits.Pairwise fun a b => a.range.start < b.range.start
  apart : edits.Pairwise fun a b => a.range.stop ≤ b.range.start
  /-- Every edit is inside one line, and cuts no character. -/
  onLine : ∀ e ∈ edits, ∃ old, LineEdit text e old
  newText : ∀ e ∈ edits, e.newText = full ∨ e.newText = baseOf full
  under_full : ∀ e ∈ edits, e.newText = full → textUnder? text e.range = some searched.toList
  under_base : ∀ e ∈ edits, e.newText = baseOf full →
    textUnder? text e.range = some (baseOf searched).toList
  /-- All edits are applied, and what is not under an edit is kept. -/
  rewrites : Rewrites (.ofText text) (fun e old => textUnder? text e.range = some old) 0
    text.toList edits (applyEdits text edits).toList
  lineCount : (lines (applyEdits text edits)).length = (lines text).length

/-- Edits that rename a symbol in the texts of several files, in the order of
the files. -/
structure IsRename (files : Files) (disk : Disk) (searched full : String)
    (edit : WorkspaceEdit) : Prop where
  ascending : edit.changes.Pairwise fun a b => a.1.index < b.1.index
  edits : ∀ change ∈ edit.changes, ∃ text, files.text? disk change.1 = some text ∧
    RenameEdits searched full text change.2

/-- Every build applies the edits of a rename as they are applied with offsets of any size, to a
text with offsets of 32 bits. -/
theorem RenameEdits.applyEditsIn?_eq {searched full text : String} {edits : List TextEdit}
    (h : RenameEdits searched full text edits) (hsize : byteLen text.toList < offsetLimit)
    (build : Build) : applyEditsIn? build text edits = some (applyEdits text edits) := by
  refine applyEditsIn?_of_stands ?_ hsize build
  intro e he
  rcases h.onLine e he with ⟨old, hold⟩
  rcases hold.exists_stands with ⟨front, back, hstands⟩
  exact ⟨front, old, back, hstands⟩

/-! ## References -/

/-- What the references to a symbol are: the symbol searched for is the symbol
itself or the name of a declaration, and all that is found is written in the
text of its file. -/
theorem exists_of_referencesTo? [PatternLibrary] {world : World} {doc : Document} {symbol : String}
    {line : Nat} {refs : References} (h : referencesTo? world doc symbol line = some refs) :
    ∃ declaration, ((doc.scopes world).resolve symbol line).primary? = some declaration ∧
      refs.symbol =
        (if (SymbolName.parse symbol.toList).hasSigil then symbol else declaration.name) ∧
      (SymbolName.parse refs.symbol.toList).base ≠ [] ∧
      PatternLibrary.builds (SymbolName.parse refs.symbol.toList) ∧
      ∃ found, refs.occurrences = deduplicate Occurrence.location found ∧
        ∀ o ∈ found, (∃ first, o ∈ occurrences world.classifier
            (SymbolName.parse refs.symbol.toList) doc.table.file doc.text first) ∨
          ∃ file, o ∈ occurrencesIn world (SymbolName.parse refs.symbol.toList) file := by
  simp only [referencesTo?, Option.bind_eq_bind, Option.bind_eq_some_iff] at h
  rcases h with ⟨declaration, hresolve, h⟩
  refine ⟨declaration, hresolve, ?_⟩
  generalize (if (SymbolName.parse symbol.toList).hasSigil = true then symbol
    else declaration.name) = searched at h ⊢
  split at h
  · cases h
  · next hbase =>
    split at h
    · cases h
    · next hbuilds =>
      cases h
      refine ⟨rfl, ?_, ?_, _, rfl, ?_⟩
      · simpa using hbase
      · simpa using hbuilds
      · intro o ho
        -- a variable is searched for in its own document only
        split at ho
        · exact Or.inl ⟨_, ho⟩
        · rcases List.mem_append.1 ho with hown | hother
          · exact Or.inl ⟨0, hown⟩
          · rcases List.mem_flatMap.1 hother with ⟨file, -, hfile⟩
            exact Or.inr ⟨file, hfile⟩

/-- What is found for a symbol is written in the text of its file. -/
theorem writtenIn_of_found {world : World} {doc : Document} {name : SymbolName}
    (hname : IsParsed name)
    (hdoc : world.files.text? world.disk doc.table.file = some doc.text) {o : Occurrence}
    (h : (∃ first, o ∈ occurrences world.classifier name doc.table.file doc.text first) ∨
      ∃ file, o ∈ occurrencesIn world name file) :
    ∃ text, world.files.text? world.disk o.location.file = some text ∧ WrittenIn name text o := by
  rcases h with ⟨first, hown⟩ | ⟨file, hother⟩
  · rcases writtenIn_of_mem_occurrences hname hown with ⟨hfile, hwritten⟩
    exact ⟨doc.text, by rw [hfile]; exact hdoc, hwritten⟩
  · unfold occurrencesIn at hother
    split at hother
    · next text htext =>
      rcases writtenIn_of_mem_occurrences hname hother with ⟨hfile, hwritten⟩
      exact ⟨text, by rw [hfile]; exact htext, hwritten⟩
    · cases hother

theorem WrittenIn.start_le_stop {name : SymbolName} {text : String} {o : Occurrence}
    (h : WrittenIn name text o) : o.location.range.start ≤ o.location.range.stop := by
  rcases h with ⟨n, line, front, old, back, -, -, -, -, start, stop, hrange, hstart, hstop⟩
  rw [hrange, Pos.le_iff]
  rw [byteLen_append] at hstop
  refine Or.inr ⟨rfl, ?_⟩
  show start ≤ stop
  omega

/-- References are written in the texts of their files, and come one after the
other. -/
theorem mem_references [PatternLibrary] {world : World} {doc : Document} {symbol : String}
    {line : Nat} {refs : References}
    (hdoc : world.files.text? world.disk doc.table.file = some doc.text)
    (h : referencesTo? world doc symbol line = some refs) :
    (∀ o ∈ refs.occurrences, ∃ text, world.files.text? world.disk o.location.file = some text ∧
      WrittenIn (SymbolName.parse refs.symbol.toList) text o) ∧
    refs.occurrences.Pairwise fun a b => a.location.Precedes b.location := by
  rcases exists_of_referencesTo? h with ⟨declaration, -, -, -, -, found, hoccurrences, hfound⟩
  have hwritten := fun o ho => writtenIn_of_found (isParsed_parse _) hdoc (hfound o ho)
  rw [hoccurrences]
  constructor
  · intro o ho
    exact hwritten o (mem_of_mem_deduplicate ho)
  · apply pairwise_deduplicate
    intro o ho
    rcases hwritten o ho with ⟨text, -, hin⟩
    exact hin.start_le_stop

/-- References are in files that have a text. -/
theorem exists_text_of_mem_locations [PatternLibrary] {world : World} {doc : Document} {pos : Pos}
    {withDeclaration : Bool} {locations : List Location}
    (hdoc : world.files.text? world.disk doc.table.file = some doc.text)
    (h : referenceLocations? world doc pos withDeclaration = some locations) {l : Location}
    (hl : l ∈ locations) : ∃ text, world.files.text? world.disk l.file = some text := by
  simp only [referenceLocations?, referencesAt?, Option.bind_eq_bind, Option.bind_eq_some_iff] at h
  rcases h with ⟨refs, ⟨found, -, hrefs⟩, hlocations⟩
  cases hlocations
  rcases List.mem_map.1 hl with ⟨o, ho, rfl⟩
  have hmem : o ∈ refs.occurrences := by
    split at ho
    · exact ho
    · exact List.mem_of_mem_eraseP ho
  rcases (mem_references hdoc hrefs).1 o hmem with ⟨text, htext, -⟩
  exact ⟨text, htext⟩

/-- What is searched for is a variable if the symbol under the cursor is one. -/
theorem hasSigil_symbol [PatternLibrary] {world : World} {doc : Document} {pos : Pos}
    {found : SymbolAt} {refs : References} (hindex : world.index.IsImage)
    (hfound : symbolIn? doc.text pos = some found)
    (h : referencesTo? world doc (String.ofList found.text) pos.line = some refs) :
    (SymbolName.parse refs.symbol.toList).hasSigil = (SymbolName.parse found.text).hasSigil := by
  rcases exists_of_referencesTo? h with ⟨declaration, hresolve, hsymbol, -⟩
  rw [String.toList_ofList] at hsymbol
  rw [hsymbol]
  split
  · rw [String.toList_ofList]
  · next hplain =>
    rw [Bool.not_eq_true] at hplain
    rw [hplain]
    refine not_hasSigil_of_resolve ?_ hfound hplain hresolve
    intro index hmem
    cases hmem
    exact hindex

/-! ## The edits of one file -/

theorem range_editOf (full : String) (o : Occurrence) : (editOf full o).range = o.edit := by
  unfold editOf
  split <;> rfl

/-- The edit of an occurrence is an edit of a piece of a line. -/
theorem WrittenIn.lineEdit {name : SymbolName} {text : String} {o : Occurrence}
    (h : WrittenIn name text o) (full : String) :
    ∃ old, Replaces name o old ∧ LineEdit text (editOf full o) old := by
  rcases h with ⟨n, line, front, old, back, hline, hsplit, hedit, hold, -⟩
  refine ⟨old, hold, n, line, front, back, hline, hsplit, ?_⟩
  rw [range_editOf]
  exact hedit

/-- What an edit replaces is not empty. -/
theorem Replaces.ne_nil {name : SymbolName} {o : Occurrence} {old : Line}
    (h : Replaces name o old) (hbase : name.base ≠ []) : old ≠ [] := by
  rcases h with ⟨-, rfl⟩ | ⟨-, -, rfl⟩
  · intro hnil
    exact hbase (List.append_eq_nil_iff.1 hnil).2
  · exact hbase

/-- Edits of occurrences that are apart are apart, and start one after the
other. -/
theorem edit_precedes {name : SymbolName} (hbase : name.base ≠ []) {text : String}
    {a b : Occurrence} (ha : WrittenIn name text a) (hb : WrittenIn name text b)
    (h : a.location.range.stop ≤ b.location.range.start) :
    a.edit.start < b.edit.start ∧ a.edit.stop ≤ b.edit.start := by
  rcases ha with ⟨n, _, front, old, _, -, -, hedit, hold, start, stop, hrange, hstart, hstop⟩
  rcases hb with ⟨m, _, front', _, _, -, -, hedit', -, start', stop', hrange', hstart', -⟩
  have hpos := byteLen_pos (hold.ne_nil hbase)
  rw [hrange, hrange', Pos.le_iff] at h
  rw [hedit, hedit', Pos.lt_iff, Pos.le_iff]
  rw [byteLen_append] at hstop ⊢
  simp only [Range.onLine] at h ⊢
  omega

/-- The new text of an edit, and what it stands for. -/
theorem newText_editOf {name : SymbolName} {o : Occurrence} {old : Line}
    (h : Replaces name o old) (full : String) :
    (editOf full o).newText = full ∧ old = name.render ∨
      (editOf full o).newText = baseOf full ∧ name.hasSigil ∧ old = name.base := by
  rcases h with ⟨hform, hold⟩ | ⟨hform, hsigil, hold⟩
  · exact Or.inl ⟨by simp [editOf, hform], hold⟩
  · exact Or.inr ⟨by simp [editOf, hform, baseOf], hsigil, hold⟩

/-- A name that is its own base is plain. -/
theorem not_hasSigil_of_baseOf_eq {full : String} (h : full = baseOf full) :
    (SymbolName.parse full.toList).hasSigil = false := by
  rw [← Bool.not_eq_true]
  intro hsigil
  apply base_parse_ne hsigil
  have hchars := congrArg String.toList h
  rw [baseOf, String.toList_ofList] at hchars
  exact hchars.symm

section
variable {searched full text : String} {o : Occurrence}

/-- Where the full name is put, the symbol stood. -/
theorem textUnder?_of_full
    (hsigil : (SymbolName.parse full.toList).hasSigil =
      (SymbolName.parse searched.toList).hasSigil)
    (h : WrittenIn (SymbolName.parse searched.toList) text o)
    (hnew : (editOf full o).newText = full) :
    textUnder? text (editOf full o).range = some searched.toList := by
  rcases h.lineEdit full with ⟨old, hold, hline⟩
  rw [hline.textUnder?_eq]
  rcases newText_editOf hold full with ⟨-, rfl⟩ | ⟨hbase, hvariable, -⟩
  · rw [SymbolName.render_parse]
  · -- the new name would be a variable that is its own base
    have hplain := not_hasSigil_of_baseOf_eq (hnew.symm.trans hbase)
    rw [hsigil, hvariable] at hplain
    cases hplain

/-- Where the base of the new name is put, the base of the symbol stood. -/
theorem textUnder?_of_base
    (hsigil : (SymbolName.parse full.toList).hasSigil =
      (SymbolName.parse searched.toList).hasSigil)
    (h : WrittenIn (SymbolName.parse searched.toList) text o)
    (hnew : (editOf full o).newText = baseOf full) :
    textUnder? text (editOf full o).range = some (baseOf searched).toList := by
  rcases h.lineEdit full with ⟨old, hold, hline⟩
  rw [hline.textUnder?_eq, baseOf, String.toList_ofList]
  rcases newText_editOf hold full with ⟨hfull, rfl⟩ | ⟨-, -, rfl⟩
  · -- a plain name is its own base, and so is a plain symbol
    have hplain := not_hasSigil_of_baseOf_eq (hfull.symm.trans hnew)
    rw [hsigil] at hplain
    rw [SymbolName.render_parse, base_parse_of_not_hasSigil hplain]
  · rfl

end

/-- The edit of an occurrence is inside a line, and brings in the new name or its base. -/
theorem lineEdit_of_mem_edits {name : SymbolName} {full text : String} {os : List Occurrence}
    (hwritten : ∀ o ∈ os, WrittenIn name text o) {e : TextEdit} (he : e ∈ os.map (editOf full)) :
    (∃ old, LineEdit text e old) ∧ (e.newText = full ∨ e.newText = baseOf full) := by
  rcases List.mem_map.1 he with ⟨o, ho, rfl⟩
  rcases (hwritten o ho).lineEdit full with ⟨old, hreplaces, hold⟩
  refine ⟨⟨old, hold⟩, ?_⟩
  rcases newText_editOf hreplaces full with ⟨hfull, -⟩ | ⟨hbase, -⟩
  · exact Or.inl hfull
  · exact Or.inr hbase

/-- Neither pieces of lines nor new names have newlines, so that the number of lines stays. -/
theorem length_lines_applyEdits {full text : String} {edits : List TextEdit}
    (hnewline : '\n' ∉ full.toList)
    (hedits : ∀ e ∈ edits, (∃ old, LineEdit text e old) ∧
      (e.newText = full ∨ e.newText = baseOf full))
    (hrewrites : Rewrites (.ofText text) (fun e old => textUnder? text e.range = some old) 0
      text.toList edits (applyEdits text edits).toList) :
    (lines (applyEdits text edits)).length = (lines text).length := by
  rw [length_lines, length_lines, hrewrites.count_newline]
  · intro e he old hold
    rcases (hedits e he).1 with ⟨piece, hpiece⟩
    rw [hpiece.textUnder?_eq] at hold
    cases hold
    exact hpiece.newline_not_mem
  · intro e he
    rcases (hedits e he).2 with hfull | hbase
    · rw [hfull]
      exact hnewline
    · rw [hbase, baseOf, String.toList_ofList]
      intro hmem
      exact hnewline ((base_parse_suffix _).subset hmem)

/-- The edits of occurrences in one text that come one after the other. -/
theorem renameEdits_of_writtenIn {searched full text : String} {os : List Occurrence}
    (hne : os ≠ []) (hbase : (SymbolName.parse searched.toList).base ≠ [])
    (hsigil : (SymbolName.parse full.toList).hasSigil =
      (SymbolName.parse searched.toList).hasSigil)
    (hnewline : '\n' ∉ full.toList)
    (hwritten : ∀ o ∈ os, WrittenIn (SymbolName.parse searched.toList) text o)
    (happart : os.Pairwise fun a b => a.location.range.stop ≤ b.location.range.start) :
    RenameEdits searched full text (os.map (editOf full)) := by
  -- occurrences that are apart have edits that are apart
  have hprecedes : os.Pairwise fun a b =>
      (editOf full a).range.start < (editOf full b).range.start ∧
        (editOf full a).range.stop ≤ (editOf full b).range.start := by
    refine happart.imp_of_mem ?_
    intro a b ha hb hle
    rw [range_editOf, range_editOf]
    exact edit_precedes hbase (hwritten a ha) (hwritten b hb) hle
  have hedits : ∀ e ∈ os.map (editOf full), (∃ old, LineEdit text e old) ∧
      (e.newText = full ∨ e.newText = baseOf full) :=
    fun e he => lineEdit_of_mem_edits hwritten he
  have hrewrites : Rewrites (.ofText text) (fun e old => textUnder? text e.range = some old) 0
      text.toList (os.map (editOf full)) (applyEdits text (os.map (editOf full))).toList := by
    apply rewrites_lineEdits
    · intro e he
      rcases (hedits e he).1 with ⟨old, hold⟩
      exact ⟨old, hold.textUnder?_eq, hold⟩
    · exact List.pairwise_map.2 (hprecedes.imp And.right)
  refine
    { ne_nil := ?_
      ascending := List.pairwise_map.2 (hprecedes.imp And.left)
      apart := List.pairwise_map.2 (hprecedes.imp And.right)
      onLine := fun e he => (hedits e he).1
      newText := fun e he => (hedits e he).2
      under_full := ?_
      under_base := ?_
      rewrites := hrewrites
      lineCount := length_lines_applyEdits hnewline hedits hrewrites }
  · intro hnil
    exact hne (List.map_eq_nil_iff.1 hnil)
  · intro e he hfull
    rcases List.mem_map.1 he with ⟨o, ho, rfl⟩
    exact textUnder?_of_full hsigil (hwritten o ho) hfull
  · intro e he hbase
    rcases List.mem_map.1 he with ⟨o, ho, rfl⟩
    exact textUnder?_of_base hsigil (hwritten o ho) hbase

/-! ## The edits of several files -/

/-- The changes are the edits of the occurrences, file by file and in the order
of the files. -/
structure Grouped (f : Occurrence → TextEdit) (os : List Occurrence) (edit : WorkspaceEdit) :
    Prop where
  ascending : edit.changes.Pairwise fun a b => a.1.index < b.1.index
  edits : ∀ change ∈ edit.changes, change.2 = (os.filter (·.location.file == change.1)).map f
  mem_files : ∀ file, file ∈ edit.changes.map Prod.fst ↔ file ∈ os.map (·.location.file)

theorem grouped_empty (f : Occurrence → TextEdit) : Grouped f [] .empty where
  ascending := .nil
  edits := by simp [WorkspaceEdit.empty]
  mem_files := by simp [WorkspaceEdit.empty]

/-- Adding the edit of an occurrence in a file that is not before the others. -/
theorem Grouped.add {f : Occurrence → TextEdit} {os : List Occurrence} {edit : WorkspaceEdit}
    (h : Grouped f os edit) {o : Occurrence}
    (hlast : ∀ a ∈ os, a.location.file.index ≤ o.location.file.index) :
    Grouped f (os ++ [o]) (edit.add o.location.file (f o)) where
  ascending := by
    have hfiles : (edit.changes.map Prod.fst).Pairwise fun a b => a.index < b.index :=
      List.pairwise_map.2 h.ascending
    have hbehind : ∀ other ∈ edit.changes.map Prod.fst, other ≠ o.location.file →
        other.index < o.location.file.index := by
      intro other hother hne
      rcases List.mem_map.1 ((h.mem_files other).1 hother) with ⟨a, ha, rfl⟩
      exact Nat.lt_of_le_of_ne (hlast a ha) fun heq => hne (FileId.ext heq)
    have hadded := @WorkspaceEdit.pairwise_files_add _ _ (f o) _ hfiles hbehind
    rw [List.pairwise_map] at hadded
    exact hadded
  edits := by
    intro change hchange
    rw [List.filter_append]
    rcases WorkspaceEdit.mem_changes_add hchange with
      ⟨hbefore, hne⟩ | ⟨before, rfl, hbefore | ⟨rfl, hnew⟩⟩
    · simp [h.edits change hbefore, Ne.symm hne]
    · have hedits : before = (os.filter (·.location.file == o.location.file)).map f :=
        h.edits _ hbefore
      simp [hedits]
    · -- nothing was found in the file before
      have hnil : os.filter (·.location.file == o.location.file) = [] := by
        rw [List.filter_eq_nil_iff]
        intro a ha heq
        exact hnew ((h.mem_files _).2 (List.mem_map.2 ⟨a, ha, eq_of_beq heq⟩))
      simp [hnil]
  mem_files := by
    intro file
    rw [WorkspaceEdit.mem_files_add, h.mem_files, List.map_append, List.mem_append,
      List.map_singleton, List.mem_singleton]

/-- Occurrences that come one after the other are grouped by adding their edits. -/
theorem grouped_foldl (f : Occurrence → TextEdit) {os : List Occurrence}
    (hsorted : os.Pairwise fun a b => a.location.Precedes b.location) :
    Grouped f os (os.foldl (fun edit o => edit.add o.location.file (f o)) .empty) := by
  -- what is done lies in files that are not behind those of what is left
  suffices ∀ (done : List Occurrence) (edit : WorkspaceEdit), Grouped f done edit →
      (∀ a ∈ done, ∀ o ∈ os, a.location.file.index ≤ o.location.file.index) →
      Grouped f (done ++ os)
        (os.foldl (fun edit o => edit.add o.location.file (f o)) edit) by
    have hall := this [] .empty (grouped_empty f) (by simp)
    exact hall
  induction os with
  | nil =>
    intro done edit h _
    rw [List.append_nil]
    exact h
  | cons o more ih =>
    intro done edit h hdone
    rcases List.pairwise_cons.1 hsorted with ⟨hfirst, hmore⟩
    have hnext := h.add fun a ha => hdone a ha o (List.mem_cons_self ..)
    rw [List.append_cons]
    refine ih hmore _ _ hnext ?_
    intro a ha later hlater
    rcases List.mem_append.1 ha with hbefore | hown
    · exact hdone a hbefore later (List.mem_cons_of_mem _ hlater)
    · rw [List.mem_singleton.1 hown]
      rcases hfirst later hlater with hlt | ⟨hfile, -⟩
      · exact Nat.le_of_lt hlt
      · rw [hfile]

/-- The edits of references that come one after the other, in texts of any
origin. -/
theorem renameEdits_of_references {textOf? : FileId → Option String} {searched full : String}
    {os : List Occurrence} (hbase : (SymbolName.parse searched.toList).base ≠ [])
    (hsigil : (SymbolName.parse full.toList).hasSigil =
      (SymbolName.parse searched.toList).hasSigil)
    (hnewline : '\n' ∉ full.toList)
    (hwritten : ∀ o ∈ os, ∃ text, textOf? o.location.file = some text ∧
      WrittenIn (SymbolName.parse searched.toList) text o)
    (hsorted : os.Pairwise fun a b => a.location.Precedes b.location) :
    ∀ change ∈ (os.foldl (fun edit o => edit.add o.location.file (editOf full o))
      WorkspaceEdit.empty).changes, ∃ text, textOf? change.1 = some text ∧
        RenameEdits searched full text change.2 := by
  have hgrouped := grouped_foldl (editOf full) hsorted
  rintro ⟨file, edits⟩ hchange
  have hedits := hgrouped.edits _ hchange
  -- the file has an occurrence, and its text is that of all others there
  rcases List.mem_map.1 ((hgrouped.mem_files file).1 (List.mem_map_of_mem hchange)) with
    ⟨first, hfirst, hfile⟩
  rcases hwritten first hfirst with ⟨text, htext, -⟩
  rw [hfile] at htext
  refine ⟨text, htext, ?_⟩
  show RenameEdits searched full text edits
  rw [show edits = _ from hedits]
  refine renameEdits_of_writtenIn ?_ hbase hsigil hnewline ?_ ?_
  · exact List.ne_nil_of_mem (List.mem_filter.2 ⟨hfirst, beq_iff_eq.2 hfile⟩)
  · intro o ho
    rcases List.mem_filter.1 ho with ⟨hmem, hown⟩
    rcases hwritten o hmem with ⟨text', htext', hin⟩
    rw [eq_of_beq hown, htext] at htext'
    cases htext'
    exact hin
  · refine (hsorted.filter _).imp_of_mem ?_
    intro a b ha hb hprecedes
    have hfile_a := eq_of_beq (List.mem_filter.1 ha).2
    have hfile_b := eq_of_beq (List.mem_filter.1 hb).2
    rcases hprecedes with hlt | ⟨-, -, hstop⟩
    · rw [hfile_a, hfile_b] at hlt
      exact absurd hlt (Nat.lt_irrefl _)
    · exact hstop

/-- The edits of references in the texts of files. -/
theorem isRename_of_references {files : Files} {disk : Disk} {searched full : String}
    {os : List Occurrence} (hbase : (SymbolName.parse searched.toList).base ≠ [])
    (hsigil : (SymbolName.parse full.toList).hasSigil =
      (SymbolName.parse searched.toList).hasSigil)
    (hnewline : '\n' ∉ full.toList)
    (hwritten : ∀ o ∈ os, ∃ text, files.text? disk o.location.file = some text ∧
      WrittenIn (SymbolName.parse searched.toList) text o)
    (hsorted : os.Pairwise fun a b => a.location.Precedes b.location) :
    IsRename files disk searched full
      (os.foldl (fun edit o => edit.add o.location.file (editOf full o)) .empty) where
  ascending := (grouped_foldl (editOf full) hsorted).ascending
  edits := renameEdits_of_references hbase hsigil hnewline hwritten hsorted

/-- A rename that is not refused edits all references. -/
theorem rename_eq [PatternLibrary] {world : World} {doc : Document} {pos : Pos}
    {newName full : String} {found : SymbolAt} {refs : References}
    (hfound : symbolIn? doc.text pos = some found)
    (hallowed : refusal? found.text = none)
    (hfull : normalizeNewName (String.ofList found.text) newName = .ok full)
    (hrefs : referencesAt? world doc pos = some refs) (hne : refs.occurrences ≠ []) :
    rename world doc pos newName = .ok (some (refs.occurrences.foldl
      (fun edit o => edit.add o.location.file (editOf full o)) .empty)) := by
  simp only [rename, hfound, hallowed, hfull, hrefs, bind, Except.bind, List.isEmpty_iff,
    if_neg hne]
  rfl

/-- What a rename that edits something has found on its way. -/
theorem exists_of_rename [PatternLibrary] {world : World} {doc : Document} {pos : Pos}
    {newName : String} {edit : WorkspaceEdit} (h : rename world doc pos newName = .ok (some edit)) :
    ∃ found full refs, symbolIn? doc.text pos = some found ∧
      normalizeNewName (String.ofList found.text) newName = .ok full ∧
      referencesAt? world doc pos = some refs ∧
      edit = refs.occurrences.foldl
        (fun edit o => edit.add o.location.file (editOf full o)) .empty := by
  unfold rename at h
  -- refusals and searches without a result have no edits
  split at h
  · cases h
  · next found hfound =>
    split at h
    · cases h
    · rcases hfull : normalizeNewName (String.ofList found.text) newName with refusal | full
      · rw [hfull] at h
        cases h
      · rcases hrefs : referencesAt? world doc pos with _ | refs
        · rw [hfull, hrefs] at h
          cases h
        · simp only [hfull, hrefs, bind, Except.bind] at h
          split at h
          · cases h
          · cases h
            exact ⟨found, full, refs, hfound, hfull, rfl, rfl⟩

/-- The edits of a rename replace what was searched for in the texts of the
files. The document must have the current text of its file; its table and the
index may be out of date. -/
theorem isRename_of_rename [PatternLibrary] {world : World} {doc : Document} {pos : Pos}
    {newName : String} {edit : WorkspaceEdit} (hindex : world.index.IsImage)
    (hdoc : world.files.text? world.disk doc.table.file = some doc.text)
    (h : rename world doc pos newName = .ok (some edit)) :
    ∃ found full refs, symbolIn? doc.text pos = some found ∧
      normalizeNewName (String.ofList found.text) newName = .ok full ∧
      referencesAt? world doc pos = some refs ∧
      IsRename world.files world.disk refs.symbol full edit := by
  rcases exists_of_rename h with ⟨found, full, refs, hfound, hfull, hrefs, rfl⟩
  refine ⟨found, full, refs, hfound, hfull, hrefs, ?_⟩
  have hto : referencesTo? world doc (String.ofList found.text) pos.line = some refs := by
    simp only [referencesAt?, hfound, Option.bind_eq_bind, Option.bind_some] at hrefs
    exact hrefs
  rcases exists_of_referencesTo? hto with ⟨-, -, -, hbase, -⟩
  rcases mem_references hdoc hto with ⟨hwritten, hsorted⟩
  have hsigil : (SymbolName.parse full.toList).hasSigil =
      (SymbolName.parse refs.symbol.toList).hasSigil := by
    rw [hasSigil_of_normalize hfull, String.toList_ofList, hasSigil_symbol hindex hfound hto]
  exact isRename_of_references hbase hsigil (newline_not_mem_of_normalize hfull) hwritten hsorted

end RakuAtlas.Query
