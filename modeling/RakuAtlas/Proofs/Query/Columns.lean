import RakuAtlas.Proofs.Query.Cursor
import RakuAtlas.Proofs.Text.Slices
import RakuAtlas.Query.Rename

/-!
# RakuAtlas.Proofs.Query.Columns — the symbol at each column

The symbols on a line stand one behind the other, so at most one of them is over a column
(`eq_of_isOver`). Looked up is the one over the column, and one that stops there if there is none
(`symbolAt?_cases`).

* `symbolAt?_of_isOver`: so all columns that a symbol is over find that symbol.
* `answers_eq`: what is asked at a position depends on its line and on the symbol found there alone.
* `lookup_exact`: both, for every line and column.
-/

namespace RakuAtlas.Text

variable {α : Type}

/-- A hit is over a column if the byte there is one of its own. -/
def Hit.IsOver (h : Hit α) (col : Nat) : Prop := h.start ≤ col ∧ col < h.stop

/-- At most one hit is over a column. -/
theorem eq_of_isOver {find : Line → Option (Nat × α)} {line : Line} {a b : Hit α} {col : Nat}
    (ha : a ∈ hits find line) (hb : b ∈ hits find line) (hacol : a.IsOver col)
    (hbcol : b.IsOver col) : a = b := by
  obtain ⟨i, hi, rfl⟩ := List.mem_iff_getElem.1 ha
  obtain ⟨j, hj, rfl⟩ := List.mem_iff_getElem.1 hb
  have hapart := List.pairwise_iff_getElem.1 (pairwise_hits find line)
  obtain ⟨hastart, hastop⟩ := hacol
  obtain ⟨hbstart, hbstop⟩ := hbcol
  rcases Nat.lt_trichotomy i j with hlt | rfl | hgt
  · -- the one in front stops before the other starts
    have hstop := (hapart i j hi hj hlt).2
    omega
  · rfl
  · have hstop := (hapart j i hj hi hgt).2
    omega

end RakuAtlas.Text

namespace RakuAtlas.Query

open Text

/-! ## Symbols on a line -/

section
variable {line : Line} {pos : Pos} {hit : Hit Unit}

/-- What is looked up: the symbol over the column, else one that stops there, else none. -/
theorem symbolAt?_cases (line : Line) (pos : Pos) :
    (∃ hit ∈ symbolsOn line, hit.IsOver pos.col ∧
        symbolAt? line pos = some ⟨hit.text, .onLine pos.line hit.start hit.stop⟩) ∨
      (∀ hit ∈ symbolsOn line, ¬hit.IsOver pos.col) ∧
        ((∃ hit ∈ symbolsOn line, hit.stop = pos.col ∧
            symbolAt? line pos = some ⟨hit.text, .onLine pos.line hit.start hit.stop⟩) ∨
          (∀ hit ∈ symbolsOn line, hit.stop ≠ pos.col) ∧ symbolAt? line pos = none) := by
  unfold symbolAt?
  dsimp only
  cases hover : (symbolsOn line).find? fun h => h.start ≤ pos.col && pos.col < h.stop with
  | some hit =>
    have hcol := List.find?_some hover
    rw [Bool.and_eq_true, decide_eq_true_eq, decide_eq_true_eq] at hcol
    exact Or.inl ⟨hit, List.mem_of_find?_eq_some hover, hcol, rfl⟩
  | none =>
    refine Or.inr ⟨?_, ?_⟩
    · intro hit hmem hcol
      have hnot := List.find?_eq_none.1 hover hit hmem
      rw [Bool.and_eq_true, decide_eq_true_eq, decide_eq_true_eq] at hnot
      exact hnot hcol
    cases hstop : (symbolsOn line).find? fun h => h.stop == pos.col with
    | some hit =>
      have hcol := List.find?_some hstop
      exact Or.inl ⟨hit, List.mem_of_find?_eq_some hstop, eq_of_beq hcol, rfl⟩
    | none =>
      refine Or.inr ⟨?_, rfl⟩
      intro hit hmem hcol
      exact List.find?_eq_none.1 hstop hit hmem (beq_iff_eq.2 hcol)

/-- Every column that a symbol is over finds that symbol. -/
theorem symbolAt?_of_isOver (hmem : hit ∈ symbolsOn line) (hcol : hit.IsOver pos.col) :
    symbolAt? line pos = some ⟨hit.text, .onLine pos.line hit.start hit.stop⟩ := by
  rcases symbolAt?_cases line pos with ⟨other, hother, hover, hfound⟩ | ⟨hnone, -⟩
  · rw [hfound, eq_of_isOver hother hmem hover hcol]
  · exact absurd hcol (hnone hit hmem)

/-- What is found at a column is a symbol there. It is over the column unless no symbol is. -/
theorem exists_of_symbolAt? {found : SymbolAt} (h : symbolAt? line pos = some found) :
    ∃ hit ∈ symbolsOn line, found = ⟨hit.text, .onLine pos.line hit.start hit.stop⟩ ∧
      hit.start ≤ pos.col ∧ pos.col ≤ hit.stop ∧
      (hit.IsOver pos.col ∨
        hit.stop = pos.col ∧ ∀ other ∈ symbolsOn line, ¬other.IsOver pos.col) := by
  rcases symbolAt?_cases line pos with ⟨hit, hmem, hover, hfound⟩ |
    ⟨hnone, ⟨hit, hmem, hstop, hfound⟩ | ⟨-, hfound⟩⟩
  · rw [h, Option.some.injEq] at hfound
    exact ⟨hit, hmem, hfound, hover.1, Nat.le_of_lt hover.2, Or.inl hover⟩
  · rw [h, Option.some.injEq] at hfound
    have hstart : hit.start ≤ hit.stop := Nat.le_add_right ..
    exact ⟨hit, hmem, hfound, hstop ▸ hstart, Nat.le_of_eq hstop.symm, Or.inr ⟨hstop, hnone⟩⟩
  · rw [h] at hfound
    cases hfound

/-- Nothing is found just if no symbol touches the column. -/
theorem symbolAt?_eq_none_iff :
    symbolAt? line pos = none ↔
      ∀ hit ∈ symbolsOn line, ¬(hit.start ≤ pos.col ∧ pos.col ≤ hit.stop) := by
  constructor
  · intro hnone hit hmem ⟨hstart, hstop⟩
    rcases symbolAt?_cases line pos with ⟨other, -, -, hfound⟩ |
      ⟨hover, ⟨other, -, -, hfound⟩ | ⟨hstops, -⟩⟩
    · rw [hnone] at hfound
      cases hfound
    · rw [hnone] at hfound
      cases hfound
    · -- it would be over the column or stop there
      obtain hlt | heq := Nat.lt_or_eq_of_le hstop
      · exact hover hit hmem ⟨hstart, hlt⟩
      · exact hstops hit hmem heq.symm
  · intro hnone
    cases hfound : symbolAt? line pos with
    | none => rfl
    | some found =>
      obtain ⟨hit, hmem, -, hstart, hstop, -⟩ := exists_of_symbolAt? hfound
      exact absurd ⟨hstart, hstop⟩ (hnone hit hmem)

/-- A symbol is the slice of the line in its columns. -/
theorem slice?_of_mem_symbolsOn (hmem : hit ∈ symbolsOn line) :
    slice? hit.start hit.stop line = some hit.text := by
  have hslice := slice?_append hit.before.reverse hit.text hit.after
  rw [← hit.start_eq, ← line_of_mem_symbolsOn hmem] at hslice
  exact hslice

end

/-! ## Answers -/

/-- Two positions on a line that are on the same symbol have the same answers. -/
theorem answers_eq [PatternLibrary] (world : World) (doc : Document) {pos pos' : Pos}
    (hline : pos.line = pos'.line) (h : symbolIn? doc.text pos = symbolIn? doc.text pos') :
    definitions world doc pos = definitions world doc pos' ∧
      referenceLocations? world doc pos = referenceLocations? world doc pos' ∧
      renameTarget? doc.text pos = renameTarget? doc.text pos' ∧
      rename world doc pos = rename world doc pos' := by
  have hreferences : referencesAt? world doc pos = referencesAt? world doc pos' := by
    rw [referencesAt?, referencesAt?, h, hline]
  refine ⟨?_, ?_, ?_, ?_⟩
  · rw [definitions, definitions, h, hline]
  · funext withDeclaration
    rw [referenceLocations?, referenceLocations?, hreferences]
  · rw [renameTarget?, renameTarget?, h]
  · funext newName
    rw [rename, rename, h, hreferences]

/-- The symbol at a column of a line.

* What is found is a symbol that touches the column, with its columns and what the line has there.
  It is over the column if any symbol is, and every column that it is over finds the same.
* Nothing is found just if no symbol touches the column.
* What is found at a position of a document decides the answers there: the declarations, the
  references and the rename are the same at every column of the symbol. -/
theorem lookup_exact [PatternLibrary] :
    (∀ line pos found, symbolAt? line pos = some found →
      ∃ hit ∈ symbolsOn line, found = ⟨hit.text, .onLine pos.line hit.start hit.stop⟩ ∧
        slice? hit.start hit.stop line = some hit.text ∧
        hit.start ≤ pos.col ∧ pos.col ≤ hit.stop ∧
        ((∃ other ∈ symbolsOn line, other.IsOver pos.col) → hit.IsOver pos.col) ∧
        ∀ col, hit.start ≤ col → col < hit.stop → symbolAt? line ⟨pos.line, col⟩ = some found) ∧
      (∀ line pos, symbolAt? line pos = none ↔
        ∀ hit ∈ symbolsOn line, ¬(hit.start ≤ pos.col ∧ pos.col ≤ hit.stop)) ∧
      ∀ world doc pos found, symbolIn? doc.text pos = some found →
        ∀ col, found.range.start.col ≤ col → col < found.range.stop.col →
          definitions world doc ⟨pos.line, col⟩ = definitions world doc pos ∧
          referenceLocations? world doc ⟨pos.line, col⟩ = referenceLocations? world doc pos ∧
          renameTarget? doc.text ⟨pos.line, col⟩ = renameTarget? doc.text pos ∧
          rename world doc ⟨pos.line, col⟩ = rename world doc pos := by
  refine ⟨?_, fun line pos => symbolAt?_eq_none_iff, ?_⟩
  · intro line pos found hfound
    obtain ⟨hit, hmem, rfl, hstart, hstop, hover⟩ := exists_of_symbolAt? hfound
    refine ⟨hit, hmem, rfl, slice?_of_mem_symbolsOn hmem, hstart, hstop, ?_, ?_⟩
    · rintro ⟨other, hother, hcol⟩
      rcases hover with hover | ⟨-, hnone⟩
      · exact hover
      · exact absurd hcol (hnone other hother)
    · intro col hfirst hlast
      exact @symbolAt?_of_isOver line ⟨pos.line, col⟩ hit hmem ⟨hfirst, hlast⟩
  · intro world doc pos found hfound col hfirst hlast
    obtain ⟨line, hit, hline, hmem, rfl⟩ := exists_of_symbolIn? hfound
    -- the column is one that the symbol is over
    have hcol : symbolIn? doc.text ⟨pos.line, col⟩ = symbolIn? doc.text pos := by
      rw [hfound, symbolIn?, hline, Option.bind_eq_bind, Option.bind_some]
      exact @symbolAt?_of_isOver line ⟨pos.line, col⟩ hit hmem ⟨hfirst, hlast⟩
    exact answers_eq world doc rfl hcol

/-- Where one variable stops and the next one starts, the next one is found, at its other columns
too, and where no other starts it is the one that stops there. In a document of that line a rename
at the first of them is the rename behind the last. -/
theorem lookup_exact_adjacent :
    symbolAt? "$é%b".toList ⟨0, 3⟩ = some ⟨"%b".toList, .onLine 0 3 5⟩ ∧
      symbolAt? "$é%b".toList ⟨0, 4⟩ = some ⟨"%b".toList, .onLine 0 3 5⟩ ∧
      symbolAt? "$é%b".toList ⟨0, 5⟩ = some ⟨"%b".toList, .onLine 0 3 5⟩ ∧
      symbolIn? "$é%b" ⟨0, 5⟩ = some ⟨"%b".toList, .onLine 0 3 5⟩ ∧
      ∀ world table,
        rename world ⟨table, "$é%b"⟩ ⟨0, 3⟩ = rename world ⟨table, "$é%b"⟩ ⟨0, 5⟩ := by
  have hstop : symbolAt? "$é%b".toList ⟨0, 5⟩ = some ⟨"%b".toList, .onLine 0 3 5⟩ := by
    decide +kernel
  have hin : symbolIn? "$é%b" ⟨0, 5⟩ = some ⟨"%b".toList, .onLine 0 3 5⟩ := by
    decide +kernel
  obtain ⟨hfound, -, hanswers⟩ := lookup_exact
  obtain ⟨hit, -, heq, -, -, -, -, hcols⟩ := hfound _ _ _ hstop
  have hfirst : 3 = hit.start := congrArg (·.range.start.col) heq
  have hlast : 5 = hit.stop := congrArg (·.range.stop.col) heq
  refine ⟨hcols 3 (by omega) (by omega), hcols 4 (by omega) (by omega), hstop, hin, ?_⟩
  intro world table
  obtain ⟨-, -, -, hrename⟩ := hanswers world ⟨table, "$é%b"⟩ _ _ hin 3 (by decide) (by decide)
  exact hrename

end RakuAtlas.Query
