import RakuAtlas.Text.Lines

/-!
# RakuAtlas.Query.Edit — edits of texts

An edit replaces a range of a text. `applyEdits` applies several at once, from
the first position to the last; an edit that does not fit the text, or that
reaches into the one before, is left out. `applyEditsIn?` does so with offsets of
32 bits, where a position far outside a text may stop the program or come back
into the text.
-/

namespace RakuAtlas.Query

open Text

/-- The replacement of a range. -/
structure TextEdit where
  range : Range
  newText : String
deriving DecidableEq, Repr

/-- The replacement of the bytes from `start` up to `stop`. -/
structure Splice where
  start : Nat
  stop : Nat
  newText : List Char
deriving DecidableEq, Repr

namespace Splice

/-- The splice between two offsets, if they are inside the text. -/
def between? (index : LineIndex) (start stop : Nat) (newText : String) : Option Splice :=
  if start ≤ stop && stop ≤ index.length then some ⟨start, stop, newText.toList⟩ else none

/-- The splice that an edit asks for, if its range is inside the text. -/
def ofEdit? (index : LineIndex) (edit : TextEdit) : Option Splice := do
  let start ← index.offset? edit.range.start
  let stop ← index.offset? edit.range.stop
  between? index start stop edit.newText

/-- What the program takes for the splice that an edit asks for, unless it stops. -/
def ofEditIn? (build : Build) (index : LineIndex) (edit : TextEdit) : Option (Option Splice) := do
  let some start ← index.offsetIn? build edit.range.start | return none
  let some stop ← index.offsetIn? build edit.range.stop | return none
  return between? index start stop edit.newText

/-- Whether one splice comes before another, by start and then by stop. -/
def atOrBefore (a b : Splice) : Bool := a.start < b.start || (a.start == b.start && a.stop ≤ b.stop)

/-- What a splice leaves of the rest of a text that begins at the byte offset
`cursor`: the characters before it and those after it. `none` if it starts
before the cursor or would cut a character. -/
def cut? (cursor : Nat) (rest : List Char) (s : Splice) : Option (List Char × List Char) :=
  if s.start < cursor then none
  else do
    let (kept, old) ← cutBytes? (s.start - cursor) rest
    let (_, after) ← cutBytes? (s.stop - s.start) old
    return (kept, after)

/-- Apply splices in order to the rest of a text that begins at the byte
offset `cursor`. Those that do not fit are left out. -/
def applyFrom (cursor : Nat) (rest : List Char) : List Splice → List Char
  | [] => rest
  | s :: more =>
    match cut? cursor rest s with
    | some (kept, after) => kept ++ s.newText ++ applyFrom s.stop after more
    | none => applyFrom cursor rest more

end Splice

/-- The text after splices in any order. -/
def applySplices (text : String) (splices : List Splice) : String :=
  String.ofList (Splice.applyFrom 0 text.toList (splices.mergeSort Splice.atOrBefore))

/-- The text after the edits. -/
def applyEdits (text : String) (edits : List TextEdit) : String :=
  applySplices text (edits.filterMap (Splice.ofEdit? (.ofText text)))

/-- What the program makes of a text and edits, unless it stops. -/
def applyEditsIn? (build : Build) (text : String) (edits : List TextEdit) : Option String := do
  let index ← LineIndex.ofTextIn? text
  let splices ← edits.mapM (Splice.ofEditIn? build index)
  return applySplices text (splices.filterMap id)

/-! ## Edits of several files -/

/-- Edits of several files. -/
structure WorkspaceEdit where
  changes : List (FileId × List TextEdit)
deriving DecidableEq, Repr

namespace WorkspaceEdit

/-- No edits. -/
def empty : WorkspaceEdit := ⟨[]⟩

/-- Add an edit behind the others of its file; a new file comes last. -/
def add (edit : WorkspaceEdit) (file : FileId) (one : TextEdit) : WorkspaceEdit :=
  if edit.changes.any (·.1 == file) then
    ⟨edit.changes.map fun change =>
      if change.1 == file then (change.1, change.2 ++ [one]) else change⟩
  else ⟨edit.changes ++ [(file, [one])]⟩

section
variable {edit : WorkspaceEdit} {file : FileId} {one : TextEdit}

/-- The files that are edited afterwards: where there are edits already, no file is added. -/
theorem files_add (edit : WorkspaceEdit) (file : FileId) (one : TextEdit) :
    (edit.add file one).changes.map Prod.fst =
      if file ∈ edit.changes.map Prod.fst then edit.changes.map Prod.fst
      else edit.changes.map Prod.fst ++ [file] := by
  have hany : edit.changes.any (·.1 == file) = true ↔ file ∈ edit.changes.map Prod.fst := by
    simp only [List.any_eq_true, List.mem_map, beq_iff_eq]
  unfold add
  by_cases hfile : file ∈ edit.changes.map Prod.fst
  · rw [if_pos (hany.2 hfile), if_pos hfile, List.map_map]
    apply List.map_congr_left
    intro change _
    show (if _ then _ else _ : FileId × List TextEdit).1 = change.1
    split <;> rfl
  · rw [if_neg (mt hany.1 hfile), if_neg hfile, List.map_append, List.map_singleton]

theorem mem_files_add {other : FileId} :
    other ∈ (edit.add file one).changes.map Prod.fst ↔
      other ∈ edit.changes.map Prod.fst ∨ other = file := by
  rw [files_add]
  split
  · next hfile =>
    constructor
    · exact Or.inl
    · rintro (hother | rfl)
      · exact hother
      · exact hfile
  · rw [List.mem_append, List.mem_singleton]

/-- The files stay in an order in which the new one comes last. -/
theorem pairwise_files_add {r : FileId → FileId → Prop}
    (h : (edit.changes.map Prod.fst).Pairwise r)
    (hlast : ∀ other ∈ edit.changes.map Prod.fst, other ≠ file → r other file) :
    ((edit.add file one).changes.map Prod.fst).Pairwise r := by
  rw [files_add]
  split
  · exact h
  · next hfile =>
    rw [List.pairwise_append]
    refine ⟨h, List.pairwise_singleton .., ?_⟩
    intro other hother last hmem
    rw [List.mem_singleton.1 hmem]
    refine hlast other hother ?_
    rintro rfl
    exact hfile hother

/-- Only the edits of the file change: the new one comes behind those before it, if there are
any. -/
theorem mem_changes_add {change : FileId × List TextEdit}
    (h : change ∈ (edit.add file one).changes) :
    change ∈ edit.changes ∧ change.1 ≠ file ∨
      ∃ before, change = (file, before ++ [one]) ∧
        ((file, before) ∈ edit.changes ∨ before = [] ∧ file ∉ edit.changes.map Prod.fst) := by
  unfold add at h
  split at h
  · rcases List.mem_map.1 h with ⟨⟨other, before⟩, hbefore, rfl⟩
    split
    · next hfile =>
      cases eq_of_beq hfile
      exact Or.inr ⟨before, rfl, Or.inl hbefore⟩
    · next hfile => exact Or.inl ⟨hbefore, fun heq => hfile (beq_iff_eq.2 heq)⟩
  · next hnone =>
    have hfile : file ∉ edit.changes.map Prod.fst := by
      intro hmem
      rcases List.mem_map.1 hmem with ⟨other, hother, heq⟩
      exact hnone (List.any_eq_true.2 ⟨other, hother, beq_iff_eq.2 heq⟩)
    rcases List.mem_append.1 h with hbefore | hnew
    · refine Or.inl ⟨hbefore, ?_⟩
      rintro rfl
      exact hfile (List.mem_map_of_mem hbefore)
    · exact Or.inr ⟨[], List.mem_singleton.1 hnew, Or.inr ⟨rfl, hfile⟩⟩

end

/-- The number of edits. -/
def size (edit : WorkspaceEdit) : Nat := total (·.2.length) edit.changes

/-- Whether there are no edits. -/
def isEmpty (edit : WorkspaceEdit) : Bool := edit.changes.isEmpty

end WorkspaceEdit

end RakuAtlas.Query
