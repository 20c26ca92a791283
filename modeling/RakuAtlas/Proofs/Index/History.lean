import RakuAtlas.Proofs.Index.Image

/-!
# RakuAtlas.Proofs.Index.History — histories of an index

An index is changed by entering tables, reading files again, dropping files
and starting over. A history is a list of such changes. Beside the index that
it leads to (`run`) stands the map from files to symbols that it leads to
(`contentsOf`), in which every change is a change at one file.

* `image_run`: the index is an image of the map after every history.
* `run_isExact`: the three parts of the index agree, what is found is what the
  files have, and a history shows in no answer beyond the map it leads to.
-/

namespace RakuAtlas.Index

open Lexical (Classifier)

/-- A change of an index. -/
inductive Change where
  | enter (file : FileId) (text : String) (mode : ParseMode) (classifier : Option Classifier)
  | refresh (files : Files) (disk : Disk) (file : FileId)
  | remove (file : FileId)
  | reset

namespace Change

/-- What a change does to the index. -/
def apply (index : Index) : Change → Index
  | enter file text mode classifier => index.enter (Table.parse file text mode classifier)
  | refresh files disk file => index.refresh files disk file
  | remove file => index.removeFile file
  | reset => .empty

/-- What a change does to the symbols of the files. -/
def act (contents : Contents) : Change → Contents
  | enter file text mode classifier =>
    Function.update contents file (indexed (Table.parse file text mode classifier))
  | refresh files disk file => Function.update contents file (reread files disk file)
  | remove file => Function.update contents file []
  | reset => fun _ => []

end Change

/-- The index that a history leads to. -/
def run (history : List Change) : Index := history.foldl Change.apply empty

/-- The symbols of the files that a history leads to. -/
def contentsOf (history : List Change) : Contents := history.foldl Change.act fun _ => []

/-- One change of the index is one change of the map. -/
theorem Image.apply {index : Index} {contents : Contents} (h : Image index contents)
    (change : Change) : Image (change.apply index) (change.act contents) := by
  cases change with
  | enter file text mode classifier => exact h.enter file text mode classifier
  | refresh files disk file => exact h.refresh files disk file
  | remove file => exact h.removeFile file
  | reset => exact image_empty

/-- After every history the index is an image of the map. -/
theorem image_run (history : List Change) : Image (run history) (contentsOf history) := by
  suffices ∀ index contents, Image index contents →
      Image (history.foldl Change.apply index) (history.foldl Change.act contents) from
    this empty (fun _ => []) image_empty
  induction history with
  | nil =>
    intro index contents h
    exact h
  | cons change more ih =>
    intro index contents h
    exact ih _ _ (h.apply change)

/-- Dropping a file and entering what it had again leads back to the same map. -/
theorem contentsOf_remove_enter {history : List Change} {file : FileId} {text : String}
    {mode : ParseMode} {classifier : Option Classifier}
    (h : contentsOf history file = indexed (Table.parse file text mode classifier)) :
    contentsOf (history ++ [.remove file, .enter file text mode classifier]) =
      contentsOf history := by
  have hact : contentsOf (history ++ [.remove file, .enter file text mode classifier]) =
      Function.update (contentsOf history) file
        (indexed (Table.parse file text mode classifier)) := by
    simp only [contentsOf, List.foldl_append, List.foldl_cons, List.foldl_nil, Change.act,
      Function.update_idem]
  rw [hact, ← h]
  exact Function.update_eq_self file _

/-- The index after a history is exact. Under every key it has what the files
have there; no key is empty, a file is there if it has an entry, the entries
are counted, and dropping a file never counts more than there are. Any other
history with the same map gives the same answers, so that dropping a file and
entering the text it had again does not show. -/
theorem run_isExact (history : List Change) :
    (∀ key, ((run history).find key).Perm ((run history).files.flatMap fun file =>
        (contentsOf history file).filter (isUnder key))) ∧
      (run history).files.Nodup ∧
      (∀ file, file ∈ (run history).files ↔ contentsOf history file ≠ []) ∧
      (∀ entry ∈ (run history).byKey, entry.2 ≠ []) ∧
      (∀ file, (run history).containsFile file ↔
        ∃ key, ∃ s ∈ (run history).find key, s.file = file) ∧
      (run history).size = total (·.2.length) (run history).byKey ∧
      (∀ file, (dropKeys file (run history).byKey ((run history).keysOf file)).2 ≤
        (run history).size) ∧
      (∀ other, contentsOf other = contentsOf history → SameAnswers (run other) (run history)) ∧
      ∀ file text mode classifier,
        contentsOf history file = indexed (Table.parse file text mode classifier) →
        SameAnswers (run (history ++ [.remove file, .enter file text mode classifier]))
          (run history) := by
  have himage := image_run history
  have hconsistent := himage.consistent
  refine ⟨himage.find_perm, hconsistent.files_nodup, himage.mem_files,
    hconsistent.wellKeyed.ne_nil, ?_, hconsistent.count_eq, ?_, ?_, ?_⟩
  · intro file
    rw [containsFile, ← mem_files_iff]
    exact hconsistent.mem_files file
  · intro file
    exact hconsistent.dropped_le file _
  · intro other hcontents
    have hother := image_run other
    rw [hcontents] at hother
    exact hother.sameAnswers himage
  · intro file text mode classifier hfile
    have hagain := image_run (history ++ [.remove file, .enter file text mode classifier])
    rw [contentsOf_remove_enter hfile] at hagain
    exact hagain.sameAnswers himage

/-- A class with a method. -/
def classText : String := "class A \x7b\n  method go \x7b \x7d\n\x7d"

/-- Two files with a name in common. -/
def direct : List Change :=
  [.enter ⟨0⟩ classText .navigation none, .enter ⟨1⟩ "sub go { }" .workspaceIndex (some .raku)]

/-- The first file is dropped and comes back behind the second. -/
def returning : List Change := direct ++ [.remove ⟨0⟩, .enter ⟨0⟩ classText .navigation none]

theorem sameAnswers_returning_direct :
    contentsOf direct ⟨0⟩ = indexed (Table.parse ⟨0⟩ classText .navigation none) ∧
      contentsOf returning = contentsOf direct ∧ SameAnswers (run returning) (run direct) := by
  have hfile : contentsOf direct ⟨0⟩ = indexed (Table.parse ⟨0⟩ classText .navigation none) := by
    simp [contentsOf, direct, Change.act]
  have hcontents : contentsOf returning = contentsOf direct := contentsOf_remove_enter hfile
  rcases run_isExact direct with ⟨-, -, -, -, -, -, -, hsame, -⟩
  exact ⟨hfile, hcontents, hsame returning hcontents⟩

end RakuAtlas.Index
