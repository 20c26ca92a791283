import RakuAtlas.Proofs.Index.Keys
import RakuAtlas.Proofs.Tables

/-!
# RakuAtlas.Proofs.Index.Consistent — the parts of an index agree

An index keeps the same entries three times: under their keys, as the keys of
each file, and as a number. `Consistent` says that the three agree. It is kept
by `removeFile` and `enter`, and under it each of the two has a simple effect
on what is found (`find_removeFile`, `find_enter`): a key that is missing from
those of its file would leave entries behind that are never dropped.
-/

namespace RakuAtlas.Index

/-- The keys under which a file has entries. -/
def keysOf (index : Index) (file : FileId) : List String :=
  (index.keysByFile.lookup file).getD []

/-- The three parts of an index agree. -/
structure Consistent (index : Index) : Prop where
  wellKeyed : WellKeyed index.byKey
  files_nodup : index.files.Nodup
  keys_ne_nil : ∀ entry ∈ index.keysByFile, entry.2 ≠ []
  /-- The keys of a file are those under which it has a symbol. -/
  mem_keysOf : ∀ file key, key ∈ index.keysOf file ↔ ∃ s ∈ index.find key, s.file = file
  count_eq : index.count = sizeOf index.byKey

theorem consistent_empty : Consistent empty where
  wellKeyed := ⟨List.nodup_nil, by simp [empty]⟩
  files_nodup := List.nodup_nil
  keys_ne_nil := by simp [empty]
  mem_keysOf := by simp [empty, keysOf, find]
  count_eq := rfl

/-- A file other than the one dropped keeps its keys. -/
theorem lookup_filter_ne {α : Type} (file other : FileId) (entries : List (FileId × α)) :
    (entries.filter (·.1 != file)).lookup other =
      if other = file then none else entries.lookup other := by
  induction entries with
  | nil => simp
  | cons entry more ih =>
    rcases entry with ⟨f, keys⟩
    rw [List.filter_cons, List.lookup_cons]
    by_cases hf : f = file
    · simp only [hf, bne_self_eq_false, Bool.false_eq_true, if_false, ih]
      by_cases hother : other = file
      · simp [hother]
      · simp [hother, beq_false_of_ne hother]
    · simp only [bne_iff_ne.2 hf, if_true, List.lookup_cons, ih]
      by_cases hother : other = f
      · simp [hother, hf]
      · simp [beq_false_of_ne hother]

/-! ## Dropping a file -/

/-- A key that is not one of the file's has none of its symbols. -/
theorem Consistent.filter_of_not_mem {index : Index} (h : index.Consistent) {file : FileId}
    {key : String} (hkey : key ∉ index.keysOf file) :
    (index.find key).filter (·.file != file) = index.find key := by
  rw [List.filter_eq_self]
  intro s hs
  rw [bne_iff_ne]
  intro hfile
  exact hkey ((h.mem_keysOf file key).2 ⟨s, hs, hfile⟩)

/-- Dropping a file drops its symbols under every key, and no others. -/
theorem Consistent.find_removeFile {index : Index} (h : index.Consistent) (file : FileId)
    (key : String) :
    (index.removeFile file).find key = (index.find key).filter (·.file != file) := by
  unfold removeFile
  split
  · next hnone => exact (h.filter_of_not_mem (by simp [keysOf, hnone])).symm
  · next keys hsome =>
    have hkeys : index.keysOf file = keys := by simp [keysOf, hsome]
    show symbolsUnder (dropKeys file index.byKey keys).1 key = _
    rw [symbolsUnder_dropKeys h.wellKeyed]
    split
    · rfl
    · next hkey => exact (h.filter_of_not_mem (hkeys ▸ hkey)).symm

theorem keysOf_removeFile (index : Index) (file other : FileId) :
    (index.removeFile file).keysOf other = if other = file then [] else index.keysOf other := by
  unfold removeFile
  split
  · next hnone =>
    by_cases hother : other = file
    · simp [keysOf, hother, hnone]
    · simp [hother]
  · simp only [keysOf, lookup_filter_ne]
    by_cases hother : other = file <;> simp [hother]

/-- The symbols counted as dropped are some of those counted. -/
theorem Consistent.dropped_le {index : Index} (h : index.Consistent) (file : FileId)
    (keys : List String) : (dropKeys file index.byKey keys).2 ≤ index.size := by
  have hsize := sizeOf_dropKeys file index.byKey keys
  rw [size, h.count_eq]
  omega

/-- Dropping a file keeps the parts of the index in agreement. -/
theorem Consistent.removeFile {index : Index} (h : index.Consistent) (file : FileId) :
    (index.removeFile file).Consistent where
  wellKeyed := by
    unfold Index.removeFile
    split
    · exact h.wellKeyed
    · exact h.wellKeyed.dropKeys file _
  files_nodup := by
    unfold Index.removeFile
    split
    · exact h.files_nodup
    · exact (List.filter_sublist.map Prod.fst).nodup h.files_nodup
  keys_ne_nil := by
    unfold Index.removeFile
    split
    · exact h.keys_ne_nil
    · intro entry hentry
      exact h.keys_ne_nil entry (List.mem_filter.1 hentry).1
  mem_keysOf := by
    intro other key
    rw [keysOf_removeFile, h.find_removeFile]
    by_cases hother : other = file
    · simp [hother]
    · -- a symbol of another file stays where it was
      rw [if_neg hother, h.mem_keysOf]
      constructor
      · rintro ⟨s, hs, hfile⟩
        refine ⟨s, List.mem_filter.2 ⟨hs, ?_⟩, hfile⟩
        rw [bne_iff_ne, hfile]
        exact hother
      · rintro ⟨s, hs, hfile⟩
        exact ⟨s, (List.mem_filter.1 hs).1, hfile⟩
  count_eq := by
    unfold Index.removeFile
    split
    · exact h.count_eq
    · next keys _ =>
      -- what is dropped is counted, so the difference is the size of the rest
      have hsize := sizeOf_dropKeys file index.byKey keys
      have hcount := h.count_eq
      show index.count - (dropKeys file index.byKey keys).2 =
        sizeOf (dropKeys file index.byKey keys).1
      omega

/-! ## Adding entries -/

/-- Entries are added under their keys in order. -/
theorem find_insertAll (index : Index) (keys : List String) (entries : List IndexEntry)
    (key : String) :
    (index.insertAll keys entries).1.find key =
      index.find key ++ (entries.filter (·.key == key)).map IndexEntry.symbol := by
  induction entries generalizing index keys with
  | nil => simp [insertAll]
  | cons entry more ih =>
    rw [insertAll, ih]
    show symbolsUnder (pushUnder entry.key entry.symbol index.byKey) key ++ _ = _
    rw [symbolsUnder_pushUnder, List.append_assoc, List.filter_cons]
    by_cases hkey : key = entry.key
    · simp [hkey, find]
    · have hne : (entry.key == key) = false := beq_false_of_ne fun h => hkey h.symm
      simp [hkey, hne, find]

theorem WellKeyed.insertAll {index : Index} (h : WellKeyed index.byKey) (keys : List String)
    (entries : List IndexEntry) : WellKeyed (index.insertAll keys entries).1.byKey := by
  induction entries generalizing index keys with
  | nil => exact h
  | cons entry more ih =>
    rw [Index.insertAll]
    exact ih (h.pushUnder entry.key entry.symbol) _

theorem keysByFile_insertAll (index : Index) (keys : List String) (entries : List IndexEntry) :
    (index.insertAll keys entries).1.keysByFile = index.keysByFile := by
  induction entries generalizing index keys with
  | nil => rfl
  | cons entry more ih => rw [insertAll, ih, insert]

theorem count_insertAll {index : Index} (h : index.count = sizeOf index.byKey)
    (keys : List String) (entries : List IndexEntry) :
    (index.insertAll keys entries).1.count = sizeOf (index.insertAll keys entries).1.byKey := by
  induction entries generalizing index keys with
  | nil => exact h
  | cons entry more ih =>
    rw [insertAll]
    apply ih
    show index.count + 1 = sizeOf (pushUnder entry.key entry.symbol index.byKey)
    rw [sizeOf_pushUnder, h]

/-- The keys that are noted are those of the entries. -/
theorem mem_keys_insertAll (index : Index) (keys : List String) (entries : List IndexEntry)
    (key : String) :
    key ∈ (index.insertAll keys entries).2 ↔ key ∈ keys ∨ ∃ entry ∈ entries, entry.key = key := by
  induction entries generalizing index keys with
  | nil => simp [insertAll]
  | cons entry more ih =>
    rw [insertAll, ih]
    have hhere : key ∈ (index.insert keys entry).2 ↔ key ∈ keys ∨ entry.key = key := by
      unfold insert
      split
      · next hmem =>
        constructor
        · exact Or.inl
        · rintro (h | rfl)
          · exact h
          · exact List.contains_iff_mem.1 hmem
      · rw [List.mem_append, List.mem_singleton, eq_comm]
    rw [hhere, or_assoc, List.exists_mem_cons_iff]

/-! ## Entering a table -/

/-- The entries of a table are symbols of its file. -/
theorem file_of_mem_entriesOf {t : Table} (ht : t.InOneFile) {entry : IndexEntry}
    (h : entry ∈ entriesOf t) : entry.symbol.file = t.file := by
  rcases List.mem_flatMap.1 h with ⟨s, hs, hentry⟩
  have hsymbol : s ∈ t.symbols := t.byLine_perm.mem_iff.1 (List.mem_filter.1 hs).1
  rw [← ht s hsymbol]
  rcases List.mem_append.1 hentry with hqualified | hname
  · rcases List.mem_map.1 hqualified with ⟨key, -, rfl⟩
    rfl
  · rcases List.mem_singleton.1 hname with rfl
    rfl

/-- The index and the keys after the entries of a table were added in place of
those that its file had. -/
def entered (index : Index) (t : Table) : Index × List String :=
  (index.removeFile t.file).insertAll [] (entriesOf t)

theorem enter_eq (index : Index) (t : Table) :
    index.enter t = if (index.entered t).2.isEmpty then (index.entered t).1
      else { (index.entered t).1 with
        keysByFile := (t.file, (index.entered t).2) ::
          (index.removeFile t.file).keysByFile.filter (·.1 != t.file) } := by
  rw [← keysByFile_insertAll (index.removeFile t.file) [] (entriesOf t)]
  rfl

theorem byKey_enter (index : Index) (t : Table) :
    (index.enter t).byKey = (index.entered t).1.byKey := by
  rw [enter_eq]
  split <;> rfl

theorem count_enter (index : Index) (t : Table) :
    (index.enter t).count = (index.entered t).1.count := by
  rw [enter_eq]
  split <;> rfl

/-- Entering a table replaces the symbols of its file under every key. -/
theorem Consistent.find_enter {index : Index} (h : index.Consistent) (t : Table) (key : String) :
    (index.enter t).find key = (index.find key).filter (·.file != t.file) ++
      ((entriesOf t).filter (·.key == key)).map IndexEntry.symbol := by
  rw [← h.find_removeFile, ← find_insertAll _ [], find, byKey_enter]
  rfl

/-- The keys of the table's file are those of its entries. -/
theorem keysOf_enter (index : Index) (t : Table) (file : FileId) :
    (index.enter t).keysOf file =
      if file = t.file then (index.entered t).2 else index.keysOf file := by
  have hremoved := keysOf_removeFile index t.file file
  rw [enter_eq]
  split
  · next hempty =>
    rw [List.isEmpty_iff] at hempty
    rw [keysOf, entered, keysByFile_insertAll, ← keysOf, hremoved, ← entered, hempty]
  · rw [keysOf, List.lookup_cons]
    by_cases hfile : file = t.file
    · simp [hfile]
    · rw [beq_false_of_ne hfile, if_neg hfile, lookup_filter_ne, if_neg hfile, ← keysOf, hremoved,
        if_neg hfile]

/-- Entering a table keeps the parts of the index in agreement. -/
theorem Consistent.enter {index : Index} (h : index.Consistent) {t : Table} (ht : t.InOneFile) :
    (index.enter t).Consistent where
  wellKeyed := by
    rw [byKey_enter]
    exact (h.removeFile t.file).wellKeyed.insertAll [] (entriesOf t)
  files_nodup := by
    rw [enter_eq]
    split
    · rw [files, entered, keysByFile_insertAll]
      exact (h.removeFile t.file).files_nodup
    · rw [files, List.map_cons, List.nodup_cons]
      -- the file is taken out before it is put in front
      refine ⟨?_, (List.filter_sublist.map Prod.fst).nodup (h.removeFile t.file).files_nodup⟩
      intro hmem
      rcases List.mem_map.1 hmem with ⟨entry, hentry, hfile⟩
      have hne := (List.mem_filter.1 hentry).2
      rw [bne_iff_ne] at hne
      exact hne hfile
  keys_ne_nil := by
    rw [enter_eq]
    split
    · rw [entered, keysByFile_insertAll]
      exact (h.removeFile t.file).keys_ne_nil
    · next hkeys =>
      intro entry hentry
      rcases List.mem_cons.1 hentry with rfl | hentry
      · exact fun hnil => hkeys (List.isEmpty_iff.2 hnil)
      · exact (h.removeFile t.file).keys_ne_nil entry (List.mem_filter.1 hentry).1
  mem_keysOf := by
    intro file key
    rw [keysOf_enter, h.find_enter]
    by_cases hfile : file = t.file
    · -- the file of the table: old symbols are gone, new ones are all its own
      rw [if_pos hfile, entered, mem_keys_insertAll]
      constructor
      · rintro (hnil | ⟨entry, hentry, rfl⟩)
        · simp at hnil
        · refine ⟨entry.symbol, List.mem_append_right _ (List.mem_map_of_mem ?_), ?_⟩
          · exact List.mem_filter.2 ⟨hentry, by simp⟩
          · rw [file_of_mem_entriesOf ht hentry, hfile]
      · rintro ⟨s, hs, hsfile⟩
        rcases List.mem_append.1 hs with hold | hnew
        · have hne := (List.mem_filter.1 hold).2
          rw [bne_iff_ne] at hne
          exact absurd (hsfile.trans hfile) hne
        · rcases List.mem_map.1 hnew with ⟨entry, hentry, -⟩
          rcases List.mem_filter.1 hentry with ⟨hentry, hkey⟩
          exact Or.inr ⟨entry, hentry, eq_of_beq hkey⟩
    · -- another file: nothing changes
      rw [if_neg hfile, h.mem_keysOf]
      constructor
      · rintro ⟨s, hs, hsfile⟩
        refine ⟨s, List.mem_append_left _ (List.mem_filter.2 ⟨hs, ?_⟩), hsfile⟩
        rw [bne_iff_ne, hsfile]
        exact hfile
      · rintro ⟨s, hs, hsfile⟩
        rcases List.mem_append.1 hs with hold | hnew
        · exact ⟨s, (List.mem_filter.1 hold).1, hsfile⟩
        · rcases List.mem_map.1 hnew with ⟨entry, hentry, rfl⟩
          have := file_of_mem_entriesOf ht (List.mem_filter.1 hentry).1
          exact absurd (hsfile.symm.trans this) hfile
  count_eq := by
    rw [count_enter, byKey_enter]
    exact count_insertAll (h.removeFile t.file).count_eq [] (entriesOf t)

end RakuAtlas.Index
