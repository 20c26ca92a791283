import Mathlib.Order.Bounds.Defs
import RakuAtlas.Proofs.Disk.Places
import RakuAtlas.Proofs.Session.Documents
import RakuAtlas.Proofs.Session.Indexing

/-!
# RakuAtlas.Proofs.Workspace.Loading — what an indexed workspace holds

Indexing a workspace enters the tables of the files that the walk finds, in the
order of the walk, and looks between two files whether there are too many
entries already. The files have different numbers (`Files.nodup_numberAll`), so
no table replaces another, and the entries add up (`Fresh.size_foldl`,
`Fresh.find_foldl`).

Hence the number of files that are looked at is the greatest for which the files
before each of them have fewer entries than the limit, and all else is the sum
over these files. Nothing depends on whether files are parsed ahead
(`load_eq_prefix`).
-/

namespace RakuAtlas

/-! ## Numbers of files -/

namespace Files

/-- The number that a path gets is that of a path that is the same. -/
theorem exists_path?_number (files : Files) (path : Path) :
    ∃ known, (files.number path).2.path? (files.number path).1 = some known ∧ known.same path := by
  unfold number
  cases hlookup : files.lookup? path with
  | some file =>
    rcases Option.map_eq_some_iff.1 hlookup with ⟨i, hi, rfl⟩
    rcases List.findIdx?_eq_some_iff_getElem.1 hi with ⟨hlt, hsame, -⟩
    exact ⟨files.paths[i], List.getElem?_eq_getElem hlt, hsame⟩
  | none => exact ⟨path, by simp [path?], beq_self_eq_true _⟩

theorem numberAll_cons (files : Files) (path : Path) (more : List Path) :
    files.numberAll (path :: more) =
      ((files.number path).1 :: ((files.number path).2.numberAll more).1,
        ((files.number path).2.numberAll more).2) := rfl

/-- Each number is that of a path that is the same as one of those numbered. -/
theorem exists_path?_of_mem {files : Files} {paths : List Path} {file : FileId}
    (h : file ∈ (files.numberAll paths).1) :
    ∃ path ∈ paths, ∃ known,
      (files.numberAll paths).2.path? file = some known ∧ known.same path := by
  induction paths generalizing files with
  | nil => cases h
  | cons path more ih =>
    rcases List.mem_cons.1 h with rfl | hmore
    · rcases files.exists_path?_number path with ⟨known, hknown, hsame⟩
      exact ⟨path, List.mem_cons_self, known, (extends_numberAll _ more).path? hknown, hsame⟩
    · rcases ih hmore with ⟨other, hother, known, hknown, hsame⟩
      exact ⟨other, List.mem_cons_of_mem _ hother, known, hknown, hsame⟩

/-- Different paths get different numbers. -/
theorem nodup_numberAll (files : Files) {paths : List Path}
    (h : paths.Pairwise fun p q => ¬p.same q) : (files.numberAll paths).1.Nodup := by
  induction paths generalizing files with
  | nil => exact List.nodup_nil
  | cons path more ih =>
    rcases List.pairwise_cons.1 h with ⟨hpath, hmore⟩
    rw [numberAll_cons]
    refine List.nodup_cons.2 ⟨?_, ih _ hmore⟩
    intro hmem
    -- a number that comes again is that of two paths, so these are the same
    rcases files.exists_path?_number path with ⟨known, hknown, hsame⟩
    rcases exists_path?_of_mem hmem with ⟨other, hother, known', hknown', hsame'⟩
    have hagain := (extends_numberAll _ more).path? hknown
    rw [hagain] at hknown'
    rcases Option.some.inj hknown' with rfl
    have hparts := (eq_of_beq hsame).symm.trans (eq_of_beq hsame')
    exact hpath other hother (beq_iff_eq.2 hparts)

theorem length_numberAll (files : Files) (paths : List Path) :
    (files.numberAll paths).1.length = paths.length := by
  induction paths generalizing files with
  | nil => rfl
  | cons path more ih => exact congrArg (· + 1) (ih _)

end Files

/-! ## Entering tables of new files -/

namespace Index

/-- A file without entries has none to drop. -/
theorem removeFile_of_not_mem {index : Index} {file : FileId} (h : file ∉ index.files) :
    index.removeFile file = index := by
  have hnone : index.keysByFile.lookup file = none := by
    rwa [mem_files_iff, Option.not_isSome_iff_eq_none] at h
  unfold removeFile
  rw [hnone]

theorem count_insertAll_eq (index : Index) (keys : List String) (entries : List IndexEntry) :
    (index.insertAll keys entries).1.count = index.count + entries.length := by
  induction entries generalizing index keys with
  | nil => rfl
  | cons entry more ih =>
    rw [insertAll, ih, List.length_cons]
    show index.count + 1 + more.length = _
    omega

/-- The symbols that a table has under a key. -/
def symbolsFrom (key : String) (t : Table) : List Symbol :=
  ((entriesOf t).filter (·.key == key)).map IndexEntry.symbol

/-- The tables belong to different files, and none has entries yet. -/
structure Fresh (index : Index) (tables : List Table) : Prop where
  consistent : index.Consistent
  inOneFile : ∀ t ∈ tables, t.InOneFile
  not_mem_files : ∀ t ∈ tables, t.file ∉ index.files
  nodup : (tables.map Table.file).Nodup

namespace Fresh

variable {index : Index} {t : Table} {tables : List Table}

/-- The table of a new file only adds to what is found. -/
theorem find_enter (h : index.Fresh (t :: tables)) (key : String) :
    (index.enter t).find key = index.find key ++ symbolsFrom key t := by
  have hfile := h.not_mem_files t List.mem_cons_self
  rw [h.consistent.find_enter, ← h.consistent.find_removeFile, removeFile_of_not_mem hfile]
  rfl

theorem size_enter (h : index.Fresh (t :: tables)) :
    (index.enter t).size = index.size + (entriesOf t).length := by
  have hfile := h.not_mem_files t List.mem_cons_self
  rw [size, count_enter, entered, removeFile_of_not_mem hfile, count_insertAll_eq]
  rfl

/-- The other tables are still those of new files. -/
theorem enter (h : index.Fresh (t :: tables)) : (index.enter t).Fresh tables where
  consistent := h.consistent.enter (h.inOneFile t List.mem_cons_self)
  inOneFile := fun other hother => h.inOneFile other (List.mem_cons_of_mem _ hother)
  not_mem_files := by
    intro other hother hmem
    have hconsistent := h.consistent.enter (h.inOneFile t List.mem_cons_self)
    rcases (hconsistent.mem_files other.file).1 hmem with ⟨key, s, hs, hfile⟩
    rw [h.find_enter] at hs
    rcases List.mem_append.1 hs with hold | hnew
    · have hlisted := (h.consistent.mem_files other.file).2 ⟨key, s, hold, hfile⟩
      exact h.not_mem_files other (List.mem_cons_of_mem _ hother) hlisted
    · -- the new symbols are of the table's own file
      rcases List.mem_map.1 hnew with ⟨entry, hentry, rfl⟩
      have hown := file_of_mem_entriesOf (h.inOneFile t List.mem_cons_self)
        (List.mem_filter.1 hentry).1
      rw [hfile] at hown
      refine (List.nodup_cons.1 h.nodup).1 ?_
      rw [← hown]
      exact List.mem_map_of_mem hother
  nodup := (List.nodup_cons.1 h.nodup).2

/-- Fewer tables are still those of new files. -/
theorem sublist {fewer : List Table} (h : index.Fresh tables) (hfewer : fewer.Sublist tables) :
    index.Fresh fewer where
  consistent := h.consistent
  inOneFile := fun other hother => h.inOneFile other (hfewer.subset hother)
  not_mem_files := fun other hother => h.not_mem_files other (hfewer.subset hother)
  nodup := (hfewer.map Table.file).nodup h.nodup

/-- All tables together add to what is found, in their order. -/
theorem find_foldl (h : index.Fresh tables) (key : String) :
    (tables.foldl Index.enter index).find key =
      index.find key ++ tables.flatMap (symbolsFrom key) := by
  induction tables generalizing index with
  | nil => simp
  | cons t more ih =>
    rw [List.foldl_cons, ih h.enter, h.find_enter, List.flatMap_cons, List.append_assoc]

theorem size_foldl (h : index.Fresh tables) :
    (tables.foldl Index.enter index).size =
      index.size + total (fun t => (entriesOf t).length) tables := by
  induction tables generalizing index with
  | nil => rfl
  | cons t more ih =>
    rw [List.foldl_cons, ih h.enter, h.size_enter, total_cons, Nat.add_assoc]

end Fresh

end Index

/-! ## The limit -/

namespace Load

/-- The number of entries that a file adds; without a text it has none. -/
def share : Option Table → Nat
  | some t => (Index.entriesOf t).length
  | none => 0

/-- The tables of the files that can be read. -/
def readable (tables : List (Option Table)) : List Table := tables.filterMap id

@[simp] theorem readable_nil : readable [] = [] := rfl

@[simp] theorem readable_none (more : List (Option Table)) :
    readable (none :: more) = readable more := rfl

@[simp] theorem readable_some (t : Table) (more : List (Option Table)) :
    readable (some t :: more) = t :: readable more := rfl

/-- The entries of some files are those of their tables. -/
theorem total_share (tables : List (Option Table)) :
    total share tables = total (fun t => (Index.entriesOf t).length) (readable tables) := by
  induction tables with
  | nil => rfl
  | cons table more ih =>
    cases table with
    | none => rw [total_cons, ih, readable_none, share, Nat.zero_add]
    | some t => rw [total_cons, ih, readable_some, total_cons, share]

/-- The tables of different files are those of different files. -/
theorem map_file_readable_sublist {parse : FileId → Option Table}
    (h : ∀ file t, parse file = some t → t.file = file) (files : List FileId) :
    ((readable (files.map parse)).map Table.file).Sublist files := by
  induction files with
  | nil => exact List.Sublist.slnil
  | cons file more ih =>
    rw [List.map_cons]
    cases hparse : parse file with
    | none => exact ih.cons file
    | some t =>
      rw [readable_some, List.map_cons, h file t hparse]
      exact ih.cons_cons file

/-- With `size` entries at the start, the limit lets in the first `k` files: it
is not reached in front of any of them, but it is in front of the next. -/
structure Cut (maxSymbols size : Nat) (tables : List (Option Table)) (k : Nat) : Prop where
  le : k ≤ tables.length
  below : ∀ i < k, size + total share (tables.take i) < maxSymbols
  reached : k < tables.length → maxSymbols ≤ size + total share (tables.take k)

/-- One file more in front, before which the limit is not reached. -/
theorem Cut.cons {maxSymbols size k : Nat} {table : Option Table} {more : List (Option Table)}
    (hsize : size < maxSymbols) (h : Cut maxSymbols (size + share table) more k) :
    Cut maxSymbols size (table :: more) (k + 1) where
  le := Nat.succ_le_succ h.le
  below := by
    intro i hi
    cases i with
    | zero => exact hsize
    | succ i =>
      have hbelow := h.below i (Nat.lt_of_succ_lt_succ hi)
      rw [List.take_succ_cons, total_cons]
      omega
  reached := by
    intro hk
    have hreached := h.reached (Nat.lt_of_succ_lt_succ hk)
    rw [List.take_succ_cons, total_cons]
    omega

/-- The first files that the limit lets in are as many as can be. -/
theorem Cut.isGreatest {maxSymbols k : Nat} {tables : List (Option Table)}
    (h : Cut maxSymbols 0 tables k) :
    IsGreatest {k | k ≤ tables.length ∧ ∀ i < k, total share (tables.take i) < maxSymbols} k := by
  constructor
  · refine ⟨h.le, ?_⟩
    intro i hi
    simpa using h.below i hi
  · rintro j ⟨hj, hbelow⟩
    by_contra hlt
    rw [not_le] at hlt
    have hreached := h.reached (Nat.lt_of_lt_of_le hlt hj)
    have hbefore := hbelow k hlt
    omega

/-- Entering tables of new files enters those that the limit lets in. -/
theorem exists_cut_enterTables {maxSymbols : Nat} {progress : Progress}
    {tables : List (Option Table)} (h : progress.index.Fresh (readable tables))
    (hfull : progress.full = false) :
    ∃ k, Cut maxSymbols progress.index.size tables k ∧
      enterTables maxSymbols progress tables =
        ⟨(readable (tables.take k)).foldl Index.enter progress.index,
          progress.filesIndexed + (readable (tables.take k)).length,
          decide (k < tables.length)⟩ := by
  induction tables generalizing progress with
  | nil =>
    refine ⟨0, ⟨Nat.le_refl _, by simp, by simp⟩, ?_⟩
    rcases progress with ⟨index, filesIndexed, full⟩
    obtain rfl : full = false := hfull
    rfl
  | cons table more ih =>
    unfold enterTables
    split
    · -- the limit is reached in front of this file
      next hlimit =>
      refine ⟨0, ⟨Nat.zero_le _, by simp, fun _ => by simpa using hlimit⟩, ?_⟩
      simp
    · next hlimit =>
      rw [Nat.not_le] at hlimit
      split
      · next t =>
        rw [readable_some] at h
        rcases @ih ⟨progress.index.enter t, progress.filesIndexed + 1, progress.full⟩ h.enter
          hfull with ⟨k, hcut, hresult⟩
        rw [h.size_enter] at hcut
        refine ⟨k + 1, hcut.cons hlimit, ?_⟩
        rw [hresult, List.take_succ_cons, readable_some, List.foldl_cons, List.length_cons]
        simp [Nat.add_assoc, Nat.add_comm 1]
      · rcases ih h hfull with ⟨k, hcut, hresult⟩
        refine ⟨k + 1, Cut.cons hlimit hcut, ?_⟩
        rw [hresult, List.take_succ_cons, readable_none]
        simp

/-- The files that the walk finds, with their numbers in order. -/
def sources (disk : Disk) (config : IndexConfig) (files : Files) (roots : List Path) :
    List FileId × Files :=
  files.numberAll ((disk.walk config roots false).files.map Place.path)

/-- The tables of the files that the walk finds, in its order. -/
def tables (disk : Disk) (config : IndexConfig) (files : Files) (roots : List Path) :
    List (Option Table) :=
  (sources disk config files roots).1.map (tableOf? disk (sources disk config files roots).2)

theorem length_tables (disk : Disk) (config : IndexConfig) (files : Files) (roots : List Path) :
    (tables disk config files roots).length = (disk.walk config roots false).files.length := by
  rw [tables, List.length_map, sources, Files.length_numberAll, List.length_map]

/-- The files of a walk are new to an empty index, and all different. -/
theorem fresh_tables (disk : Disk) (config : IndexConfig) (files : Files) (roots : List Path) :
    Index.empty.Fresh (readable (tables disk config files roots)) := by
  have hparsed : ∀ file t, tableOf? disk (sources disk config files roots).2 file = some t →
      t.file = file ∧ t.InOneFile := by
    intro file t ht
    rcases Option.map_eq_some_iff.1 ht with ⟨text, -, rfl⟩
    constructor
    · exact Table.file_parse file text .workspaceIndex (some .raku)
    · exact Table.inOneFile_parse file text .workspaceIndex (some .raku)
  constructor
  · exact Index.consistent_empty
  · intro t ht
    rcases List.mem_filterMap.1 ht with ⟨table, htable, rfl⟩
    rcases List.mem_map.1 htable with ⟨file, -, hfile⟩
    exact (hparsed file t hfile).2
  · intro t ht hmem
    cases hmem
  · have hnodup := files.nodup_numberAll (disk.pairwise_walk config roots)
    exact (map_file_readable_sublist (fun file t ht => (hparsed file t ht).1) _).nodup hnodup

end Load

/-- Parsing ahead and parsing file by file come to the same. -/
theorem Index.load_parallel (disk : Disk) (config : IndexConfig) (parallel : Bool) (files : Files)
    (roots : List Path) :
    Index.load disk { config with parallel := parallel } files roots false =
      let walk := disk.walk config roots false
      let progress := Load.enterTables config.maxSymbols ⟨.empty, 0, false⟩
        (Load.tables disk config files roots)
      (progress.index,
        ⟨walk.files.length, progress.filesIndexed, progress.index.size,
          if progress.full then some .symbols else if walk.truncated then some .files else none,
          false⟩,
        (Load.sources disk config files roots).2) := by
  have hcancelled : (disk.walk config roots false).cancelled = false :=
    (Walk.nodup_collect List.nodup_nil _).2
  unfold load
  rw [disk.walk_parallel config parallel roots]
  simp only [enterFiles_eq, hcancelled, ite_self]
  rfl

/-- Indexing a workspace enters the tables of the readable files among the first
`k` that the walk finds, where `k` is the greatest number of files for which the
limit is not reached in front of any of them. The report counts these files and
their entries, and it does not matter whether files are parsed ahead. -/
theorem Index.load_eq_prefix (disk : Disk) (config : IndexConfig) (files : Files)
    (roots : List Path) :
    let walk := disk.walk config roots false
    let tables := Load.tables disk config files roots
    ∃ k, IsGreatest
        {k | k ≤ tables.length ∧ ∀ i < k, total Load.share (tables.take i) < config.maxSymbols} k ∧
      let entered := Load.readable (tables.take k)
      let index := entered.foldl Index.enter .empty
      (∀ parallel, Index.load disk { config with parallel := parallel } files roots false =
        (index,
          { filesDiscovered := walk.files.length
            filesIndexed := entered.length
            symbolsIndexed := total Load.share (tables.take k)
            ceiling :=
              if k < walk.files.length then some .symbols
              else if walk.truncated then some .files
              else none
            cancelled := false },
          (Load.sources disk config files roots).2)) ∧
      index.size = total Load.share (tables.take k) ∧
      ∀ key, index.find key = entered.flatMap (Index.symbolsFrom key) := by
  intro walk tables
  have hfresh := Load.fresh_tables disk config files roots
  rcases @Load.exists_cut_enterTables config.maxSymbols ⟨.empty, 0, false⟩ tables hfresh rfl with
    ⟨k, hcut, hprogress⟩
  have hentered : Index.empty.Fresh (Load.readable (tables.take k)) :=
    hfresh.sublist ((List.take_sublist k tables).filterMap id)
  have hsize : ((Load.readable (tables.take k)).foldl Index.enter .empty).size =
      total Load.share (tables.take k) := by
    rw [hentered.size_foldl, Load.total_share]
    exact Nat.zero_add _
  refine ⟨k, hcut.isGreatest, ?_, hsize, hentered.find_foldl⟩
  intro parallel
  have hlength : tables.length = walk.files.length := Load.length_tables disk config files roots
  rw [hlength, Nat.zero_add] at hprogress
  rw [load_parallel, hprogress]
  simp only [hsize, decide_eq_true_eq]
  rfl

end RakuAtlas
