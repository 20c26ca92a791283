import RakuAtlas.Proofs.Index.Consistent
import RakuAtlas.Workspace.Files
import Mathlib.Data.List.Pairwise
import Mathlib.Logic.Function.Basic

/-!
# RakuAtlas.Proofs.Index.Image — what an index stands for

An index stands for a map from files to their indexable symbols, `Contents`.
`Image index contents` says that the index is consistent and that under every
key each file has exactly those of its symbols that belong there, in order.

* Each change of the index is matched by a change of the map at one file
  (`Image.removeFile`, `Image.enter`, `Image.refresh`).
* `Image.find_perm`: what is found under a key is what the files have there.
* `Image.sameAnswers`: the map decides every answer in canonical order. The
  order in which files were entered shows in no answer, because under one key
  no two symbols have the same file and line.
-/

namespace RakuAtlas.Index

open Lexical (Classifier)

/-- The indexable symbols of each file. -/
abbrev Contents := FileId → List Symbol

/-- What a table brings into the index. -/
def indexed (t : Table) : List Symbol :=
  (t.byLine.filter (·.kind.isIndexable)).map fun s => { s with origin := .index }

/-- Whether a symbol belongs under a key: its name, or for a callable inside a
scope also the name with the scope in front. -/
def isUnder (key : String) (s : Symbol) : Bool :=
  s.name == key || (s.kind.isCallable && !s.scope.isEmpty && s.scope ++ "::" ++ s.name == key)

/-! ## The entries of a table -/

/-- A name with its scope in front is longer than the name. -/
theorem qualified_ne (scope name : String) : scope ++ "::" ++ name ≠ name := by
  intro h
  have hlen := congrArg String.length h
  simp only [String.length_append] at hlen
  have htwo : "::".length = 2 := rfl
  omega

/-- A callable inside a scope has two entries, and any other symbol one. -/
theorem entriesOfSymbol_eq {s : Symbol} (hplain : s.kind.isCallable → IsPlainName s.name) :
    entriesOfSymbol s =
      if s.kind.isCallable && !s.scope.isEmpty then
        [⟨s.scope ++ "::" ++ s.name, { s with origin := .index }⟩,
          ⟨s.name, { s with origin := .index }⟩]
      else [⟨s.name, { s with origin := .index }⟩] := by
  unfold entriesOfSymbol Symbol.qualifiedName?
  by_cases hcallable : s.kind.isCallable
  · have hname := (hplain hcallable).not_occursIn
    by_cases hscope : s.scope.isEmpty
    · simp [hcallable, hscope]
    · rw [Bool.not_eq_true] at hscope
      simp only [hcallable, hscope, hname, Bool.or_self, Bool.false_eq_true, if_false, if_true,
        Bool.not_false, Bool.and_self, Option.toList_some, List.map_cons, List.map_nil,
        List.cons_append, List.nil_append]
  · simp [hcallable]

/-- Under a key a symbol has one entry if it belongs there, and none
otherwise. -/
theorem filter_entriesOfSymbol {s : Symbol} (hplain : s.kind.isCallable → IsPlainName s.name)
    (key : String) :
    ((entriesOfSymbol s).filter (·.key == key)).map IndexEntry.symbol =
      [{ s with origin := .index }].filter (isUnder key) := by
  have hne := qualified_ne s.scope s.name
  rw [entriesOfSymbol_eq hplain]
  by_cases hqualified : (s.kind.isCallable && !s.scope.isEmpty) = true
  · simp only [isUnder, hqualified, if_true, Bool.true_and, List.filter_cons, List.filter_nil]
    by_cases hname : (s.name == key) = true
    · -- the two keys differ, so only one entry is found
      have halias : (s.scope ++ "::" ++ s.name == key) = false :=
        beq_false_of_ne fun h => hne (h.trans (eq_of_beq hname).symm)
      simp only [hname, halias, Bool.true_or, if_true, Bool.false_eq_true, if_false, List.map_cons,
        List.map_nil]
    · rw [Bool.not_eq_true] at hname
      simp only [hname, Bool.false_or, Bool.false_eq_true, if_false]
      split <;> rfl
  · rw [Bool.not_eq_true] at hqualified
    simp only [isUnder, hqualified, Bool.false_eq_true, if_false, Bool.false_and, Bool.or_false,
      List.filter_cons, List.filter_nil]
    split <;> rfl

/-- Under a key a table has the symbols that belong there. -/
theorem filter_entriesOf {t : Table}
    (hplain : ∀ s ∈ t.symbols, s.kind.isCallable → IsPlainName s.name) (key : String) :
    ((entriesOf t).filter (·.key == key)).map IndexEntry.symbol =
      (indexed t).filter (isUnder key) := by
  have hall : ∀ s ∈ t.byLine.filter (·.kind.isIndexable), s.kind.isCallable → IsPlainName s.name :=
    fun s hs => hplain s (t.byLine_perm.mem_iff.1 (List.mem_filter.1 hs).1)
  unfold entriesOf indexed
  generalize t.byLine.filter (·.kind.isIndexable) = symbols at hall
  induction symbols with
  | nil => rfl
  | cons s more ih =>
    rw [List.flatMap_cons, List.filter_append, List.map_append, List.map_cons,
      filter_entriesOfSymbol (hall s (List.mem_cons_self ..)),
      ih fun s hs => hall s (List.mem_cons_of_mem _ hs), ← List.filter_append]
    rfl

/-! ## Images -/

/-- The index holds under every key what the files have there, and nothing
else. -/
structure Image (index : Index) (contents : Contents) : Prop where
  consistent : index.Consistent
  find_filter : ∀ file key,
    (index.find key).filter (·.file == file) = (contents file).filter (isUnder key)
  file_eq : ∀ file, ∀ s ∈ contents file, s.file = file
  pairwise_line : ∀ file, (contents file).Pairwise (·.line < ·.line)

theorem image_empty : Image empty fun _ => [] where
  consistent := consistent_empty
  find_filter := by simp [find, empty]
  file_eq := by simp
  pairwise_line := by simp

/-- Dropping a file empties it. -/
theorem Image.removeFile {index : Index} {contents : Contents} (h : Image index contents)
    (file : FileId) : Image (index.removeFile file) (Function.update contents file []) where
  consistent := h.consistent.removeFile file
  find_filter := by
    intro other key
    rw [h.consistent.find_removeFile, List.filter_filter]
    by_cases hother : other = file
    · -- nothing of the file is left
      subst hother
      rw [Function.update_self, List.filter_nil, List.filter_eq_nil_iff]
      intro s _
      simp
    · rw [Function.update_of_ne hother, ← h.find_filter]
      apply List.filter_congr
      intro s _
      by_cases hs : s.file = other
      · simp [hs, hother]
      · simp [hs]
  file_eq := by
    intro other s hs
    by_cases hother : other = file
    · subst hother
      simp at hs
    · rw [Function.update_of_ne hother] at hs
      exact h.file_eq other s hs
  pairwise_line := by
    intro other
    by_cases hother : other = file
    · subst hother
      simp
    · rw [Function.update_of_ne hother]
      exact h.pairwise_line other

/-- What the table of a text brings in is in its file, line by line. -/
theorem file_of_mem_indexed {t : Table} (ht : t.InOneFile) {s : Symbol} (h : s ∈ indexed t) :
    s.file = t.file := by
  rcases List.mem_map.1 h with ⟨s', hs', rfl⟩
  exact ht s' (t.byLine_perm.mem_iff.1 (List.mem_filter.1 hs').1)

/-- Entering the table of a text puts its symbols in place of the file's. -/
theorem Image.enter {index : Index} {contents : Contents} (h : Image index contents)
    (file : FileId) (text : String) (mode : ParseMode) (classifier : Option Classifier) :
    Image (index.enter (Table.parse file text mode classifier))
      (Function.update contents file (indexed (Table.parse file text mode classifier))) := by
  have hone := Table.inOneFile_parse file text mode classifier
  have hfile := Table.file_parse file text mode classifier
  have hunder := @filter_entriesOf (Table.parse file text mode classifier)
    fun _ => Table.isPlainName_of_mem_symbols_parse
  have hlines := Table.pairwise_line_indexable file text mode classifier
  generalize Table.parse file text mode classifier = t at *
  subst hfile
  refine ⟨h.consistent.enter hone, ?_, ?_, ?_⟩
  · intro other key
    rw [h.consistent.find_enter, hunder, List.filter_append, List.filter_filter]
    by_cases hother : other = t.file
    · -- the file itself: the old symbols are gone, and all new ones are its own
      subst hother
      have hold : (index.find key).filter (fun s => s.file == t.file && s.file != t.file) = [] := by
        rw [List.filter_eq_nil_iff]
        intro s _
        simp
      rw [hold, List.nil_append, Function.update_self, List.filter_eq_self]
      intro s hs
      rw [file_of_mem_indexed hone (List.mem_filter.1 hs).1]
      exact beq_self_eq_true _
    · have hnew : ((indexed t).filter (isUnder key)).filter (·.file == other) = [] := by
        rw [List.filter_eq_nil_iff]
        intro s hs
        rw [file_of_mem_indexed hone (List.mem_filter.1 hs).1]
        simpa using fun heq => hother heq.symm
      rw [hnew, List.append_nil, Function.update_of_ne hother, ← h.find_filter]
      apply List.filter_congr
      intro s _
      by_cases hs : s.file = other
      · simp [hs, hother]
      · simp [hs]
  · intro other s hs
    by_cases hother : other = t.file
    · subst hother
      rw [Function.update_self] at hs
      exact file_of_mem_indexed hone hs
    · rw [Function.update_of_ne hother] at hs
      exact h.file_eq other s hs
  · intro other
    by_cases hother : other = t.file
    · subst hother
      rw [Function.update_self, indexed, List.pairwise_map]
      exact hlines
    · rw [Function.update_of_ne hother]
      exact h.pairwise_line other

/-- What reading a file again brings into the index. -/
def reread (files : Files) (disk : Disk) (file : FileId) : List Symbol :=
  match files.text? disk file with
  | some text => indexed (Table.parse file text .workspaceIndex (some .raku))
  | none => []

/-- Reading a file again puts what is read in place of the file's symbols. -/
theorem Image.refresh {index : Index} {contents : Contents} (h : Image index contents)
    (files : Files) (disk : Disk) (file : FileId) :
    Image (index.refresh files disk file)
      (Function.update contents file (reread files disk file)) := by
  unfold Index.refresh reread
  cases files.text? disk file with
  | some text => exact h.enter file text .workspaceIndex (some .raku)
  | none => exact h.removeFile file

/-! ## Files and keys -/

theorem mem_files_iff (index : Index) (file : FileId) :
    file ∈ index.files ↔ (index.keysByFile.lookup file).isSome := by
  rw [List.lookup_isSome_iff, files, List.mem_map]
  constructor
  · rintro ⟨entry, hentry, rfl⟩
    exact ⟨entry, hentry, beq_self_eq_true _⟩
  · rintro ⟨entry, hentry, hfile⟩
    exact ⟨entry, hentry, (eq_of_beq hfile).symm⟩

/-- The files of a consistent index are those with a symbol under some key. -/
theorem Consistent.mem_files {index : Index} (h : index.Consistent) (file : FileId) :
    file ∈ index.files ↔ ∃ key, ∃ s ∈ index.find key, s.file = file := by
  rw [mem_files_iff]
  constructor
  · intro hsome
    rcases Option.isSome_iff_exists.1 hsome with ⟨keys, hkeys⟩
    -- a file is listed with at least one key, and under it there is a symbol
    obtain ⟨entry, hentry, hlookup⟩ : ∃ entry ∈ index.keysByFile, entry.2 = keys := by
      rcases List.lookup_eq_some_iff.1 hkeys with ⟨before, after, happend, -⟩
      exact ⟨(file, keys), by rw [happend]; simp, rfl⟩
    rcases List.exists_mem_of_ne_nil _ (h.keys_ne_nil entry hentry) with ⟨key, hkey⟩
    refine ⟨key, (h.mem_keysOf file key).1 ?_⟩
    rw [keysOf, hkeys, Option.getD_some, ← hlookup]
    exact hkey
  · rintro ⟨key, s, hs, hfile⟩
    have hkey := (h.mem_keysOf file key).2 ⟨s, hs, hfile⟩
    rw [Option.isSome_iff_ne_none]
    intro hnone
    simp [keysOf, hnone] at hkey

/-- The files of an index are those with contents. -/
theorem Image.mem_files {index : Index} {contents : Contents} (h : Image index contents)
    (file : FileId) : file ∈ index.files ↔ contents file ≠ [] := by
  rw [h.consistent.mem_files]
  constructor
  · rintro ⟨key, s, hs, hfile⟩ hnil
    have hmem : s ∈ (index.find key).filter (·.file == file) :=
      List.mem_filter.2 ⟨hs, beq_iff_eq.2 hfile⟩
    rw [h.find_filter, hnil] at hmem
    simp at hmem
  · intro hne
    rcases List.exists_mem_of_ne_nil _ hne with ⟨s, hs⟩
    have hmem : s ∈ (contents file).filter (isUnder s.name) :=
      List.mem_filter.2 ⟨hs, by simp [isUnder]⟩
    rw [← h.find_filter] at hmem
    exact ⟨s.name, s, (List.mem_filter.1 hmem).1, eq_of_beq (List.mem_filter.1 hmem).2⟩

/-- What is found under a key is what the files have there, file by file. -/
theorem Image.find_perm {index : Index} {contents : Contents} (h : Image index contents)
    (key : String) :
    (index.find key).Perm
      (index.files.flatMap fun file => (contents file).filter (isUnder key)) := by
  have hfiles : ∀ s ∈ index.find key, s.file ∈ index.files :=
    fun s hs => (h.consistent.mem_files s.file).2 ⟨key, s, hs, rfl⟩
  have hgroups := Order.perm_flatMap_filter Symbol.file h.consistent.files_nodup hfiles
  rw [List.flatMap_congr fun file _ => h.find_filter file key] at hgroups
  exact hgroups.symm

/-- What is found under a key are the symbols of the files that belong there. -/
theorem Image.mem_find {index : Index} {contents : Contents} (h : Image index contents)
    {key : String} {s : Symbol} : s ∈ index.find key ↔ s ∈ contents s.file ∧ isUnder key s := by
  rw [← List.mem_filter, ← h.find_filter, List.mem_filter]
  simp

/-- Under one key no two symbols have the same file and line. -/
theorem Image.eq_of_file_line {index : Index} {contents : Contents} (h : Image index contents)
    {key : String} {a b : Symbol} (ha : a ∈ index.find key) (hb : b ∈ index.find key)
    (hfile : a.file = b.file) (hline : a.line = b.line) : a = b := by
  have hin : ∀ s ∈ index.find key, s.file = a.file → s ∈ contents a.file :=
    fun s hs hfile => hfile ▸ (h.mem_find.1 hs).1
  -- the lines of one file ascend, so a line is that of one symbol only
  by_contra hne
  have hlines : (contents a.file).Pairwise fun s t => s.line ≠ t.line :=
    (h.pairwise_line a.file).imp Nat.ne_of_lt
  have hsymm : Std.Symm fun s t : Symbol => s.line ≠ t.line := ⟨fun _ _ hst => hst.symm⟩
  exact hlines.forall (hin a ha rfl) (hin b hb hfile.symm) hne hline

/-! ## Answers -/

/-- Two indexes answer alike wherever an answer has one order. -/
structure SameAnswers (a b : Index) : Prop where
  query : ∀ start limit, a.query start limit = b.query start limit
  size : a.size = b.size
  fileCount : a.files.length = b.files.length
  containsFile : ∀ file, a.containsFile file = b.containsFile file
  filesDeclaring : ∀ key, a.filesDeclaring key = b.filesDeclaring key

section
variable {a b : Index} {contents : Contents}

/-- Two images of one map have the same files. -/
theorem Image.files_perm (ha : Image a contents) (hb : Image b contents) :
    a.files.Perm b.files := by
  rw [List.perm_ext_iff_of_nodup ha.consistent.files_nodup hb.consistent.files_nodup]
  intro file
  rw [ha.mem_files, hb.mem_files]

/-- Two images of one map have the same symbols under every key. -/
theorem Image.find_perm_find (ha : Image a contents) (hb : Image b contents) (key : String) :
    (a.find key).Perm (b.find key) :=
  (ha.find_perm key).trans (((ha.files_perm hb).flatMap_right _).trans (hb.find_perm key).symm)

/-- Two images of one map have the same keys. -/
theorem Image.keys_perm (ha : Image a contents) (hb : Image b contents) :
    a.keys.Perm b.keys := by
  rw [keys, keys,
    List.perm_ext_iff_of_nodup ha.consistent.wellKeyed.nodup hb.consistent.wellKeyed.nodup]
  intro key
  rw [mem_keys_iff ha.consistent.wellKeyed, mem_keys_iff hb.consistent.wellKeyed]
  have hperm := ha.find_perm_find hb key
  exact not_congr ⟨fun h => List.nil_perm.1 (h ▸ hperm), fun h => List.perm_nil.1 (h ▸ hperm)⟩

theorem atOrBefore_iff (s t : Symbol) :
    atOrBefore s t ↔ s.file.index < t.file.index ∨ s.file = t.file ∧ s.line ≤ t.line := by
  simp [atOrBefore]

theorem atOrBefore_trans (r s t : Symbol) (hrs : atOrBefore r s) (hst : atOrBefore s t) :
    atOrBefore r t := by
  rw [atOrBefore_iff] at *
  rcases hrs with hrs | ⟨hrs, hle⟩
  · rcases hst with hst | ⟨hst, -⟩
    · exact Or.inl (hrs.trans hst)
    · exact Or.inl (hst ▸ hrs)
  · rcases hst with hst | ⟨hst, hle'⟩
    · exact Or.inl (hrs ▸ hst)
    · exact Or.inr ⟨hrs.trans hst, hle.trans hle'⟩

theorem atOrBefore_total (s t : Symbol) : atOrBefore s t || atOrBefore t s := by
  rw [Bool.or_eq_true, atOrBefore_iff, atOrBefore_iff]
  rcases Nat.lt_trichotomy s.file.index t.file.index with hlt | heq | hlt
  · exact Or.inl (Or.inl hlt)
  · have hfile : s.file = t.file := FileId.ext heq
    rcases Nat.le_total s.line t.line with hle | hle
    · exact Or.inl (Or.inr ⟨hfile, hle⟩)
    · exact Or.inr (Or.inr ⟨hfile.symm, hle⟩)
  · exact Or.inr (Or.inl hlt)

/-- Two images of one map have the same symbols under every key in the order of
file and line. -/
theorem Image.sorted_find_eq (ha : Image a contents) (hb : Image b contents) (key : String) :
    (a.find key).mergeSort atOrBefore = (b.find key).mergeSort atOrBefore := by
  refine Order.mergeSort_eq_of_perm atOrBefore_trans atOrBefore_total ?_ (ha.find_perm_find hb key)
  -- two symbols that come before each other have one file and one line
  intro s t hs ht hst hts
  rw [atOrBefore_iff] at *
  have hfile : s.file = t.file := by
    rcases hst with hst | ⟨hfile, -⟩
    · rcases hts with hts | ⟨hfile, -⟩
      · omega
      · exact hfile.symm
    · exact hfile
  refine ha.eq_of_file_line hs ht hfile ?_
  rw [hfile] at hst hts
  omega

/-- Two images of one map answer alike, whatever led to them. -/
theorem Image.sameAnswers (ha : Image a contents) (hb : Image b contents) : SameAnswers a b where
  query := by
    have hall : ∀ start, a.queryAll start = b.queryAll start := by
      intro start
      -- the keys are the same up to their order, which sorting fixes
      have hkeys : ∀ keep : String → Bool, (a.keys.filter keep).mergeSort (fun x y => x ≤ y) =
          (b.keys.filter keep).mergeSort (fun x y => x ≤ y) := by
        intro keep
        refine Order.mergeSort_eq_of_perm ?_ ?_ ?_ ((ha.keys_perm hb).filter keep)
        · intro x y z hxy hyz
          exact decide_eq_true (String.le_trans (of_decide_eq_true hxy) (of_decide_eq_true hyz))
        · intro x y
          rw [Bool.or_eq_true, decide_eq_true_eq, decide_eq_true_eq]
          exact String.le_total x y
        · intro x y _ _ hxy hyx
          exact String.le_antisymm (of_decide_eq_true hxy) (of_decide_eq_true hyx)
      simp only [queryAll, hkeys]
      exact List.flatMap_congr fun key _ => ha.sorted_find_eq hb key
    intro start limit
    cases limit with
    | none => exact hall start
    | some n => exact congrArg (List.take n) (hall start)
  size := by
    rw [size, size, ha.consistent.count_eq, hb.consistent.count_eq,
      sizeOf_eq_total ha.consistent.wellKeyed, sizeOf_eq_total hb.consistent.wellKeyed]
    -- the entries are counted key by key
    have hlength : ∀ key, (symbolsUnder a.byKey key).length = (symbolsUnder b.byKey key).length :=
      fun key => (ha.find_perm_find hb key).length_eq
    simp only [hlength]
    exact total_perm _ (ha.keys_perm hb)
  fileCount := (ha.files_perm hb).length_eq
  containsFile := by
    intro file
    rw [Bool.eq_iff_iff, containsFile, containsFile, ← mem_files_iff, ← mem_files_iff]
    exact (ha.files_perm hb).mem_iff
  filesDeclaring := by
    intro key
    refine Order.mergeSort_eq_of_perm ?_ ?_ ?_
      (Order.perm_eraseDups ((ha.find_perm_find hb key).map Symbol.file))
    · intro x y z hxy hyz
      simp only [decide_eq_true_eq] at *
      omega
    · intro x y
      simp only [Bool.or_eq_true, decide_eq_true_eq]
      omega
    · intro x y _ _ hxy hyx
      simp only [decide_eq_true_eq] at *
      exact FileId.ext (by omega)

end

end RakuAtlas.Index
