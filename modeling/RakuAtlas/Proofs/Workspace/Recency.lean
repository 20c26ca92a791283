import Mathlib.Data.List.Induction
import Mathlib.Logic.Function.Iterate
import RakuAtlas.Workspace.Cache

/-!
# RakuAtlas.Proofs.Workspace.Recency — what the cache holds

A cache is changed by inserting, getting and removing tables and by dropping them all. A history is
a list of such operations, and `run` the cache that it leads to.

* `Counted` is the invariant: the number of symbols is that of the tables held, each of which is
  under its own file and no file twice. Every change of a field keeps it, in the middle of an
  insertion too, and so no subtraction takes away more than there is (`Counted.covers`).
* `Counted.evict_retains`: eviction leaves the longest front within the budget, or one table.
* `pairwise_idle_run`: the tables are in the order in which their files were inserted or got last.
* `run_keeps_recent`: what any history leaves in the cache, and what one more insertion does.
-/

namespace RakuAtlas.Cache

/-! ## Entries -/

section
variable {cache : Cache} {file : FileId} {table : Table} {entry : FileId × Table}

theorem mem_others : entry ∈ cache.others file ↔ entry ∈ cache.entries ∧ entry.1 ≠ file := by
  rw [others, List.mem_filter, bne_iff_ne]

theorem others_sublist (cache : Cache) (file : FileId) :
    (cache.others file).Sublist cache.entries :=
  List.filter_sublist

/-- Without a table of the file, the others are all. -/
theorem others_of_lookup_eq_none (h : cache.entries.lookup file = none) :
    cache.others file = cache.entries := by
  rw [others, List.filter_eq_self]
  intro entry hentry
  exact bne_iff_ne.2 (bne_iff_ne.1 (List.lookup_eq_none_iff.1 h entry hentry)).symm

theorem mem_of_lookup (h : cache.entries.lookup file = some table) :
    (file, table) ∈ cache.entries := by
  obtain ⟨before, after, happend, -⟩ := List.lookup_eq_some_iff.1 h
  rw [happend]
  exact List.mem_append_right _ (List.mem_cons_self ..)

/-- Where no file is twice, the entries are that of the file and the others. -/
theorem perm_of_lookup (hnodup : (cache.entries.map Prod.fst).Nodup)
    (h : cache.entries.lookup file = some table) :
    cache.entries.Perm ((file, table) :: cache.others file) := by
  obtain ⟨before, after, happend, hbefore⟩ := List.lookup_eq_some_iff.1 h
  rw [happend, List.map_append, List.map_cons, List.nodup_append, List.nodup_cons] at hnodup
  obtain ⟨-, ⟨hafter, -⟩, -⟩ := hnodup
  have hfront : before.filter (·.1 != file) = before := by
    rw [List.filter_eq_self]
    intro entry hentry
    exact bne_iff_ne.2 (bne_iff_ne.1 (hbefore entry hentry)).symm
  have hback : after.filter (·.1 != file) = after := by
    rw [List.filter_eq_self]
    intro entry hentry
    exact bne_iff_ne.2 fun heq => hafter (List.mem_map.2 ⟨entry, hentry, heq⟩)
  have hothers : cache.others file = before ++ after := by
    rw [others, happend, List.filter_append, hfront, List.filter_cons_of_neg (by simp), hback]
  rw [hothers, happend]
  exact List.perm_middle

/-! ## Operations bring in nothing else -/

theorem mem_of_mem_remove (h : entry ∈ (cache.remove file).entries) :
    entry ∈ cache.entries ∧ entry.1 ≠ file := by
  unfold remove at h
  split at h
  · exact mem_others.1 h
  · next hnone =>
    rw [← others_of_lookup_eq_none hnone] at h
    exact mem_others.1 h

/-- A table that is found is held under the file. -/
theorem mem_of_get? {cache' : Cache} (h : cache.get? file = (some table, cache')) :
    (file, table) ∈ cache.entries := by
  unfold get? at h
  split at h
  · next hfound =>
    cases h
    exact mem_of_lookup hfound
  · cases h

/-- Looking up a table brings no other in. -/
theorem mem_of_mem_get? (h : entry ∈ (cache.get? file).2.entries) : entry ∈ cache.entries := by
  unfold get? at h
  split at h
  · next hfound =>
    obtain rfl | hmem := List.mem_cons.1 h
    · exact mem_of_lookup hfound
    · exact (mem_others.1 hmem).1
  · exact h

/-- What is dropping the oldest tables keeps, eviction keeps. -/
theorem evict_induction {P : Cache → Prop} (hdrop : ∀ cache, P cache → P cache.dropOldest)
    (h : P cache) : P cache.evict := by
  fun_induction evict cache with
  | case1 cache _ ih => exact ih (hdrop cache h)
  | case2 cache _ => exact h

/-- Eviction only drops tables. -/
theorem evict_sublist (cache : Cache) : cache.evict.entries.Sublist cache.entries := by
  refine evict_induction (P := fun left => left.entries.Sublist cache.entries) ?_
    (List.Sublist.refl _)
  intro left h
  rw [entries_dropOldest]
  exact (List.dropLast_sublist _).trans h

/-- After an insertion there are the new table and some of the old. -/
theorem mem_of_mem_insert (h : entry ∈ (cache.insert table).entries) :
    entry = (table.file, table) ∨ entry ∈ cache.entries := by
  obtain heq | hmem := List.mem_cons.1 ((evict_sublist _).subset h)
  · exact Or.inl heq
  · exact Or.inr (mem_others.1 hmem).1

end

/-! ## The number of symbols -/

/-- The number of symbols in the tables of some entries. -/
def symbolsIn (entries : List (FileId × Table)) : Nat := total (·.2.size) entries

/-- The symbols of the tables held are counted, and each table is held once, under its own file. -/
structure Counted (cache : Cache) : Prop where
  symbols_eq : cache.symbols = symbolsIn cache.entries
  file_eq : ∀ entry ∈ cache.entries, entry.2.file = entry.1
  nodup : (cache.entries.map Prod.fst).Nodup

/-- No table held has more symbols than there are by the count, so that the count stays exact
whichever of them is dropped. -/
def Covers (cache : Cache) : Prop := ∀ entry ∈ cache.entries, entry.2.size ≤ cache.symbols

theorem counted_empty (budget : Nat) : (empty budget).Counted where
  symbols_eq := rfl
  file_eq := by simp [empty]
  nodup := by simp [empty]

section
variable {cache : Cache} {file : FileId} {table : Table}

theorem Counted.covers (h : cache.Counted) : cache.Covers := by
  intro entry hentry
  rw [h.symbols_eq]
  exact le_total_of_mem (fun held : FileId × Table => held.2.size) hentry

/-- The order of the entries does not matter for the count. -/
theorem Counted.of_perm {cache' : Cache} (h : cache.Counted)
    (hperm : cache.entries.Perm cache'.entries) (hsymbols : cache'.symbols = cache.symbols) :
    cache'.Counted where
  symbols_eq := by rw [hsymbols, h.symbols_eq, symbolsIn, symbolsIn, total_perm _ hperm]
  file_eq := fun entry hentry => h.file_eq entry (hperm.mem_iff.2 hentry)
  nodup := (hperm.map Prod.fst).nodup_iff.1 h.nodup

/-- Some of the entries with the symbols in them. -/
theorem Counted.of_sublist {cache' : Cache} (h : cache.Counted)
    (hsub : cache'.entries.Sublist cache.entries)
    (hsymbols : cache'.symbols = symbolsIn cache'.entries) : cache'.Counted where
  symbols_eq := hsymbols
  file_eq := fun entry hentry => h.file_eq entry (hsub.subset hentry)
  nodup := h.nodup.sublist (hsub.map Prod.fst)

/-- The table of a file and those of the others make up the count. -/
theorem Counted.symbolsIn_others (h : cache.Counted)
    (hlookup : cache.entries.lookup file = some table) :
    cache.symbols = table.size + symbolsIn (cache.others file) := by
  rw [h.symbols_eq, symbolsIn, total_perm _ (perm_of_lookup h.nodup hlookup)]
  rfl

theorem Counted.get? (h : cache.Counted) (file : FileId) : (cache.get? file).2.Counted := by
  unfold Cache.get?
  split
  · next hlookup => exact h.of_perm (perm_of_lookup h.nodup hlookup) rfl
  · exact h

theorem Counted.remove (h : cache.Counted) (file : FileId) : (cache.remove file).Counted := by
  unfold Cache.remove
  split
  · next old hlookup =>
    refine h.of_sublist (others_sublist cache file) ?_
    have hsymbols := h.symbolsIn_others hlookup
    show cache.symbols - old.size = symbolsIn (cache.others file)
    omega
  · exact h

theorem Counted.put (h : cache.Counted) (table : Table) : (cache.put table).Counted where
  symbols_eq := by
    show _ = table.size + symbolsIn (cache.others table.file)
    unfold Cache.put
    cases hlookup : cache.entries.lookup table.file with
    | some old =>
      have hsymbols := h.symbolsIn_others hlookup
      simp only
      omega
    | none =>
      rw [others_of_lookup_eq_none hlookup, ← h.symbols_eq]
      exact Nat.add_comm ..
  file_eq := by
    intro entry hentry
    obtain rfl | hmem := List.mem_cons.1 hentry
    · rfl
    · exact h.file_eq entry (mem_others.1 hmem).1
  nodup := by
    show (table.file :: (cache.others table.file).map Prod.fst).Nodup
    refine List.nodup_cons.2 ⟨?_, h.nodup.sublist ((others_sublist ..).map Prod.fst)⟩
    intro hmem
    obtain ⟨entry, hentry, heq⟩ := List.mem_map.1 hmem
    exact (mem_others.1 hentry).2 heq

theorem Counted.dropOldest (h : cache.Counted) : cache.dropOldest.Counted := by
  refine h.of_sublist (by rw [entries_dropOldest]; exact List.dropLast_sublist _) ?_
  have hsymbols := h.symbols_eq
  rw [entries_dropOldest]
  unfold Cache.dropOldest
  split
  · next file oldest hlast =>
    obtain ⟨front, happend⟩ := List.getLast?_eq_some_iff.1 hlast
    simp only [happend, symbolsIn, total_append, total_cons, total_nil] at hsymbols
    simp only [happend, List.dropLast_concat, symbolsIn]
    omega
  · next hnone =>
    rw [List.getLast?_eq_none_iff.1 hnone] at hsymbols ⊢
    exact hsymbols

/-- However many tables an eviction has dropped, the rest is counted. -/
theorem Counted.dropOldest_iterate (h : cache.Counted) (n : Nat) :
    (Cache.dropOldest^[n] cache).Counted := by
  induction n generalizing cache with
  | zero => exact h
  | succ n ih => exact ih h.dropOldest

theorem Counted.insert (h : cache.Counted) (table : Table) : (cache.insert table).Counted :=
  evict_induction (fun _ => Counted.dropOldest) (h.put table)

end

/-! ## Eviction -/

/-- Of the fronts of a list with no more symbols than the budget, the longest. -/
def IsLongestFront (budget : Nat) (order kept : List (FileId × Table)) : Prop :=
  kept <+: order ∧ symbolsIn kept ≤ budget ∧
    ∀ front, front <+: order → symbolsIn front ≤ budget → front <+: kept

/-- What is kept of a new table and others, which are in the order of their use: the longest front
within the budget, or the new table alone if it has more symbols by itself. -/
def IsKept (budget : Nat) (table : Table) (others kept : List (FileId × Table)) : Prop :=
  if table.size ≤ budget then IsLongestFront budget ((table.file, table) :: others) kept
  else kept = [(table.file, table)]

@[simp] theorem budget_dropOldest (cache : Cache) : cache.dropOldest.budget = cache.budget := by
  unfold dropOldest
  split <;> rfl

@[simp] theorem budget_insert (cache : Cache) (table : Table) :
    (cache.insert table).budget = cache.budget :=
  evict_induction (P := fun left => left.budget = cache.budget)
    (fun left h => (budget_dropOldest left).trans h) rfl

section
variable {cache : Cache}

/-- Eviction leaves a front that is within the budget or a single table, and that every front
within the budget is part of. -/
theorem Counted.evict_retains (h : cache.Counted) :
    cache.evict.entries <+: cache.entries ∧
      (cache.evict.symbols ≤ cache.budget ∨ cache.evict.entries.length ≤ 1) ∧
      (cache.entries ≠ [] → cache.evict.entries ≠ []) ∧
      ∀ front, front <+: cache.entries → symbolsIn front ≤ cache.budget →
        front <+: cache.evict.entries := by
  fun_induction evict cache with
  | case1 cache hover ih =>
    obtain ⟨hfront, hwithin, hne, hlongest⟩ := ih h.dropOldest
    rw [entries_dropOldest] at hfront hne hlongest
    rw [budget_dropOldest] at hwithin hlongest
    refine ⟨hfront.trans (List.dropLast_prefix _), hwithin, fun _ => hne ?_, ?_⟩
    · intro hnil
      have hlength := congrArg List.length hnil
      rw [List.length_dropLast, List.length_nil] at hlength
      omega
    · -- all the entries are too many, so a front within the budget lacks the oldest
      intro front hheld hle
      refine hlongest front ?_ hle
      have hlength : front.length ≠ cache.entries.length := by
        intro heq
        rw [hheld.eq_of_length heq, ← h.symbols_eq] at hle
        omega
      have hlt := Nat.lt_of_le_of_ne hheld.length_le hlength
      refine List.prefix_of_prefix_length_le hheld (List.dropLast_prefix _) ?_
      rw [List.length_dropLast]
      omega
  | case2 cache hwithin =>
    exact ⟨List.prefix_refl _, by omega, id, fun front hheld _ => hheld⟩

/-- After an insertion the new table is held, with as many of the others as the budget allows. -/
theorem Counted.insert_retains (h : cache.Counted) (table : Table) :
    ((cache.insert table).symbols ≤ cache.budget ∨ (cache.insert table).entries.length ≤ 1) ∧
      IsKept cache.budget table (cache.others table.file) (cache.insert table).entries := by
  have hcounted := h.insert table
  obtain ⟨hfront, hwithin, hne, hlongest⟩ := (h.put table).evict_retains
  refine ⟨hwithin, ?_⟩
  -- what is kept is not empty, so the new table is in front
  obtain ⟨kept, hkept⟩ : ∃ kept, (cache.insert table).entries = (table.file, table) :: kept := by
    obtain ⟨newest, kept, hkept⟩ := List.exists_cons_of_ne_nil (hne (List.cons_ne_nil _ _))
    rw [hkept] at hfront
    obtain ⟨rfl, -⟩ := List.cons_prefix_cons.1 hfront
    exact ⟨kept, hkept⟩
  have hsymbols : (cache.insert table).symbols = table.size + symbolsIn kept := by
    rw [hcounted.symbols_eq, hkept]
    rfl
  have halone : (cache.insert table).entries.length ≤ 1 → kept = [] := by
    intro hlength
    rw [hkept, List.length_cons] at hlength
    exact List.eq_nil_of_length_eq_zero (by omega)
  change (cache.insert table).symbols ≤ cache.budget ∨ _ at hwithin
  unfold IsKept
  split
  · next hfits =>
    refine ⟨hfront, ?_, hlongest⟩
    rw [← hcounted.symbols_eq]
    obtain hle | hlength := hwithin
    · exact hle
    · rw [hsymbols, halone hlength]
      exact hfits
  · next hover =>
    obtain hle | hlength := hwithin
    · omega
    · rw [hkept, halone hlength]

end

/-! ## Histories -/

/-- An operation on a cache. -/
inductive Operation where
  | insert (table : Table)
  | get (file : FileId)
  | remove (file : FileId)
  | clear

namespace Operation

/-- What an operation leaves in the cache. -/
def apply (cache : Cache) : Operation → Cache
  | insert table => cache.insert table
  | get file => (cache.get? file).2
  | remove file => cache.remove file
  | clear => cache.clear

/-- Whether an operation inserts or gets the table of a file. -/
def uses (file : FileId) : Operation → Bool
  | insert table => table.file == file
  | get other => other == file
  | remove _ | clear => false

end Operation

/-- The cache that a history leads to. -/
def run (budget : Nat) (history : List Operation) : Cache :=
  history.foldl Operation.apply (empty budget)

/-- How many operations there are since the table of a file was inserted or got last. -/
def idle (history : List Operation) (file : FileId) : Nat :=
  (history.reverse.takeWhile (!·.uses file)).length

section
variable {cache : Cache}

theorem run_concat (budget : Nat) (history : List Operation) (operation : Operation) :
    run budget (history ++ [operation]) = operation.apply (run budget history) := by
  rw [run, List.foldl_append]
  rfl

theorem Counted.apply (h : cache.Counted) (operation : Operation) :
    (operation.apply cache).Counted := by
  cases operation with
  | insert table => exact h.insert table
  | get file => exact h.get? file
  | remove file => exact h.remove file
  | clear => exact counted_empty cache.budget

theorem counted_run (budget : Nat) (history : List Operation) : (run budget history).Counted := by
  induction history using List.reverseRecOn with
  | nil => exact counted_empty budget
  | append_singleton history operation ih =>
    rw [run_concat]
    exact ih.apply operation

@[simp] theorem budget_apply (cache : Cache) (operation : Operation) :
    (operation.apply cache).budget = cache.budget := by
  cases operation with
  | insert table => exact budget_insert cache table
  | get file =>
    simp only [Operation.apply, Cache.get?]
    split <;> rfl
  | remove file =>
    simp only [Operation.apply, Cache.remove]
    split <;> rfl
  | clear => rfl

@[simp] theorem budget_run (budget : Nat) (history : List Operation) :
    (run budget history).budget = budget := by
  induction history using List.reverseRecOn with
  | nil => rfl
  | append_singleton history operation ih => rw [run_concat, budget_apply, ih]

/-- The cache is within its budget or holds one table at most. -/
def Fits (cache : Cache) : Prop := cache.symbols ≤ cache.budget ∨ cache.size ≤ 1

theorem Fits.apply (hfits : cache.Fits) (h : cache.Counted) (operation : Operation) :
    (operation.apply cache).Fits := by
  unfold Fits
  rw [budget_apply]
  cases operation with
  | insert table => exact (h.insert_retains table).1
  | get file =>
    simp only [Operation.apply, Cache.get?]
    split
    · next hlookup =>
      have hlength := (perm_of_lookup h.nodup hlookup).length_eq
      exact hfits.imp_right fun hsize => Nat.le_trans (Nat.le_of_eq hlength.symm) hsize
    · exact hfits
  | remove file =>
    simp only [Operation.apply, Cache.remove]
    split
    · have hlength := (others_sublist cache file).length_le
      exact hfits.imp (fun hle => Nat.le_trans (Nat.sub_le ..) hle)
        fun hsize => Nat.le_trans hlength hsize
    · exact hfits
  | clear => exact Or.inl (Nat.zero_le _)

theorem fits_run (budget : Nat) (history : List Operation) : (run budget history).Fits := by
  induction history using List.reverseRecOn with
  | nil => exact Or.inl (Nat.zero_le _)
  | append_singleton history operation ih =>
    rw [run_concat]
    exact ih.apply (counted_run budget history) operation

/-! ## The order of use -/

theorem idle_concat (history : List Operation) (operation : Operation) (file : FileId) :
    idle (history ++ [operation]) file = if operation.uses file then 0 else idle history file + 1 := by
  cases huses : operation.uses file with
  | true => simp [idle, huses]
  | false => simp [idle, huses]

/-- An operation that uses no file held leaves their order as it is. -/
theorem pairwise_idle_concat {history : List Operation} {entries : List (FileId × Table)}
    (h : entries.Pairwise fun newer older => idle history newer.1 < idle history older.1)
    {operation : Operation} (hunused : ∀ entry ∈ entries, operation.uses entry.1 = false) :
    entries.Pairwise fun newer older =>
      idle (history ++ [operation]) newer.1 < idle (history ++ [operation]) older.1 := by
  refine List.Pairwise.imp_of_mem ?_ h
  intro newer older hnewer holder hlt
  rw [idle_concat, idle_concat, hunused newer hnewer, hunused older holder]
  simpa using hlt

/-- A table that is used goes in front of the others. -/
theorem pairwise_idle_newest {history : List Operation} {file : FileId} (table : Table)
    (h : cache.entries.Pairwise fun newer older => idle history newer.1 < idle history older.1)
    {operation : Operation} (huses : ∀ other, operation.uses other = (file == other)) :
    ((file, table) :: cache.others file).Pairwise fun newer older =>
      idle (history ++ [operation]) newer.1 < idle (history ++ [operation]) older.1 := by
  have hunused : ∀ entry ∈ cache.others file, operation.uses entry.1 = false := by
    intro entry hentry
    rw [huses]
    exact beq_false_of_ne (mem_others.1 hentry).2.symm
  refine List.pairwise_cons.2 ⟨?_, pairwise_idle_concat (h.sublist (others_sublist ..)) hunused⟩
  intro older holder
  rw [idle_concat, idle_concat, hunused older holder, huses]
  simp

/-- The tables are in the order in which their files were inserted or got last. -/
theorem pairwise_idle_run (budget : Nat) (history : List Operation) :
    (run budget history).entries.Pairwise fun newer older =>
      idle history newer.1 < idle history older.1 := by
  induction history using List.reverseRecOn with
  | nil => exact List.Pairwise.nil
  | append_singleton history operation ih =>
    rw [run_concat]
    generalize run budget history = cache at ih ⊢
    cases operation with
    | insert table =>
      exact (pairwise_idle_newest table ih fun other => rfl).sublist (evict_sublist _)
    | get file =>
      simp only [Operation.apply, Cache.get?]
      split
      · next table hlookup => exact pairwise_idle_newest table ih fun other => rfl
      · next hlookup =>
        refine pairwise_idle_concat ih fun entry hentry => ?_
        exact beq_false_of_ne (bne_iff_ne.1 (List.lookup_eq_none_iff.1 hlookup entry hentry))
    | remove file =>
      have hsub : (cache.remove file).entries.Sublist cache.entries := by
        unfold Cache.remove
        split
        · exact others_sublist ..
        · exact List.Sublist.refl _
      exact pairwise_idle_concat (ih.sublist hsub) fun entry hentry => rfl
    | clear => exact List.Pairwise.nil

end

/-- After any history the symbols of the tables held are counted, each table is held once and under
its own file, and there is no more than the budget allows or one table. The tables are in the order
of their use. No table that is replaced, removed or evicted has more symbols than are counted at
that time, and an insertion keeps the longest front of the order within the budget, or the new table
alone. -/
theorem run_keeps_recent (budget : Nat) (history : List Operation) :
    (run budget history).Counted ∧ (run budget history).Covers ∧
      ((run budget history).symbols ≤ budget ∨ (run budget history).size ≤ 1) ∧
      ((run budget history).entries.Pairwise fun newer older =>
        idle history newer.1 < idle history older.1) ∧
      ∀ table,
        (∀ n, (dropOldest^[n] ((run budget history).put table)).Covers) ∧
        IsKept budget table ((run budget history).others table.file)
          ((run budget history).insert table).entries := by
  have hcounted := counted_run budget history
  have hfits := fits_run budget history
  unfold Fits at hfits
  rw [budget_run] at hfits
  refine ⟨hcounted, hcounted.covers, hfits, pairwise_idle_run budget history, ?_⟩
  intro table
  have hkept := (hcounted.insert_retains table).2
  rw [budget_run] at hkept
  exact ⟨fun n => ((hcounted.put table).dropOldest_iterate n).covers, hkept⟩

end RakuAtlas.Cache
