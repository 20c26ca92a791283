import RakuAtlas.Symbol.Table

/-!
# RakuAtlas.Workspace.Cache — tables of documents that are not open

The cache holds the tables used last, the newest first. It is bounded by the
number of symbols in them, but the newest table is always kept.

The number of symbols is not found by counting: it is kept beside the tables,
and every change of these adds to it or subtracts from it.
-/

namespace RakuAtlas

/-- The tables used last, and how many symbols they may have. -/
structure Cache where
  /-- The tables under their files, the newest first. -/
  entries : List (FileId × Table)
  /-- The number of symbols in the tables. -/
  symbols : Nat
  budget : Nat
deriving DecidableEq, Repr

namespace Cache

/-- An empty cache. -/
def empty (budget : Nat) : Cache := ⟨[], 0, budget⟩

/-- The number of tables held. -/
def size (cache : Cache) : Nat := cache.entries.length

/-- Whether no table is held. -/
def isEmpty (cache : Cache) : Bool := cache.entries.isEmpty

/-- The entries of all files but one. -/
def others (cache : Cache) (file : FileId) : List (FileId × Table) :=
  cache.entries.filter (·.1 != file)

/-- The table of a file, which becomes the newest. -/
def get? (cache : Cache) (file : FileId) : Option Table × Cache :=
  match cache.entries.lookup file with
  | some table => (some table, { cache with entries := (file, table) :: cache.others file })
  | none => (none, cache)

/-- Drop the table of a file. -/
def remove (cache : Cache) (file : FileId) : Cache :=
  match cache.entries.lookup file with
  | some old => { cache with entries := cache.others file, symbols := cache.symbols - old.size }
  | none => cache

/-- Drop the oldest table. -/
def dropOldest (cache : Cache) : Cache :=
  match cache.entries.getLast? with
  | some (_, oldest) =>
    { cache with entries := cache.entries.dropLast, symbols := cache.symbols - oldest.size }
  | none => cache

@[simp] theorem entries_dropOldest (cache : Cache) :
    cache.dropOldest.entries = cache.entries.dropLast := by
  unfold dropOldest
  split
  · rfl
  · next hnone => rw [List.getLast?_eq_none_iff.1 hnone, List.dropLast_nil]

/-- Drop the oldest tables until the rest is within the budget or only one is
left. -/
def evict (cache : Cache) : Cache :=
  if cache.budget < cache.symbols ∧ 1 < cache.entries.length then evict cache.dropOldest else cache
termination_by cache.entries.length
decreasing_by
  rw [entries_dropOldest, List.length_dropLast]
  omega

/-- Hold a table as the newest, in place of an older one of its file. -/
def put (cache : Cache) (table : Table) : Cache :=
  let symbols := cache.symbols + table.size
  { cache with
    entries := (table.file, table) :: cache.others table.file
    symbols := match cache.entries.lookup table.file with
      | some old => symbols - old.size
      | none => symbols }

/-- Hold a table as the newest, and make room for it. -/
def insert (cache : Cache) (table : Table) : Cache := (cache.put table).evict

/-- Drop all tables. -/
def clear (cache : Cache) : Cache := { cache with entries := [], symbols := 0 }

end Cache

end RakuAtlas
