import RakuAtlas.Symbol.Table

/-!
# RakuAtlas.Symbol.Index — the symbols of the workspace

The index holds the indexable symbols of many files. Each is entered under its
name, and a callable inside a scope also under its qualified name.

Besides the symbols under each key, the index keeps the keys of each file, so
that dropping a file looks only at what the file has entered, and the number of
entries. Entering the table of a file first drops what the file had before.
The views are

* `find key`: the symbols under a key, in the order in which they were entered;
* `query`: the symbols under all keys with a given beginning, in the order of
  key, file and line;
* `filesDeclaring key`: the files with a symbol under the key.
-/

namespace RakuAtlas

/-- A symbol under a key. -/
structure IndexEntry where
  key : String
  symbol : Symbol
deriving DecidableEq, Repr

/-- The symbols of the workspace. -/
structure Index where
  /-- The symbols under each key. -/
  byKey : List (String × List Symbol)
  /-- The keys under which each file has symbols. -/
  keysByFile : List (FileId × List String)
  /-- The number of symbols under all keys. -/
  count : Nat
deriving DecidableEq, Repr

namespace Index

/-! ## Keys -/

/-- The symbols under a key. -/
def symbolsUnder (byKey : List (String × List Symbol)) (key : String) : List Symbol :=
  (byKey.lookup key).getD []

/-- Put a symbol behind the others under its key; a new key comes last. -/
def pushUnder (key : String) (s : Symbol) : List (String × List Symbol) → List (String × List Symbol)
  | [] => [(key, [s])]
  | (other, symbols) :: more =>
    if other = key then (other, symbols ++ [s]) :: more
    else (other, symbols) :: pushUnder key s more

/-- Drop the symbols of a file under a key, and the key if none are left. -/
def dropUnder (file : FileId) (key : String) :
    List (String × List Symbol) → List (String × List Symbol)
  | [] => []
  | (other, symbols) :: more =>
    if other = key then
      match symbols.filter (·.file != file) with
      | [] => more
      | kept => (other, kept) :: more
    else (other, symbols) :: dropUnder file key more

/-- Drop the symbols of a file under several keys, and count them. -/
def dropKeys (file : FileId) (byKey : List (String × List Symbol)) :
    List String → List (String × List Symbol) × Nat
  | [] => (byKey, 0)
  | key :: more =>
    let symbols := symbolsUnder byKey key
    let dropped := symbols.length - (symbols.filter (·.file != file)).length
    let (rest, others) := dropKeys file (dropUnder file key byKey) more
    (rest, dropped + others)

/-! ## Changes -/

/-- An index without entries. -/
def empty : Index := ⟨[], [], 0⟩

/-- The entries of one symbol: a callable also has its qualified name. -/
def entriesOfSymbol (s : Symbol) : List IndexEntry :=
  let entry := { s with origin := .index }
  let qualified := if s.kind.isCallable then s.qualifiedName? else none
  qualified.toList.map (⟨·, entry⟩) ++ [⟨s.name, entry⟩]

/-- The entries of a table. -/
def entriesOf (t : Table) : List IndexEntry :=
  (t.byLine.filter (·.kind.isIndexable)).flatMap entriesOfSymbol

/-- Drop the entries of a file. -/
def removeFile (index : Index) (file : FileId) : Index :=
  match index.keysByFile.lookup file with
  | none => index
  | some keys =>
    let (byKey, dropped) := dropKeys file index.byKey keys
    ⟨byKey, index.keysByFile.filter (·.1 != file), index.count - dropped⟩

/-- Add an entry, and its key to those that its file has so far. -/
def insert (index : Index) (keys : List String) (entry : IndexEntry) : Index × List String :=
  ({ index with
      byKey := pushUnder entry.key entry.symbol index.byKey
      count := index.count + 1 },
    if keys.contains entry.key then keys else keys ++ [entry.key])

/-- Add entries in order. -/
def insertAll (index : Index) (keys : List String) : List IndexEntry → Index × List String
  | [] => (index, keys)
  | entry :: more =>
    let (index, keys) := index.insert keys entry
    index.insertAll keys more

/-- Replace the entries of a table's file by those of the table. -/
def enter (index : Index) (t : Table) : Index :=
  let (index, keys) := (index.removeFile t.file).insertAll [] (entriesOf t)
  if keys.isEmpty then index
  else { index with keysByFile := (t.file, keys) :: index.keysByFile.filter (·.1 != t.file) }

/-! ## Views -/

/-- The symbols under a key. -/
def find (index : Index) (key : String) : List Symbol := symbolsUnder index.byKey key

/-- The keys, each once. -/
def keys (index : Index) : List String := index.byKey.map Prod.fst

/-- Whether one symbol comes before another in a list ordered by file and
line. -/
def atOrBefore (a b : Symbol) : Bool :=
  a.file.index < b.file.index || (a.file == b.file && a.line ≤ b.line)

/-- The symbols under the keys that begin with `start`, in the order of key,
file and line. -/
def queryAll (index : Index) (start : String) : List Symbol :=
  let keys := index.keys.filter fun key => start.toList.isPrefixOf key.toList
  (keys.mergeSort fun a b => a ≤ b).flatMap fun key => (index.find key).mergeSort atOrBefore

/-- The first symbols under the keys that begin with `start`; without a limit
all of them. -/
def query (index : Index) (start : String) (limit : Option Nat) : List Symbol :=
  match limit with
  | some n => (index.queryAll start).take n
  | none => index.queryAll start

/-- The lines of the declarations under a key. -/
def locations (index : Index) (key : String) : List Location :=
  (index.find key).map Symbol.location

/-- The files with a symbol under the key, in ascending order. -/
def filesDeclaring (index : Index) (key : String) : List FileId :=
  ((index.find key).map Symbol.file).eraseDups.mergeSort fun a b => a.index ≤ b.index

/-- The files with entries, each once. -/
def files (index : Index) : List FileId := index.keysByFile.map Prod.fst

/-- Whether a file has entries. -/
def containsFile (index : Index) (file : FileId) : Bool := (index.keysByFile.lookup file).isSome

/-- The number of entries. -/
def size (index : Index) : Nat := index.count

/-- The number of entries of a file. -/
def sizeIn (index : Index) (file : FileId) : Nat :=
  total (fun (_, symbols) => symbols.countP (·.file == file)) index.byKey

/-- Whether there are no entries. -/
def isEmpty (index : Index) : Bool := index.count == 0

end Index

end RakuAtlas
