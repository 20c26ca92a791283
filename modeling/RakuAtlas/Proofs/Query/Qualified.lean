import RakuAtlas.Proofs.Modes
import RakuAtlas.Proofs.Query.Tiers

/-!
# RakuAtlas.Proofs.Query.Qualified — qualified names in a document and in the index

A document cuts a qualified name at its last `::` and looks for the last part inside the
scope in front of it; the index puts the scope of a callable and its name together to a key.
Both find the same callables in the same order (`qualified_callables_eq`), although the two
tables are read in different modes and the index orders by line.

* The name of a callable has no colon, so that a key with its scope in front is cut back into
  these two (`Index.isUnder_eq_of_isCut`), also where the scope ends in `::`.
* The modes agree on callables (`Table.callables_modes`), and callables are on lines of their
  own, so that the order by line is that of discovery (`Table.byLine_filter_isIndexable`).
-/

namespace RakuAtlas

open Text
open Lexical (Classifier)
open RakuAtlas.Symbol (SymbolName)

/-! ## Callables of a table -/

/-- The symbol but for the end of its block and where it was learned of. -/
def Symbol.unmeasured (s : Symbol) : Symbol := { s with stop := s.line, origin := .parsing }

/-- Whether the symbol has a name and is inside a scope. -/
def Symbol.isIn (scope name : String) (s : Symbol) : Bool := s.scope == scope && s.name == name

/-- Neither the block nor the origin tells where a symbol is. -/
theorem Symbol.map_unmeasured_filter_isIn (symbols : List Symbol) (scope name : String) :
    (symbols.filter (Symbol.isIn scope name)).map Symbol.unmeasured =
      (symbols.map Symbol.unmeasured).filter (Symbol.isIn scope name) := by
  rw [List.filter_map]
  rfl

namespace Table

/-- The callables of a table, in the order of discovery. -/
def callables (t : Table) : List Symbol := t.symbols.filter (·.kind.isCallable)

/-- The callables that a declaration introduces, but for their blocks. -/
def callablesOf (file : FileId) (d : Declaration) : List Symbol :=
  (((symbolsOf file d).filter (!·.name.isEmpty)).filter (·.kind.isCallable)).map Symbol.unmeasured

theorem map_unmeasured_callables (file : FileId) (text : String) (mode : ParseMode)
    (classifier : Option Classifier) :
    (parse file text mode classifier).callables.map Symbol.unmeasured =
      (Declaration.parse mode classifier (lines text)).flatMap (callablesOf file) := by
  rw [callables, symbols_parse, List.filter_flatMap, List.map_flatMap]
  rfl

/-- Nothing else than a callable introduces one. -/
theorem callablesOf_eq_nil {file : FileId} {d : Declaration}
    (h : ∀ kind name stop params, d.form ≠ .callable kind name stop params) :
    callablesOf file d = [] := by
  rw [callablesOf, List.map_eq_nil_iff, List.filter_eq_nil_iff]
  intro s hs hkind
  obtain ⟨kind, stop, params, hform⟩ := form_of_isCallable (List.mem_filter.1 hs).1 hkind
  exact h kind s.name stop params hform

/-- A callable introduces itself, unless it has no name. -/
theorem callablesOf_of_callable {file : FileId} {d : Declaration} {kind : CallableKind}
    {name : String} {stop : Nat} {params : List String}
    (h : d.form = .callable kind name stop params) :
    callablesOf file d =
      if name.isEmpty then []
      else [{ (Symbol.onLine name (.ofCallable kind) file d.line).inScope d.scope with
        params := params }] := by
  have hparams : ((params.map fun param => (Symbol.onLine param .localVar file d.line).inScope
      d.scope).filter (!·.name.isEmpty)).filter (·.kind.isCallable) = [] := by
    rw [List.filter_eq_nil_iff]
    intro s hs
    obtain ⟨param, -, rfl⟩ := List.mem_map.1 (List.mem_filter.1 hs).1
    exact Bool.false_ne_true
  have hkind : (SymbolKind.ofCallable kind).isCallable := by cases kind <;> rfl
  rw [callablesOf, symbolsOf, h]
  simp only [List.filter_append, hparams, List.nil_append]
  by_cases hname : name.isEmpty
  · simp [Symbol.withStop, Symbol.inScope, Symbol.onLine, hname]
  · simp [Symbol.withStop, Symbol.inScope, Symbol.onLine, hname, hkind, Symbol.unmeasured]

/-- Whether blocks are measured does not show. -/
theorem callablesOf_unmeasured (file : FileId) (d : Declaration) :
    callablesOf file d.unmeasured = callablesOf file d := by
  rcases d with ⟨line, scope, form⟩
  cases form with
  | callable kind name stop params =>
    rw [@callablesOf_of_callable _ ⟨line, scope, .callable kind name stop params⟩ _ _ _ _ rfl]
    exact @callablesOf_of_callable _ ⟨line, scope, .callable kind name line params⟩ _ _ _ _ rfl
  | production | phaser =>
    rw [callablesOf_eq_nil (by rintro - - - - ⟨⟩), callablesOf_eq_nil (by rintro - - - - ⟨⟩)]
  | scope | field | varDecl | importing => rfl

/-- Declarations other than callables can be left out. -/
theorem flatMap_filter_callablesOf (file : FileId) {keep : Form → Bool}
    (h : ∀ kind name stop params, keep (.callable kind name stop params)) (ds : List Declaration) :
    (ds.filter fun d => keep d.form).flatMap (callablesOf file) =
      ds.flatMap (callablesOf file) := by
  induction ds with
  | nil => rfl
  | cons d more ih =>
    rw [List.filter_cons, List.flatMap_cons]
    split
    · rw [List.flatMap_cons, ih]
    · next hd =>
      have hnone : callablesOf file d = [] := by
        refine callablesOf_eq_nil fun kind name stop params hform => hd ?_
        rw [hform]
        exact h kind name stop params
      rw [ih, hnone, List.nil_append]

/-- Navigation and the index of a workspace have the same callables, but for the ends of
their blocks. -/
theorem callables_modes (file : FileId) (text : String) (classifier : Option Classifier) :
    (parse file text .navigation classifier).callables.map Symbol.unmeasured =
      (parse file text .workspaceIndex classifier).callables.map Symbol.unmeasured := by
  obtain ⟨hindex, hnavigation, -⟩ := Declaration.parse_modes classifier (lines text)
  -- neither fields nor variables and imports, in which the modes differ, are callables
  have hfields := @flatMap_filter_callablesOf file (!·.isField) fun _ _ _ _ => rfl
  have hstructural := @flatMap_filter_callablesOf file Form.isStructural fun _ _ _ _ => rfl
  rw [map_unmeasured_callables, map_unmeasured_callables, hindex, hfields, ← hstructural,
    hnavigation, List.flatMap_map]
  simp only [callablesOf_unmeasured]
  exact hstructural _

/-! ## The order by line -/

/-- The order by line is that of discovery, as far as symbols are indexable. -/
theorem byLine_filter_isIndexable (file : FileId) (text : String) (mode : ParseMode)
    (classifier : Option Classifier) :
    (parse file text mode classifier).byLine.filter (·.kind.isIndexable) =
      (parse file text mode classifier).symbols.filter (·.kind.isIndexable) := by
  have hstrict := pairwise_line_indexable file text mode classifier
  have hperm := (parse file text mode classifier).byLine_perm.filter (·.kind.isIndexable)
  have hsorted := (pairwise_line_symbols_parse file text mode classifier).filter
    (·.kind.isIndexable)
  -- no two are on one line, in whatever order they are listed
  have hapart := (hperm.pairwise_iff fun {a b : Symbol} (h : a.line ≠ b.line) => h.symm).1
    (hstrict.imp Nat.ne_of_lt)
  have hfound := hsorted.imp₂ (fun _ _ hle hne => Nat.lt_of_le_of_ne hle hne) hapart
  exact Order.eq_of_pairwise Nat.lt_asymm hstrict hfound fun s => hperm.mem_iff

end Table

/-! ## Keys of the index -/

theorem qualified_ne_empty (scope last : String) : scope ++ "::" ++ last ≠ "" := by
  intro h
  exact absurd (congrArg String.toList h) (by rw [toList_qualified]; simp)

/-- What has `::` in it can be cut there or later. -/
theorem IsCut.exists_append (scope last : String) :
    ∃ scope' last', IsCut (scope ++ "::" ++ last) scope' last' ∧ scope.length ≤ scope'.length := by
  obtain ⟨front, back, hsplit, hlength⟩ := exists_splitLast?_append scope.toList last.toList
  refine ⟨String.ofList front, String.ofList back, splitLast?_eq_some_iff.1 ?_, ?_⟩
  · rw [toList_qualified, hsplit, String.toList_ofList, String.toList_ofList]
  · rwa [String.length_ofList, ← String.length_toList]

namespace Index

/-- A callable is under a qualified key if it is inside the scope in front of the last `::`
and has the name behind it. -/
theorem isUnder_eq_of_isCut {s : Symbol} {key scope last : String} (hkind : s.kind.isCallable)
    (hplain : IsPlainName s.name) (hcut : IsCut key scope last) (hscope : scope ≠ "") :
    isUnder key s = s.isIn scope last := by
  have hcolon : ':' ∉ s.name.toList := fun hmem => absurd (hplain ':' hmem) (by decide)
  rw [Bool.eq_iff_iff]
  simp only [isUnder, Symbol.isIn, hkind, Bool.true_and, Bool.or_eq_true, Bool.and_eq_true,
    beq_iff_eq]
  constructor
  · rintro (hname | ⟨-, hkey⟩)
    · -- the key has colons, and the name has none
      refine absurd ?_ hcolon
      rw [hname, hcut.eq_append, toList_qualified]
      simp
    · have hhere := splitLast?_append hcolon s.scope.toList
      rw [← toList_qualified, hkey, splitLast?_eq_some_iff.2 hcut] at hhere
      obtain ⟨hscopes, hnames⟩ := Prod.mk.inj (Option.some.inj hhere)
      exact ⟨String.toList_injective hscopes.symm, String.toList_injective hnames.symm⟩
  · rintro ⟨rfl, rfl⟩
    refine .inr ⟨?_, hcut.eq_append.symm⟩
    simpa using hscope

/-- An index that holds one file has of it what belongs under a key. -/
theorem find_of_contentsOf_eq {history : List Change} {file : FileId} {symbols : List Symbol}
    (h : contentsOf history = Function.update (fun _ => []) file symbols) (key : String) :
    (run history).find key = symbols.filter (isUnder key) := by
  have himage := image_run history
  have hfile : ∀ s ∈ (run history).find key, s.file = file := by
    intro s hs
    have hcontents := (himage.mem_files s.file).1 ((himage.consistent.mem_files s.file).2
      ⟨key, s, hs, rfl⟩)
    by_contra hne
    rw [h, Function.update_of_ne hne] at hcontents
    exact hcontents rfl
  have hfound := himage.find_filter file key
  rw [h, Function.update_self] at hfound
  rw [← hfound, eq_comm, List.filter_eq_self]
  exact fun s hs => beq_iff_eq.2 (hfile s hs)

end Index

/-! ## Answers from the document -/

/-- The declarations, if they are those of the document. -/
def Resolution.fromDocument : Resolution → List Symbol
  | .found .document first others => first :: others
  | _ => []

namespace Scopes

theorem fromDocument_resolve (scopes : Scopes) {symbol : String} (hne : symbol ≠ "")
    (line : Nat) :
    (scopes.resolve symbol line).fromDocument =
      if (SymbolName.parse symbol.toList).hasSigil then scopes.localVariable symbol line
      else scopes.localOthers symbol := by
  have hempty : ¬symbol.isEmpty := by simpa using hne
  rw [resolve, if_neg hempty]
  generalize (if (SymbolName.parse symbol.toList).hasSigil then scopes.localVariable symbol line
    else scopes.localOthers symbol) = inDocument
  cases inDocument with
  | cons first others => rfl
  | nil =>
    cases scopes.moduleNamed symbol with
    | cons first others => rfl
    | nil =>
      simp only [Resolution.ofList]
      split
      · rfl
      · rfl

/-- What a document answers for a qualified name that it does not declare as such: what it
declares under the last part, inside the scope in front. -/
theorem fromDocument_resolve_of_isCut {scopes : Scopes} {symbol scope last : String}
    (hplain : (SymbolName.parse symbol.toList).hasSigil = false) (hcut : IsCut symbol scope last)
    (hnone : scopes.table.get symbol = []) (line : Nat) :
    (scopes.resolve symbol line).fromDocument =
      (scopes.table.get last).filter (·.scope == scope) := by
  have hne : symbol ≠ "" := by
    rw [hcut.eq_append]
    exact qualified_ne_empty scope last
  rw [fromDocument_resolve scopes hne, hplain, if_neg Bool.false_ne_true,
    localOthers_of_isCut hplain hnone hcut]

end Scopes

/-! ## Callables by their qualified names -/

/-- The callables among what a document has under a name, inside a scope. -/
theorem Table.map_unmeasured_get (t : Table) (scope last : String) :
    (((t.get last).filter (·.scope == scope)).filter (·.kind.isCallable)).map Symbol.unmeasured =
      (t.callables.map Symbol.unmeasured).filter (Symbol.isIn scope last) := by
  rw [← Symbol.map_unmeasured_filter_isIn, get, callables, List.filter_filter, List.filter_filter,
    List.filter_filter]
  congr 2
  funext s
  exact (Bool.and_assoc _ _ _).trans (Bool.and_comm _ _)

/-- The callables among what an index has of a text under a key. -/
theorem Index.map_unmeasured_indexed (file : FileId) (text : String) (mode : ParseMode)
    (classifier : Option Classifier) {key scope last : String} (hcut : IsCut key scope last)
    (hscope : scope ≠ "") :
    (((Index.indexed (Table.parse file text mode classifier)).filter
        (Index.isUnder key)).filter (·.kind.isCallable)).map Symbol.unmeasured =
      ((Table.parse file text mode classifier).callables.map Symbol.unmeasured).filter
        (Symbol.isIn scope last) := by
  have hplain := fun s => @Table.isPlainName_of_mem_symbols_parse file text mode classifier s
  rw [← Symbol.map_unmeasured_filter_isIn, indexed, Table.byLine_filter_isIndexable,
    Table.callables]
  generalize (Table.parse file text mode classifier).symbols = symbols at hplain
  rw [List.filter_map, List.filter_map, List.map_map, List.filter_filter, List.filter_filter,
    List.filter_filter]
  refine congrArg (List.map Symbol.unmeasured) (List.filter_congr fun s hs => ?_)
  by_cases hkind : s.kind.isCallable
  · have hunder := isUnder_eq_of_isCut hkind (hplain s hs hkind) hcut hscope
    have hindexable : s.kind.isIndexable := by simp [SymbolKind.isIndexable, hkind]
    have horigin : isUnder key { s with origin := .index } = isUnder key s := rfl
    simp only [Function.comp_apply, horigin, hunder, hkind, hindexable, Bool.true_and,
      Bool.and_true]
  · simp [hkind]

namespace Scopes

/-- A callable is found under a qualified name in its own document just as in an index that
holds this document only, except where the document declares that very name. The callables
that are found are the same, in the same order; the index knows where their blocks end. -/
theorem qualified_callables_eq (file : FileId) (text : String) (classifier : Option Classifier)
    {scope name : String} (hscope : scope ≠ "")
    (hnone : (Table.parse file text .navigation classifier).get (scope ++ "::" ++ name) = [])
    {history : List Index.Change}
    (hindex : Index.contentsOf history = Function.update (fun _ => []) file
      (Index.indexed (Table.parse file text .workspaceIndex classifier)))
    (modules : Option ModuleMap) (index : Option Index) (line : Nat) :
    let scopes : Scopes := ⟨Table.parse file text .navigation classifier, modules, index⟩
    let here := (scopes.resolve (scope ++ "::" ++ name) line).fromDocument
    let there := (Index.run history).find (scope ++ "::" ++ name)
    (here.filter (·.kind.isCallable)).map Symbol.unmeasured =
      (there.filter (·.kind.isCallable)).map Symbol.unmeasured := by
  intro scopes here there
  have hne := qualified_ne_empty scope name
  cases hsigil : (SymbolName.parse (scope ++ "::" ++ name).toList).hasSigil with
  | true =>
    -- no scope looks like a variable
    have hthere : there = [] :=
      (variable_not_imported file text .navigation classifier history hsigil).2
    have hhere : here = [] := by
      rw [show here = _ from fromDocument_resolve scopes hne line, hsigil, if_pos rfl,
        localVariable, hnone]
      rfl
    rw [hhere, hthere]
  | false =>
    obtain ⟨scope', last, hcut, hlength⟩ := IsCut.exists_append scope name
    have hscope' : scope' ≠ "" := by
      rintro rfl
      exact hscope (String.length_eq_zero_iff.1 (Nat.le_zero.1 hlength))
    have hhere : here = (scopes.table.get last).filter (·.scope == scope') :=
      fromDocument_resolve_of_isCut hsigil hcut hnone line
    have hthere : there = (Index.indexed (Table.parse file text .workspaceIndex
        classifier)).filter (Index.isUnder (scope ++ "::" ++ name)) :=
      Index.find_of_contentsOf_eq hindex _
    rw [hhere, hthere, Table.map_unmeasured_get, Index.map_unmeasured_indexed _ _ _ _ hcut hscope',
      Table.callables_modes]

/-- A history after which one of two files is left, with a class in it. -/
def lastOfTwo : List Index.Change :=
  [.enter ⟨1⟩ "sub go \x7b \x7d" .workspaceIndex (some .raku), .remove ⟨1⟩,
    .enter ⟨0⟩ Index.classText .workspaceIndex (some .raku)]

theorem qualified_callables_eq_goMethod :
    "A" ≠ "" ∧
      (Table.parse ⟨0⟩ Index.classText .navigation (some .raku)).get ("A" ++ "::" ++ "go") = [] ∧
      Index.contentsOf lastOfTwo = Function.update (fun _ => []) ⟨0⟩
        (Index.indexed (Table.parse ⟨0⟩ Index.classText .workspaceIndex (some .raku))) ∧
      (((Index.run lastOfTwo).find ("A" ++ "::" ++ "go")).filter (·.kind.isCallable)).map
        Symbol.unmeasured = [goMethod] := by
  have hne : "A" ≠ "" := by decide
  have hnone : (Table.parse ⟨0⟩ Index.classText .navigation (some .raku)).get
      ("A" ++ "::" ++ "go") = [] := by decide +kernel
  have hindex : Index.contentsOf lastOfTwo = Function.update (fun _ => []) ⟨0⟩
      (Index.indexed (Table.parse ⟨0⟩ Index.classText .workspaceIndex (some .raku))) := by
    simp [Index.contentsOf, lastOfTwo, Index.Change.act, Function.update_eq_self]
  refine ⟨hne, hnone, hindex, ?_⟩
  rw [← qualified_callables_eq ⟨0⟩ Index.classText (some .raku) hne hnone hindex none none 0]
  decide +kernel

end Scopes

end RakuAtlas
