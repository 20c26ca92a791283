import Mathlib.Data.List.Induction
import RakuAtlas.Proofs.Declarations
import RakuAtlas.Proofs.Order
import RakuAtlas.Symbol.Table

/-!
# RakuAtlas.Proofs.Tables — the table of a text

A table lists the symbols of the declarations one after another, so that they come in
the order of their lines (`pairwise_line_symbols_parse`); `Introduces` says with a case
for each form which they are. Of them each declaration has at most one that is
indexable, because parameters and variables are not. So the indexable symbols of a text
are on lines of their own (`pairwise_line_indexable`), which makes their order by line
the only one.

The imports of a table are the first ones of each module (`mem_imports_ofDeclarations`).
-/

namespace RakuAtlas

open Lexical (Classifier)

namespace Table

/-! ## Building -/

theorem push_eq (t : Table) (s : Symbol) :
    t.push s = { t with symbols := t.symbols ++ [s].filter (!·.name.isEmpty) } := by
  unfold push
  by_cases h : s.name.isEmpty <;> simp [h]

theorem foldl_push_eq (t : Table) (ss : List Symbol) :
    ss.foldl push t = { t with symbols := t.symbols ++ ss.filter (!·.name.isEmpty) } := by
  induction ss generalizing t with
  | nil => simp
  | cons s more ih => rw [List.foldl_cons, ih, push_eq]; simp [List.filter_cons]; split <;> simp

/-- A declaration adds its symbols behind the others, except those without a
name. -/
theorem symbols_add (t : Table) (d : Declaration) :
    (t.add d).symbols = t.symbols ++ (symbolsOf t.file d).filter (!·.name.isEmpty) := by
  unfold add
  split
  · next moduleName hform =>
    simp only [addImport, symbolsOf, hform, List.filter_nil, List.append_nil]
    split <;> rfl
  · rw [foldl_push_eq]

theorem file_add (t : Table) (d : Declaration) : (t.add d).file = t.file := by
  unfold add
  split
  · unfold addImport
    split <;> rfl
  · rw [foldl_push_eq]

theorem foldl_add (t : Table) (ds : List Declaration) :
    (ds.foldl add t).file = t.file ∧ (ds.foldl add t).symbols =
      t.symbols ++ ds.flatMap fun d => (symbolsOf t.file d).filter (!·.name.isEmpty) := by
  induction ds generalizing t with
  | nil => simp
  | cons d more ih =>
    rcases ih (t.add d) with ⟨hfile, hsymbols⟩
    rw [List.foldl_cons]
    refine ⟨hfile.trans (file_add t d), ?_⟩
    rw [hsymbols, file_add, symbols_add]
    simp

/-- The table of a text is that of its file. -/
@[simp] theorem file_parse (file : FileId) (text : String) (mode : ParseMode)
    (classifier : Option Classifier) : (parse file text mode classifier).file = file :=
  (foldl_add (empty file) _).1

/-- The symbols of a text are those of its declarations in order. -/
theorem symbols_parse (file : FileId) (text : String) (mode : ParseMode)
    (classifier : Option Classifier) :
    (parse file text mode classifier).symbols =
      (Declaration.parse mode classifier (Text.lines text)).flatMap fun d =>
        (symbolsOf file d).filter (!·.name.isEmpty) :=
  (foldl_add (empty file) _).2

/-! ## Imports -/

/-- An import is recorded unless the module was imported before. -/
theorem mem_imports_add {t : Table} {d : Declaration} {moduleName : String} {line : Nat} :
    (moduleName, line) ∈ (t.add d).imports ↔
      (moduleName, line) ∈ t.imports ∨
        (∀ earlier, (moduleName, earlier) ∉ t.imports) ∧
          d.form = .importing moduleName ∧ d.line = line := by
  unfold add
  split
  · next other hform =>
    rw [hform, Form.importing.injEq, addImport]
    split
    · next hknown =>
      obtain ⟨⟨known, earlier⟩, hmem, heq⟩ := List.any_eq_true.1 hknown
      obtain rfl : known = other := by simpa using heq
      constructor
      · exact Or.inl
      · rintro (hmem | ⟨hnew, rfl, -⟩)
        · exact hmem
        · exact absurd ‹_› (hnew earlier)
    · next hknown =>
      have hnew : ∀ earlier, (other, earlier) ∉ t.imports := by
        intro earlier hmem
        exact hknown (List.any_eq_true.2 ⟨_, hmem, by simp⟩)
      rw [List.mem_append, List.mem_singleton, Prod.mk.injEq]
      constructor
      · rintro (hmem | ⟨rfl, rfl⟩)
        · exact Or.inl hmem
        · exact Or.inr ⟨hnew, rfl, rfl⟩
      · rintro (hmem | ⟨-, rfl, rfl⟩)
        · exact Or.inl hmem
        · exact Or.inr ⟨rfl, rfl⟩
  · next hform =>
    rw [foldl_push_eq]
    constructor
    · exact Or.inl
    · rintro (hmem | ⟨-, himport, -⟩)
      · exact hmem
      · exact absurd himport (hform moduleName)

/-- Of each module the first import is recorded. -/
theorem mem_imports_ofDeclarations {file : FileId} {ds : List Declaration} {moduleName : String}
    {line : Nat} :
    (moduleName, line) ∈ (ofDeclarations file ds).imports ↔
      (ds.find? (·.form = .importing moduleName)).map (·.line) = some line := by
  induction ds using List.reverseRecOn generalizing line with
  | nil => simp [ofDeclarations, empty]
  | append_singleton before d ih =>
    have hadd : ofDeclarations file (before ++ [d]) = (ofDeclarations file before).add d :=
      List.foldl_concat ..
    rw [hadd, mem_imports_add, List.find?_append]
    simp only [ih]
    cases before.find? (·.form = .importing moduleName) with
    | some first => simp
    | none => by_cases hform : d.form = .importing moduleName <;> simp [hform]

theorem exists_of_mem_imports_parse {file : FileId} {text : String} {mode : ParseMode}
    {classifier : Option Classifier} {entry : String × Nat}
    (h : entry ∈ (parse file text mode classifier).imports) :
    ∃ d ∈ Declaration.parse mode classifier (Text.lines text),
      d.form = .importing entry.1 ∧ d.line = entry.2 := by
  obtain ⟨d, hd, hline⟩ := Option.map_eq_some_iff.1 (mem_imports_ofDeclarations.1 h)
  have hform := List.find?_some hd
  exact ⟨d, List.mem_of_find?_eq_some hd, of_decide_eq_true hform, hline⟩

/-! ## The symbols of one declaration -/

/-- What a declaration brings into a file, with a case for each form. -/
inductive Introduces (file : FileId) (d : Declaration) : Symbol → Prop where
  | scope {kind : ScopeKind} {name : String} {stop : Nat} (h : d.form = .scope kind name stop) :
      Introduces file d
        (((Symbol.onLine name (.ofScope kind) file d.line).inScope d.scope).withStop stop)
  | param {kind : CallableKind} {name param : String} {stop : Nat} {params : List String}
      (h : d.form = .callable kind name stop params) (hparam : param ∈ params) :
      Introduces file d ((Symbol.onLine param .localVar file d.line).inScope d.scope)
  | callable {kind : CallableKind} {name : String} {stop : Nat} {params : List String}
      (h : d.form = .callable kind name stop params) :
      Introduces file d
        { ((Symbol.onLine name (.ofCallable kind) file d.line).inScope d.scope).withStop stop with
          params := params }
  | production {kind : ProductionKind} {name : String} {stop : Nat}
      (h : d.form = .production kind name stop) :
      Introduces file d
        (((Symbol.onLine name (.ofProduction kind) file d.line).inScope d.scope).withStop stop)
  | field {name : String} (h : d.form = .field name) :
      Introduces file d ((Symbol.onLine name .field file d.line).inScope d.scope)
  | phaser {name : String} {stop : Nat} (h : d.form = .phaser name stop) :
      Introduces file d
        (((Symbol.onLine name .phaser file d.line).inScope d.scope).withStop stop)
  | varDecl {names : List String} {name : String} {typeName : Option String}
      (h : d.form = .varDecl names typeName) (hname : name ∈ names) :
      Introduces file d
        { (Symbol.onLine name .localVar file d.line).inScope d.scope with typeName := typeName }

theorem mem_symbolsOf {file : FileId} {d : Declaration} {s : Symbol} :
    s ∈ symbolsOf file d ↔ Introduces file d s := by
  constructor
  · intro h
    unfold symbolsOf at h
    split at h
    · next hform =>
      rw [List.mem_singleton.1 h]
      exact .scope hform
    · next hform =>
      rcases List.mem_append.1 h with hparam | hcallable
      · rcases List.mem_map.1 hparam with ⟨param, hmem, rfl⟩
        exact .param hform hmem
      · rw [List.mem_singleton.1 hcallable]
        exact .callable hform
    · next hform =>
      rw [List.mem_singleton.1 h]
      exact .production hform
    · next hform =>
      rw [List.mem_singleton.1 h]
      exact .field hform
    · next hform =>
      rw [List.mem_singleton.1 h]
      exact .phaser hform
    · next hform =>
      rcases List.mem_map.1 h with ⟨name, hmem, rfl⟩
      exact .varDecl hform hmem
    · cases h
  · intro h
    unfold symbolsOf
    cases h with
    | scope hform | production hform | field hform | phaser hform =>
      rw [hform]
      exact List.mem_singleton_self _
    | param hform hmem =>
      rw [hform]
      exact List.mem_append_left _ (List.mem_map_of_mem hmem)
    | callable hform =>
      rw [hform]
      exact List.mem_append_right _ (List.mem_singleton_self _)
    | varDecl hform hmem =>
      rw [hform]
      exact List.mem_map_of_mem hmem

/-- The symbols of a declaration are in its file, on its line. -/
theorem file_line_of_mem_symbolsOf {file : FileId} {d : Declaration} {s : Symbol}
    (h : s ∈ symbolsOf file d) : s.file = file ∧ s.line = d.line := by
  cases mem_symbolsOf.1 h with
  | _ => exact ⟨rfl, rfl⟩

/-- Only the last symbol of a declaration can be more than a variable on one line: the others are
parameters or variables. -/
theorem length_filter_symbolsOf {p : Symbol → Bool}
    (hp : ∀ s, s.kind = .localVar → s.stop = s.line → ¬p s) (file : FileId) (d : Declaration) :
    ((symbolsOf file d).filter p).length ≤ 1 := by
  unfold symbolsOf
  split
  · exact List.length_filter_le ..
  · rw [List.filter_append, List.filter_eq_nil_iff.2, List.nil_append]
    · exact List.length_filter_le ..
    · intro s hs
      rcases List.mem_map.1 hs with ⟨param, -, rfl⟩
      exact hp _ rfl rfl
  · exact List.length_filter_le ..
  · exact List.length_filter_le ..
  · exact List.length_filter_le ..
  · rw [List.filter_eq_nil_iff.2]
    · simp
    · intro s hs
      rcases List.mem_map.1 hs with ⟨name, -, rfl⟩
      exact hp _ rfl rfl
  · simp

/-- A callable comes from the declaration of a callable. -/
theorem form_of_isCallable {file : FileId} {d : Declaration} {s : Symbol}
    (h : s ∈ symbolsOf file d) (hkind : s.kind.isCallable) :
    ∃ kind stop params, d.form = .callable kind s.name stop params := by
  cases mem_symbolsOf.1 h with
  | callable hform => exact ⟨_, _, _, hform⟩
  | @scope kind => cases kind <;> cases hkind
  | @production kind => cases kind <;> cases hkind
  | param | field | phaser | varDecl => cases hkind

/-! ## The symbols of a text -/

/-- A table has the symbols of its declarations, those without a name apart. -/
theorem mem_symbols_parse_iff {file : FileId} {text : String} {mode : ParseMode}
    {classifier : Option Classifier} {s : Symbol} :
    s ∈ (parse file text mode classifier).symbols ↔
      ∃ d ∈ Declaration.parse mode classifier (Text.lines text),
        s ∈ symbolsOf file d ∧ s.name ≠ "" := by
  simp [symbols_parse]

theorem mem_symbols_parse {file : FileId} {text : String} {mode : ParseMode}
    {classifier : Option Classifier} {s : Symbol} (h : s ∈ (parse file text mode classifier).symbols) :
    ∃ d ∈ Declaration.parse mode classifier (Text.lines text), s ∈ symbolsOf file d := by
  rcases mem_symbols_parse_iff.1 h with ⟨d, hd, hs, -⟩
  exact ⟨d, hd, hs⟩

/-- All symbols of a table are in its file. -/
def InOneFile (t : Table) : Prop := ∀ s ∈ t.symbols, s.file = t.file

theorem inOneFile_parse (file : FileId) (text : String) (mode : ParseMode)
    (classifier : Option Classifier) : (parse file text mode classifier).InOneFile := by
  intro s hs
  rcases mem_symbols_parse hs with ⟨d, -, hs⟩
  rw [file_parse]
  exact (file_line_of_mem_symbolsOf hs).1

/-- The callables of a text have plain names. -/
theorem isPlainName_of_mem_symbols_parse {file : FileId} {text : String} {mode : ParseMode}
    {classifier : Option Classifier} {s : Symbol} (h : s ∈ (parse file text mode classifier).symbols)
    (hkind : s.kind.isCallable) : IsPlainName s.name := by
  rcases mem_symbols_parse h with ⟨d, hd, hs⟩
  rcases form_of_isCallable hs hkind with ⟨kind, stop, params, hform⟩
  exact Declaration.isPlainName_of_mem_parse hd hform

/-- The symbols of a text were discovered in the order of their lines. -/
theorem pairwise_line_symbols_parse (file : FileId) (text : String) (mode : ParseMode)
    (classifier : Option Classifier) :
    (parse file text mode classifier).symbols.Pairwise (·.line ≤ ·.line) := by
  have hline : ∀ {d s}, s ∈ (symbolsOf file d).filter (!·.name.isEmpty) → s.line = d.line :=
    fun hs => (file_line_of_mem_symbolsOf (List.mem_filter.1 hs).1).2
  rw [symbols_parse, List.pairwise_flatMap]
  constructor
  · intro d _
    rw [List.pairwise_iff_forall_sublist]
    intro x y hxy
    have hx := hline (hxy.subset (List.mem_cons_self ..))
    have hy := hline (hxy.subset (List.mem_cons_of_mem _ (List.mem_singleton_self y)))
    omega
  · refine (Declaration.pairwise_line_parse mode classifier _).imp ?_
    intro a b hab x hx y hy
    have hx := hline hx
    have hy := hline hy
    omega

theorem grouped_perm (t : Table) : t.grouped.Perm t.symbols := by
  refine Order.perm_flatMap_filter Symbol.name ?_ ?_
  · exact Order.nodup_eraseDups _
  · intro s hs
    rw [names, List.mem_eraseDups]
    exact List.mem_map_of_mem hs

/-- The order by line is a reordering of the order of discovery. -/
theorem byLine_perm (t : Table) : t.byLine.Perm t.symbols :=
  (List.mergeSort_perm _ _).trans t.grouped_perm

theorem pairwise_line_byLine (t : Table) : t.byLine.Pairwise (·.line ≤ ·.line) :=
  Order.pairwise_mergeSort_key Symbol.line t.grouped

/-- The symbols of a text that are more than variables on one line are on lines of their own, one
for each declaration at most. -/
theorem pairwise_line_filter {p : Symbol → Bool}
    (hp : ∀ s, s.kind = .localVar → s.stop = s.line → ¬p s) (file : FileId) (text : String)
    (mode : ParseMode) (classifier : Option Classifier) :
    ((parse file text mode classifier).symbols.filter p).Pairwise (·.line < ·.line) := by
  rw [symbols_parse, List.filter_flatMap, List.pairwise_flatMap]
  constructor
  · intro d _
    rw [List.filter_comm]
    have hlen := length_filter_symbolsOf hp file d
    have hle := List.length_filter_le (fun s : Symbol => !s.name.isEmpty)
      ((symbolsOf file d).filter p)
    exact Order.pairwise_of_length_le_one (by omega)
  · refine (Declaration.pairwise_line_parse mode classifier _).imp ?_
    intro a b hab x hx y hy
    have hx' := (file_line_of_mem_symbolsOf (List.mem_filter.1 (List.mem_filter.1 hx).1).1).2
    have hy' := (file_line_of_mem_symbolsOf (List.mem_filter.1 (List.mem_filter.1 hy).1).1).2
    omega

/-- The indexable symbols of a text are on lines of their own, in order. -/
theorem pairwise_line_indexable (file : FileId) (text : String) (mode : ParseMode)
    (classifier : Option Classifier) :
    ((parse file text mode classifier).byLine.filter (·.kind.isIndexable)).Pairwise
      (·.line < ·.line) := by
  have hlocal : ∀ s : Symbol, s.kind = .localVar → s.stop = s.line → ¬s.kind.isIndexable := by
    intro s hkind _
    rw [hkind]
    decide
  have hfound := pairwise_line_filter hlocal file text mode classifier
  set t := parse file text mode classifier
  have hdistinct : (t.byLine.filter (·.kind.isIndexable)).Pairwise (·.line ≠ ·.line) := by
    rw [(t.byLine_perm.filter _).pairwise_iff (fun h => Ne.symm h)]
    exact hfound.imp fun h => Nat.ne_of_lt h
  have hsorted := t.pairwise_line_byLine.filter (·.kind.isIndexable)
  exact (hsorted.and hdistinct).imp fun h => Nat.lt_of_le_of_ne h.1 h.2

end Table

end RakuAtlas
