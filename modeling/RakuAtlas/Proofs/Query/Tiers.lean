import Mathlib.Data.List.Induction
import RakuAtlas.Proofs.Query.Declared

/-!
# RakuAtlas.Proofs.Query.Tiers — which tier answers, and with what

`Resolves` lists the answers to a symbol that is used on a line, with a case for each place
in which it can be found and with what has to fail before. It says of no two answers that
both are right, and of one that it is: the one that is computed (`resolve_eq_iff_resolves`).

* A variable is the nearest of its declarations in the document (`IsNearest`), or a module of
  that name. No import and no key of an index looks like a variable, so that the workspace
  never answers for one.
* Any other symbol is all that the document declares under its name, or inside the scope that
  is in front of its last `::` (`IsCut`); otherwise it is one module, or what the workspace
  has under its name.
-/

namespace RakuAtlas

open Text
open RakuAtlas.Symbol (SymbolName)
open RakuAtlas.Symbol.SymbolName.splitQualified? (splitLast?)

/-! ## The nearest declaration -/

/-- Of the symbols at or before a line this is the one furthest down, and the first of those
on its own line. -/
inductive IsNearest (line : Nat) (s : Symbol) : List Symbol → Prop where
  | intro {before after : List Symbol} (hline : s.line ≤ line)
      (hbefore : ∀ b ∈ before, b.line ≤ line → b.line < s.line)
      (hafter : ∀ a ∈ after, a.line ≤ line → a.line ≤ s.line) :
      IsNearest line s (before ++ s :: after)

namespace IsNearest

variable {line : Nat} {s s' : Symbol} {symbols : List Symbol}

theorem mem (h : IsNearest line s symbols) : s ∈ symbols := by
  obtain ⟨-, -, -⟩ := h
  simp

theorem line_le (h : IsNearest line s symbols) : s.line ≤ line := by
  obtain ⟨hline, -, -⟩ := h
  exact hline

theorem line_le_of_mem (h : IsNearest line s symbols) (hmem : s' ∈ symbols)
    (hline : s'.line ≤ line) : s'.line ≤ s.line := by
  obtain ⟨-, hbefore, hafter⟩ := h
  rcases List.mem_append.1 hmem with hb | hs
  · exact Nat.le_of_lt (hbefore s' hb hline)
  · rcases List.mem_cons.1 hs with rfl | ha
    · exact Nat.le_refl _
    · exact hafter s' ha hline

/-- One more declaration further up makes no difference. -/
theorem concat {last : Symbol} (h : IsNearest line s symbols)
    (hlast : last.line ≤ line → last.line ≤ s.line) : IsNearest line s (symbols ++ [last]) := by
  obtain @⟨before, after, hline, hbefore, hafter⟩ := h
  rw [List.append_assoc, List.cons_append]
  refine ⟨hline, hbefore, ?_⟩
  intro a ha
  rcases List.mem_append.1 ha with ha | ha
  · exact hafter a ha
  · rw [List.mem_singleton.1 ha]
    exact hlast

/-- There is one nearest declaration at most. -/
theorem unique (h : IsNearest line s symbols) (h' : IsNearest line s' symbols) : s = s' := by
  have hle := h.line_le_of_mem h'.mem h'.line_le
  have hle' := h'.line_le_of_mem h.mem h.line_le
  obtain @⟨before, after, hline, hbefore, -⟩ := h
  generalize hsymbols : before ++ s :: after = symbols at h'
  obtain @⟨before', after', hline', hbefore', -⟩ := h'
  -- neither is in front of the other, for both are on the same line
  rcases List.append_eq_append_iff.1 hsymbols with ⟨more, rfl, hmore⟩ | ⟨more, rfl, hmore⟩
  · cases more with
    | nil => exact (List.cons.inj hmore).1
    | cons first more =>
      obtain ⟨rfl, -⟩ := List.cons.inj hmore
      have := hbefore' s (by simp) hline
      omega
  · cases more with
    | nil => exact (List.cons.inj hmore).1.symm
    | cons first more =>
      obtain ⟨rfl, -⟩ := List.cons.inj hmore
      have := hbefore s' (by simp) hline'
      omega

end IsNearest

namespace Scopes

theorem nearest?_concat (symbols : List Symbol) (s : Symbol) (line : Nat) :
    nearest? (symbols ++ [s]) line =
      if line < s.line then nearest? symbols line
      else match nearest? symbols line with
        | some b => if b.line < s.line then some s else some b
        | none => some s := by
  rw [nearest?, List.foldl_append]
  simp only [List.foldl_cons, List.foldl_nil]
  rw [← nearest?]
  split
  · rfl
  · cases nearest? symbols line with
    | none => rfl
    | some b => rfl

theorem nearest?_eq_none_iff {symbols : List Symbol} {line : Nat} :
    nearest? symbols line = none ↔ ∀ s ∈ symbols, line < s.line := by
  induction symbols using List.reverseRecOn with
  | nil => simp [nearest?]
  | append_singleton symbols s ih =>
    rw [nearest?_concat]
    simp only [List.mem_append, List.mem_singleton, or_imp, forall_and, forall_eq, ← ih]
    by_cases hline : line < s.line
    · simp [hline]
    · rw [if_neg hline]
      constructor
      · intro h
        split at h
        · split at h
          · cases h
          · cases h
        · cases h
      · exact fun h => absurd h.2 hline

theorem isNearest_of_nearest? {symbols : List Symbol} {line : Nat} {s : Symbol}
    (h : nearest? symbols line = some s) : IsNearest line s symbols := by
  induction symbols using List.reverseRecOn generalizing s with
  | nil => cases h
  | append_singleton symbols last ih =>
    rw [nearest?_concat] at h
    split at h
    · next hbehind => exact (ih h).concat fun hle => absurd hbehind (Nat.not_lt.2 hle)
    · next hline =>
      have hline := Nat.not_lt.1 hline
      split at h
      · next best hbest =>
        split at h
        · -- the last one is further down than all others
          next hlt =>
          cases h
          refine ⟨hline, ?_, by simp⟩
          intro b hb hle
          exact Nat.lt_of_le_of_lt ((ih hbest).line_le_of_mem hb hle) hlt
        · next hle =>
          cases h
          exact (ih hbest).concat fun _ => Nat.not_lt.1 hle
      · next hnone =>
        cases h
        refine ⟨hline, ?_, by simp⟩
        intro b hb hle
        exact absurd (nearest?_eq_none_iff.1 hnone b hb) (Nat.not_lt.2 hle)

theorem nearest?_eq_some_iff {symbols : List Symbol} {line : Nat} {s : Symbol} :
    nearest? symbols line = some s ↔ IsNearest line s symbols := by
  refine ⟨isNearest_of_nearest?, fun h => ?_⟩
  cases hfound : nearest? symbols line with
  | none => exact absurd (nearest?_eq_none_iff.1 hfound s h.mem) (Nat.not_lt.2 h.line_le)
  | some best => rw [(isNearest_of_nearest? hfound).unique h]

end Scopes

/-! ## The last part of a qualified name -/

/-- The name is cut at its last `::`. -/
structure IsCut (name scope last : String) : Prop where
  eq_append : name = scope ++ "::" ++ last
  length_le : ∀ scope' last', name = scope' ++ "::" ++ last' → scope'.length ≤ scope.length

/-- What can be cut is cut there or later. -/
theorem exists_splitLast?_append (front back : Line) :
    ∃ scope last, splitLast? (front ++ ':' :: ':' :: back) = some (scope, last) ∧
      front.length ≤ scope.length := by
  induction front with
  | nil =>
    obtain ⟨cut, hcut⟩ := Option.ne_none_iff_exists'.1 (splitLast?_colons_ne_none back)
    exact ⟨cut.1, cut.2, hcut, Nat.zero_le _⟩
  | cons c front ih =>
    obtain ⟨scope, last, hsplit, hle⟩ := ih
    refine ⟨c :: scope, last, ?_, Nat.succ_le_succ hle⟩
    rw [List.cons_append, splitLast?, hsplit]

theorem toList_qualified (scope last : String) :
    (scope ++ "::" ++ last).toList = scope.toList ++ ':' :: ':' :: last.toList := by
  rw [String.toList_append, String.toList_append, List.append_assoc]
  rfl

theorem splitLast?_eq_some_iff {name scope last : String} :
    splitLast? name.toList = some (scope.toList, last.toList) ↔ IsCut name scope last := by
  constructor
  · intro h
    have hcut := (append_of_splitLast? h).1
    refine ⟨String.toList_injective (by rw [hcut, toList_qualified]), ?_⟩
    rintro scope' last' rfl
    obtain ⟨front, back, hsplit, hle⟩ := exists_splitLast?_append scope'.toList last'.toList
    rw [toList_qualified, hsplit] at h
    cases h
    rwa [String.length_toList, String.length_toList] at hle
  · intro h
    obtain ⟨front, back, hsplit, hle⟩ := exists_splitLast?_append scope.toList last.toList
    rw [← toList_qualified, ← h.eq_append] at hsplit
    have hcut := (append_of_splitLast? hsplit).1
    -- the cut is no later than the scope is long, so that it is the same
    have hle' := h.length_le (String.ofList front) (String.ofList back)
      (String.toList_injective (by rw [hcut, toList_qualified]; simp))
    rw [h.eq_append, toList_qualified] at hcut
    rw [String.length_ofList] at hle'
    rw [String.length_toList] at hle
    obtain ⟨rfl, hlast⟩ := List.append_inj hcut (by rw [String.length_toList]; omega)
    cases hlast
    exact hsplit

/-! ## The tiers -/

/-- The document declares nothing under a plain symbol: neither by its name, nor inside the
scope that is in front of its last `::`. -/
structure IsUndeclared (t : Table) (symbol : String) : Prop where
  get_eq_nil : t.get symbol = []
  scope_ne : ∀ scope last, IsCut symbol scope last → ∀ s ∈ t.get last, s.scope ≠ scope

/-- What a symbol that is used on a line resolves to. -/
inductive Resolves (t : Table) (modules : ModuleMap) (index : Index) (symbol : String)
    (line : Nat) : Resolution → Prop where
  | nearest {s : Symbol} (hsigil : (SymbolName.parse symbol.toList).hasSigil)
      (h : IsNearest line s (t.get symbol)) :
      Resolves t modules index symbol line (.found .document s [])
  | variableModule {s : Symbol} (hsigil : (SymbolName.parse symbol.toList).hasSigil)
      (hlocal : ∀ s ∈ t.get symbol, line < s.line) (h : modules.symbol? symbol = some s) :
      Resolves t modules index symbol line (.found .module s [])
  | variableNowhere (hsigil : (SymbolName.parse symbol.toList).hasSigil)
      (hlocal : ∀ s ∈ t.get symbol, line < s.line) (h : modules.symbol? symbol = none) :
      Resolves t modules index symbol line .notFound
  | named {first : Symbol} {others : List Symbol}
      (hplain : (SymbolName.parse symbol.toList).hasSigil = false)
      (h : t.get symbol = first :: others) :
      Resolves t modules index symbol line (.found .document first others)
  | qualified {scope last : String} {first : Symbol} {others : List Symbol}
      (hplain : (SymbolName.parse symbol.toList).hasSigil = false) (hname : t.get symbol = [])
      (hcut : IsCut symbol scope last)
      (h : (t.get last).filter (·.scope == scope) = first :: others) :
      Resolves t modules index symbol line (.found .document first others)
  | module {s : Symbol} (hplain : (SymbolName.parse symbol.toList).hasSigil = false)
      (hlocal : IsUndeclared t symbol) (h : modules.symbol? symbol = some s) :
      Resolves t modules index symbol line (.found .module s [])
  | imported {importLine : Nat} (hplain : (SymbolName.parse symbol.toList).hasSigil = false)
      (hlocal : IsUndeclared t symbol) (hmodule : modules.symbol? symbol = none)
      (h : t.importLine? symbol = some importLine) :
      Resolves t modules index symbol line
        (.found .module (Symbol.onLine symbol .importing t.file importLine) [])
  | workspace {first : Symbol} {others : List Symbol}
      (hplain : (SymbolName.parse symbol.toList).hasSigil = false)
      (hlocal : IsUndeclared t symbol) (hmodule : modules.symbol? symbol = none)
      (himport : t.importLine? symbol = none) (h : index.find symbol = first :: others) :
      Resolves t modules index symbol line (.found .workspace first others)
  | nowhere (hplain : (SymbolName.parse symbol.toList).hasSigil = false)
      (hlocal : IsUndeclared t symbol) (hmodule : modules.symbol? symbol = none)
      (himport : t.importLine? symbol = none) (h : index.find symbol = []) :
      Resolves t modules index symbol line .notFound

namespace Scopes

section
variable {t : Table} {modules : ModuleMap} {index : Index} {symbol : String} {line : Nat}

theorem localOthers_of_get {scopes : Scopes} {first : Symbol} {others : List Symbol}
    (h : scopes.table.get symbol = first :: others) :
    scopes.localOthers symbol = first :: others := by
  simp only [localOthers, h]

theorem localOthers_of_isCut {scopes : Scopes} {scope last : String}
    (hplain : (SymbolName.parse symbol.toList).hasSigil = false)
    (h : scopes.table.get symbol = []) (hcut : IsCut symbol scope last) :
    scopes.localOthers symbol = (scopes.table.get last).filter (·.scope == scope) := by
  rw [← splitLast?_eq_some_iff] at hcut
  simp only [localOthers, h, SymbolName.splitQualified?, Query.base_parse_of_not_hasSigil hplain,
    hcut, String.ofList_toList]

theorem localOthers_of_isUndeclared {scopes : Scopes}
    (hplain : (SymbolName.parse symbol.toList).hasSigil = false)
    (h : IsUndeclared scopes.table symbol) : scopes.localOthers symbol = [] := by
  cases hsplit : splitLast? symbol.toList with
  | none =>
    simp only [localOthers, h.get_eq_nil, SymbolName.splitQualified?,
      Query.base_parse_of_not_hasSigil hplain, hsplit]
  | some cut =>
    obtain ⟨scope, last⟩ := cut
    have hcut : IsCut symbol (String.ofList scope) (String.ofList last) := by
      rw [← splitLast?_eq_some_iff, hsplit, String.toList_ofList, String.toList_ofList]
    rw [localOthers_of_isCut hplain h.get_eq_nil hcut, List.filter_eq_nil_iff]
    intro s hs
    simpa using h.scope_ne _ _ hcut s hs

theorem moduleNamed_of_symbol? {s : Symbol} (h : modules.symbol? symbol = some s) :
    (⟨t, some modules, some index⟩ : Scopes).moduleNamed symbol = [s] := by
  simp only [moduleNamed, Option.bind_some, h]

theorem moduleNamed_of_import {importLine : Nat} (hmodule : modules.symbol? symbol = none)
    (h : t.importLine? symbol = some importLine) :
    (⟨t, some modules, some index⟩ : Scopes).moduleNamed symbol =
      [Symbol.onLine symbol .importing t.file importLine] := by
  simp only [moduleNamed, Option.bind_some, hmodule, h]

theorem moduleNamed_of_none (hmodule : modules.symbol? symbol = none)
    (h : t.importLine? symbol = none) :
    (⟨t, some modules, some index⟩ : Scopes).moduleNamed symbol = [] := by
  simp only [moduleNamed, Option.bind_some, hmodule, h]

theorem resolve_variable (hne : symbol ≠ "")
    (hsigil : (SymbolName.parse symbol.toList).hasSigil) :
    (⟨t, some modules, some index⟩ : Scopes).resolve symbol line =
      .ofList .document (nearest? (t.get symbol) line).toList
        (.ofList .module ((⟨t, some modules, some index⟩ : Scopes).moduleNamed symbol)
          (.ofList .workspace (index.find symbol) .notFound)) := by
  have hempty : ¬symbol.isEmpty := by simpa using hne
  simp only [resolve, if_neg hempty, hsigil, if_true, localVariable]

theorem resolve_plain (hne : symbol ≠ "")
    (hplain : (SymbolName.parse symbol.toList).hasSigil = false) :
    (⟨t, some modules, some index⟩ : Scopes).resolve symbol line =
      .ofList .document ((⟨t, some modules, some index⟩ : Scopes).localOthers symbol)
        (.ofList .module ((⟨t, some modules, some index⟩ : Scopes).moduleNamed symbol)
          (.ofList .workspace (index.find symbol) .notFound)) := by
  have hempty : ¬symbol.isEmpty := by simpa using hne
  simp only [resolve, if_neg hempty, hplain, Bool.false_eq_true, if_false]

/-- What a symbol resolves to is what is computed, where neither imports nor keys of the
index look like variables. -/
theorem resolve_eq_of_resolves {r : Resolution} (hne : symbol ≠ "")
    (hvariable : (SymbolName.parse symbol.toList).hasSigil →
      t.importLine? symbol = none ∧ index.find symbol = [])
    (h : Resolves t modules index symbol line r) :
    (⟨t, some modules, some index⟩ : Scopes).resolve symbol line = r := by
  cases h with
  | nearest hsigil h =>
    rw [resolve_variable hne hsigil, nearest?_eq_some_iff.2 h]
    rfl
  | variableModule hsigil hlocal h =>
    rw [resolve_variable hne hsigil, nearest?_eq_none_iff.2 hlocal, moduleNamed_of_symbol? h]
    rfl
  | variableNowhere hsigil hlocal h =>
    obtain ⟨himport, hindex⟩ := hvariable hsigil
    rw [resolve_variable hne hsigil, nearest?_eq_none_iff.2 hlocal,
      moduleNamed_of_none h himport, hindex]
    rfl
  | named hplain h =>
    rw [resolve_plain hne hplain, localOthers_of_get h]
    rfl
  | qualified hplain hname hcut h =>
    rw [resolve_plain hne hplain, localOthers_of_isCut hplain hname hcut, h]
    rfl
  | module hplain hlocal h =>
    rw [resolve_plain hne hplain, localOthers_of_isUndeclared hplain hlocal,
      moduleNamed_of_symbol? h]
    rfl
  | imported hplain hlocal hmodule h =>
    rw [resolve_plain hne hplain, localOthers_of_isUndeclared hplain hlocal,
      moduleNamed_of_import hmodule h]
    rfl
  | workspace hplain hlocal hmodule himport h =>
    rw [resolve_plain hne hplain, localOthers_of_isUndeclared hplain hlocal,
      moduleNamed_of_none hmodule himport, h]
    rfl
  | nowhere hplain hlocal hmodule himport h =>
    rw [resolve_plain hne hplain, localOthers_of_isUndeclared hplain hlocal,
      moduleNamed_of_none hmodule himport, h]
    rfl

/-- A variable resolves to something. -/
theorem exists_resolves_variable (hsigil : (SymbolName.parse symbol.toList).hasSigil) :
    ∃ r, Resolves t modules index symbol line r := by
  cases hnearest : nearest? (t.get symbol) line with
  | some s => exact ⟨_, .nearest hsigil (nearest?_eq_some_iff.1 hnearest)⟩
  | none =>
    have hlocal := nearest?_eq_none_iff.1 hnearest
    cases hmodule : modules.symbol? symbol with
    | some s => exact ⟨_, .variableModule hsigil hlocal hmodule⟩
    | none => exact ⟨_, .variableNowhere hsigil hlocal hmodule⟩

/-- A plain symbol that the document does not declare resolves to something. -/
theorem exists_resolves_of_isUndeclared
    (hplain : (SymbolName.parse symbol.toList).hasSigil = false) (hlocal : IsUndeclared t symbol) :
    ∃ r, Resolves t modules index symbol line r := by
  cases hmodule : modules.symbol? symbol with
  | some s => exact ⟨_, .module hplain hlocal hmodule⟩
  | none =>
    cases himport : t.importLine? symbol with
    | some importLine => exact ⟨_, .imported hplain hlocal hmodule himport⟩
    | none =>
      cases hindex : index.find symbol with
      | cons first others => exact ⟨_, .workspace hplain hlocal hmodule himport hindex⟩
      | nil => exact ⟨_, .nowhere hplain hlocal hmodule himport hindex⟩

theorem exists_resolves (t : Table) (modules : ModuleMap) (index : Index) (symbol : String)
    (line : Nat) : ∃ r, Resolves t modules index symbol line r := by
  cases hsigil : (SymbolName.parse symbol.toList).hasSigil with
  | true => exact exists_resolves_variable hsigil
  | false =>
    cases hname : t.get symbol with
    | cons first others => exact ⟨_, .named hsigil hname⟩
    | nil =>
      by_cases hcut : ∃ scope last, IsCut symbol scope last ∧
          (t.get last).filter (·.scope == scope) ≠ []
      · obtain ⟨scope, last, hcut, hne⟩ := hcut
        obtain ⟨first, others, hfound⟩ := List.exists_cons_of_ne_nil hne
        exact ⟨_, .qualified hsigil hname hcut hfound⟩
      · refine exists_resolves_of_isUndeclared hsigil ⟨hname, ?_⟩
        intro scope last hlast s hs hscope
        refine hcut ⟨scope, last, hlast, List.ne_nil_of_mem (List.mem_filter.2 ⟨hs, ?_⟩)⟩
        exact beq_iff_eq.2 hscope

end

/-- No import of a text and no key of an index looks like a variable. -/
theorem variable_not_imported (file : FileId) (text : String) (mode : ParseMode)
    (classifier : Option Lexical.Classifier) (history : List Index.Change) {symbol : String}
    (hsigil : (SymbolName.parse symbol.toList).hasSigil) :
    (Table.parse file text mode classifier).importLine? symbol = none ∧
      (Index.run history).find symbol = [] := by
  have hvariable : ¬HasNoSigil symbol := by
    intro hno
    rw [hno.hasSigil_parse] at hsigil
    cases hsigil
  constructor
  · rw [Table.importLine?, Option.map_eq_none_iff, List.find?_eq_none]
    intro entry hentry hname
    rw [← eq_of_beq hname] at hvariable
    exact hvariable (Table.hasNoSigil_of_mem_imports hentry)
  · rw [List.eq_nil_iff_forall_not_mem]
    intro s hs
    exact hvariable (Index.hasNoSigil_of_mem_find hs)

/-- In the table of a text and an index that is built from tables of texts a symbol resolves
to what the tiers have for it, one tier after the other, and to nothing else. The workspace
never answers for a variable, and what is found is never empty. -/
theorem resolve_eq_iff_resolves (file : FileId) (text : String) (mode : ParseMode)
    (classifier : Option Lexical.Classifier) (modules : ModuleMap) (history : List Index.Change)
    {symbol : String} (hne : symbol ≠ "") (line : Nat) :
    let t := Table.parse file text mode classifier
    let scopes : Scopes := ⟨t, some modules, some (Index.run history)⟩
    (∀ r, scopes.resolve symbol line = r ↔
        Resolves t modules (Index.run history) symbol line r) ∧
      ((SymbolName.parse symbol.toList).hasSigil →
        ∀ first others, scopes.resolve symbol line ≠ .found .workspace first others) ∧
      ((scopes.resolve symbol line).isFound → (scopes.resolve symbol line).symbols ≠ []) := by
  intro t scopes
  have hiff : ∀ r, scopes.resolve symbol line = r ↔
      Resolves t modules (Index.run history) symbol line r := by
    intro r
    have hresolve := fun r' => @resolve_eq_of_resolves t modules (Index.run history) symbol line r'
      hne (variable_not_imported file text mode classifier history)
    constructor
    · rintro rfl
      obtain ⟨r', hr'⟩ := exists_resolves t modules (Index.run history) symbol line
      rwa [← hresolve r' hr'] at hr'
    · exact hresolve r
  refine ⟨hiff, ?_, ?_⟩
  · intro hsigil first others hworkspace
    cases (hiff _).1 hworkspace with
    | workspace hplain =>
      rw [hsigil] at hplain
      cases hplain
  · intro hfound
    cases hanswer : scopes.resolve symbol line with
    | found tier first others => exact List.cons_ne_nil first others
    | notFound =>
      rw [hanswer] at hfound
      cases hfound

/-- The method of a class that is in the document and in the index. -/
def goMethod : Symbol := ⟨"go", .method, ⟨0⟩, 1, 1, "A", [], none, .parsing⟩

/-- By its qualified name the document answers for the method, not the index. -/
theorem resolve_eq_goMethod :
    "A::go" ≠ "" ∧
      (⟨Table.parse ⟨0⟩ Index.classText .navigation none, some .empty,
          some (Index.run Index.direct)⟩ : Scopes).resolve "A::go" 0 =
        .found .document goMethod [] := by
  have hcut : IsCut "A::go" "A" "go" := splitLast?_eq_some_iff.1 (by decide)
  have hfound : ((Table.parse ⟨0⟩ Index.classText .navigation none).get "go").filter
      (·.scope == "A") = [goMethod] := by decide +kernel
  exact ⟨by decide, ((resolve_eq_iff_resolves ⟨0⟩ Index.classText .navigation none .empty
    Index.direct (by decide) 0).1 _).2 (.qualified (by decide) (by decide +kernel) hcut hfound)⟩

end Scopes

end RakuAtlas
