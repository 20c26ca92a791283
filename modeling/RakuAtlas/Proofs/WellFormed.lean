import RakuAtlas.Proofs.Extents
import RakuAtlas.Proofs.Tables
import RakuAtlas.Proofs.Text.Search

/-!
# RakuAtlas.Proofs.WellFormed — tables are well-formed

What every table of a text satisfies, however malformed the text is and whether or
not a classifier reads it (`wellFormed_parse`): all symbols have a name and lie
inside the text, they come in the order of their lines, parameters are variables
beside their callable, and imports are recorded where they come first.

That a parameter is in the table as a variable needs that it has a name. It has, for
whatever names a variable starts with a sigil (`hasSigil_of_mem_variablesIn`), and
parameters are such names wherever they are found (`hasSigil_of_mem_params`).
-/

namespace RakuAtlas

open Text
open Lexical (Classifier)
open RakuAtlas.Symbol (isSigil)

/-! ## Parameters -/

/-- The name starts with a sigil. -/
def HasSigil (name : String) : Prop := ∃ sigil ∈ name.toList.head?, isSigil sigil

theorem HasSigil.ne_empty {name : String} (h : HasSigil name) : name ≠ "" := by
  rintro rfl
  obtain ⟨sigil, hsigil, -⟩ := h
  cases hsigil

namespace Variable

theorem exists_sigil_of_variableLen? {cs : Line} {len : Nat} (h : variableLen? cs = some len) :
    ∃ sigil more, cs = sigil :: more ∧ isSigil sigil ∧ 0 < len := by
  cases cs with
  | nil => cases h
  | cons sigil more =>
    by_cases hsigil : isSigil sigil
    · simp only [variableLen?, hsigil, if_true, Option.ite_none_right_eq_some,
        Option.some.injEq] at h
      obtain ⟨-, hlen⟩ := h
      exact ⟨sigil, more, rfl, hsigil, by omega⟩
    · simp [variableLen?, hsigil] at h

/-- The variables of a text start with a sigil. -/
theorem hasSigil_of_mem_variablesIn {cs : Line} {name : String} (h : name ∈ variablesIn cs) :
    HasSigil name := by
  simp only [variablesIn, hitTexts, List.map_map, List.mem_map, Function.comp_apply] at h
  obtain ⟨hit, hhit, rfl⟩ := h
  obtain ⟨-, len, -, -, hfind, htext⟩ := exists_of_mem_hits hhit
  obtain ⟨len', hlen, heq⟩ := Option.map_eq_some_iff.1 hfind
  obtain rfl : len' = len := congrArg Prod.fst heq
  obtain ⟨sigil, more, hcons, hsigil, hpos⟩ := exists_sigil_of_variableLen? hlen
  refine ⟨sigil, ?_, hsigil⟩
  rw [String.toList_ofList, htext, hcons, List.take_cons hpos]
  rfl

theorem hasSigil_of_argumentList? {cs : Line} {names : List String} {name : String}
    (h : argumentList? cs = some names) (hname : name ∈ names) : HasSigil name := by
  simp only [argumentList?, Option.bind_eq_bind, Option.bind_eq_some_iff] at h
  obtain ⟨_, -, _, -, _, -, _, -, _, -, heq⟩ := h
  cases heq
  exact hasSigil_of_mem_variablesIn hname

theorem hasSigil_of_shifted? {cs : Line} {names : List String} {name : String}
    (h : shifted? cs = some names) (hname : name ∈ names) : HasSigil name := by
  simp only [shifted?, Option.bind_eq_bind, Option.bind_eq_some_iff] at h
  obtain ⟨_, -, ⟨target, rest⟩, htarget, _, -, _, -, heq⟩ := h
  split at heq
  · cases heq
    obtain rfl := List.mem_singleton.1 hname
    simp only [Header.scalar?, Option.bind_eq_bind, Option.bind_eq_some_iff] at htarget
    obtain ⟨_, -, hscalar⟩ := htarget
    split at hscalar
    · cases hscalar
      exact ⟨'$', by rw [String.toList_ofList]; rfl, rfl⟩
    · cases hscalar
  · cases heq

theorem hasSigil_of_mem_takenParams {cs : Line} {name : String} (h : name ∈ takenParams cs) :
    HasSigil name := by
  unfold takenParams at h
  cases hlist : firstAt? argumentList? cs with
  | some names =>
    rw [hlist] at h
    obtain ⟨rest, -, hfind⟩ := exists_of_firstAt? hlist
    exact hasSigil_of_argumentList? hfind h
  | none =>
    cases hshift : firstAt? shifted? cs with
    | some names =>
      rw [hlist, hshift] at h
      obtain ⟨rest, -, hfind⟩ := exists_of_firstAt? hshift
      exact hasSigil_of_shifted? hfind h
    | none =>
      rw [hlist, hshift] at h
      cases h

theorem hasSigil_of_mem_paramsOver {isHeader inSignature : Bool} {codes : List Line}
    {name : String} (h : name ∈ paramsOver isHeader inSignature codes) : HasSigil name := by
  induction codes generalizing isHeader inSignature with
  | nil => cases h
  | cons code more ih =>
    simp only [paramsOver, List.mem_append] at h
    obtain (hlisted | htaken) | hlater := h
    · split at hlisted
      · exact hasSigil_of_mem_variablesIn hlisted
      · cases hlisted
    · exact hasSigil_of_mem_takenParams htaken
    · split at hlater
      · cases hlater
      · exact ih hlater

/-- The parameters of a callable start with a sigil. -/
theorem hasSigil_of_mem_params {afterName header : Line} {following : List Line} {name : String}
    (h : name ∈ params afterName header following) : HasSigil name := by
  revert name
  refine List.foldlRecOn (laterParams header following) _
    (motive := fun found => ∀ {name}, name ∈ found → HasSigil name) ?_ ?_
  · intro name h
    exact hasSigil_of_mem_variablesIn h
  · intro found hfound param hparam name h
    split at h
    · exact hfound h
    · obtain hold | hnew := List.mem_append.1 h
      · exact hfound hold
      · obtain rfl := List.mem_singleton.1 hnew
        exact hasSigil_of_mem_paramsOver hparam

end Variable

theorem Declaration.hasSigil_of_mem_params {mode : ParseMode} {classifier : Option Classifier}
    {lines : List Line} {d : Declaration} {kind : CallableKind} {name param : String} {stop : Nat}
    {params : List String} (hd : d ∈ parse mode classifier lines)
    (hform : d.form = .callable kind name stop params) (hparam : param ∈ params) :
    HasSigil param := by
  obtain ⟨above, code, following, before, next, -, -, hfound⟩ :=
    exists_recognize_of_mem_readFrom hd
  rw [hform] at hfound
  cases recognized_of_recognize hfound with
  | callable => exact Variable.hasSigil_of_mem_params hparam

/-! ## Tables -/

namespace Table

/-- A symbol ends on its line, or where its declaration does. -/
theorem Introduces.stop_mem {file : FileId} {d : Declaration} {s : Symbol}
    (h : Introduces file d s) : s.line ≤ s.stop ∧ s.stop ≤ max d.line (d.form.lastLine d.line) := by
  cases h with
  | scope hform | callable hform | production hform | phaser hform =>
    rw [hform]
    simp only [Symbol.withStop, Symbol.inScope, Symbol.onLine, Form.lastLine]
    omega
  | param | field | varDecl =>
    simp only [Symbol.inScope, Symbol.onLine]
    omega

/-- Only callables have parameters, and beside a callable each of them is declared
as a variable. -/
theorem Introduces.exists_param {file : FileId} {d : Declaration} {s : Symbol} {param : String}
    (h : Introduces file d s) (hparam : param ∈ s.params) :
    (∃ kind stop, d.form = .callable kind s.name stop s.params) ∧
      ∃ v, Introduces file d v ∧ v.name = param ∧ v.kind = .localVar ∧ v.line = s.line ∧
        v.scope = s.scope := by
  cases h with
  | callable hform => exact ⟨⟨_, _, hform⟩, _, .param hform hparam, rfl, rfl, rfl, rfl⟩
  | scope | param | production | field | phaser | varDecl => cases hparam

/-- What a table has to satisfy that was built from these declarations of a text with
so many lines. -/
structure WellFormed (t : Table) (ds : List Declaration) (lineCount : Nat) : Prop where
  /-- A line declares at most one thing. -/
  declarations_sorted : ds.Pairwise (·.line < ·.line)
  name_ne_empty : ∀ s ∈ t.symbols, s.name ≠ ""
  inOneFile : t.InOneFile
  line_le_stop : ∀ s ∈ t.symbols, s.line ≤ s.stop
  stop_lt_lineCount : ∀ s ∈ t.symbols, s.stop < lineCount
  get_sorted : ∀ name, (t.get name).Pairwise (·.line ≤ ·.line)
  params_declared : ∀ s ∈ t.symbols, ∀ param ∈ s.params, ∃ v ∈ t.symbols,
    v.name = param ∧ v.kind = .localVar ∧ v.line = s.line ∧ v.scope = s.scope
  /-- Exactly the imported modules are recorded, with the first line that imports
  them. -/
  imports_first : ∀ moduleName line, (moduleName, line) ∈ t.imports ↔
    IsLeast {n | ∃ d ∈ ds, d.form = .importing moduleName ∧ d.line = n} line

/-- The table of every text is well-formed, in every mode and under every
classifier. -/
theorem wellFormed_parse (file : FileId) (text : String) (mode : ParseMode)
    (classifier : Option Classifier) :
    (parse file text mode classifier).file = file ∧
      (parse file text mode classifier).WellFormed
        (Declaration.parse mode classifier (Text.lines text)) (Text.lines text).length := by
  have hsorted := Declaration.pairwise_line_parse mode classifier (Text.lines text)
  refine ⟨file_parse .., ?_⟩
  constructor
  case declarations_sorted => exact hsorted
  case name_ne_empty =>
    intro s hs
    obtain ⟨d, -, -, hname⟩ := mem_symbols_parse_iff.1 hs
    exact hname
  case inOneFile => exact inOneFile_parse file text mode classifier
  case line_le_stop =>
    intro s hs
    obtain ⟨d, -, hd⟩ := mem_symbols_parse hs
    exact (mem_symbolsOf.1 hd).stop_mem.1
  case stop_lt_lineCount =>
    intro s hs
    obtain ⟨d, hd, hs⟩ := mem_symbols_parse hs
    have hstop := (mem_symbolsOf.1 hs).stop_mem.2
    have hlast := Declaration.lastLine_of_mem_parse hd
    omega
  case get_sorted =>
    intro name
    exact (pairwise_line_symbols_parse file text mode classifier).filter _
  case params_declared =>
    intro s hs param hparam
    obtain ⟨d, hd, hs⟩ := mem_symbols_parse hs
    obtain ⟨⟨kind, stop, hform⟩, v, hv, hname, hv'⟩ := (mem_symbolsOf.1 hs).exists_param hparam
    have hsigil := Declaration.hasSigil_of_mem_params hd hform hparam
    refine ⟨v, mem_symbols_parse_iff.2 ⟨d, hd, mem_symbolsOf.2 hv, ?_⟩, hname, hv'⟩
    rw [hname]
    exact hsigil.ne_empty
  case imports_first =>
    intro moduleName line
    have hfirst := @Order.find?_map_eq_some_iff_isLeast _ Declaration.line
      (·.form = .importing moduleName) _ hsorted line
    simp only [decide_eq_true_eq] at hfirst
    exact mem_imports_ofDeclarations.trans hfirst

end Table

end RakuAtlas
