import RakuAtlas.Proofs.Query.Names
import RakuAtlas.Proofs.Query.Resolution
import RakuAtlas.Proofs.Sigils

/-!
# RakuAtlas.Proofs.Query.Declared — declarations and the symbols they answer

The name and the line of a declaration are tied to the symbol that resolves to
it, whatever text the document has now:

* `Scopes.name_of_resolve`: the declaration of a plain symbol has the symbol for
  its name, or its last part;
* `Scopes.line_le_of_resolve`: a variable is declared at or before the line on
  which it is used. No tier but the document knows variables, and a module is at
  the top of its file.
-/

namespace RakuAtlas

open RakuAtlas.Symbol (SymbolName)
open RakuAtlas.Symbol.SymbolName.splitQualified? (splitLast?)

theorem HasNoSigil.hasSigil_parse {name : String} (h : HasNoSigil name) :
    (SymbolName.parse name.toList).hasSigil = false := by
  rw [Query.parse_of_head h]
  rfl

namespace Scopes

/-- The nearest declaration is not behind the line. -/
theorem line_le_of_nearest? {symbols : List Symbol} {line : Nat} {s : Symbol}
    (h : nearest? symbols line = some s) : s.line ≤ line := by
  unfold nearest? at h
  refine List.foldlRecOn symbols _ (motive := fun best => ∀ s, best = some s → s.line ≤ line)
    ?_ ?_ s h
  · intro s hs
    cases hs
  · intro best hbest t _ s hs
    split at hs
    · exact hbest s hs
    · next hline =>
      split at hs
      · split at hs
        · cases hs
          exact Nat.not_lt.1 hline
        · exact hbest s hs
      · cases hs
        exact Nat.not_lt.1 hline

/-- No module that looks like a variable is imported, and one that was discovered
is at the top of its file. -/
theorem line_eq_zero_of_mem_moduleNamed {scopes : Scopes} {symbol : String} {s : Symbol}
    (himports : ∀ entry ∈ scopes.table.imports, HasNoSigil entry.1) (hsigil : ¬HasNoSigil symbol)
    (h : s ∈ scopes.moduleNamed symbol) : s.line = 0 := by
  unfold moduleNamed at h
  split at h
  · next found hfound =>
    rcases Option.bind_eq_some_iff.1 hfound with ⟨modules, -, hmodule⟩
    rcases Option.map_eq_some_iff.1 hmodule with ⟨file, -, rfl⟩
    rw [List.mem_singleton.1 h]
    rfl
  · split at h
    · next line himport =>
      rcases Option.map_eq_some_iff.1 himport with ⟨entry, hentry, -⟩
      have hname := List.find?_some hentry
      rw [← eq_of_beq hname] at hsigil
      exact absurd (himports entry (List.mem_of_find?_eq_some hentry)) hsigil
    · cases h

/-- A variable is declared at or before the line on which it is used. -/
theorem line_le_of_resolve {scopes : Scopes} {history : List Index.Change}
    (hindex : scopes.index = some (Index.run history))
    (himports : ∀ entry ∈ scopes.table.imports, HasNoSigil entry.1) {symbol : String} {line : Nat}
    (hsigil : (SymbolName.parse symbol.toList).hasSigil) {s : Symbol}
    (h : (scopes.resolve symbol line).primary? = some s) : s.line ≤ line := by
  have hvariable : ¬HasNoSigil symbol := by
    intro hno
    rw [hno.hasSigil_parse] at hsigil
    cases hsigil
  unfold resolve at h
  split at h
  · cases h
  · simp only [hindex] at h
    rcases Query.primary?_ofList h with hdocument | h
    · exact line_le_of_nearest? (Option.mem_toList.1 hdocument)
    · rcases Query.primary?_ofList h with hmodule | h
      · rw [line_eq_zero_of_mem_moduleNamed himports hvariable hmodule]
        exact Nat.zero_le _
      · rcases Query.primary?_ofList h with hworkspace | h
        · exact absurd (Index.hasNoSigil_of_mem_find hworkspace) hvariable
        · cases h

/-- The declaration of a plain symbol has the symbol for its name, or what is
behind the last `::` of the symbol. -/
theorem name_of_resolve {scopes : Scopes} {history : List Index.Change}
    (hindex : scopes.index = some (Index.run history)) {symbol : String} {line : Nat}
    (hplain : (SymbolName.parse symbol.toList).hasSigil = false) {s : Symbol}
    (h : (scopes.resolve symbol line).primary? = some s) :
    s.name = symbol ∨ ∃ scope, splitLast? symbol.toList = some (scope, s.name.toList) := by
  unfold resolve at h
  split at h
  · cases h
  · simp only [hplain, Bool.false_eq_true, if_false, hindex] at h
    rcases Query.primary?_ofList h with hdocument | h
    · unfold localOthers at hdocument
      split at hdocument
      · next hget =>
        rw [← hget] at hdocument
        exact Or.inl (Query.name_of_mem_get hdocument)
      · split at hdocument
        · next scope name hsplit =>
          rw [SymbolName.splitQualified?, Query.base_parse_of_not_hasSigil hplain] at hsplit
          rw [Query.name_of_mem_get (List.mem_filter.1 hdocument).1, String.toList_ofList]
          exact Or.inr ⟨scope, hsplit⟩
        · cases hdocument
    · rcases Query.primary?_ofList h with hmodule | h
      · exact Or.inl (Query.name_of_mem_moduleNamed hmodule)
      · rcases Query.primary?_ofList h with hworkspace | h
        · exact Index.name_of_mem_find hworkspace
        · cases h

end Scopes

end RakuAtlas
