import RakuAtlas.Proofs.Tables
import RakuAtlas.Symbol.Resolve

/-!
# RakuAtlas.Proofs.Query.Resolution — where declarations come from

The declarations of a symbol come from the table of the document, from the
modules or from the index (`Scopes.mem_resolve`). Those that the document itself
gives, its imports included, are in the file of its table.
-/

namespace RakuAtlas

theorem Resolution.mem_ofList {tier : Tier} {symbols : List Symbol} {next : Resolution} {s : Symbol}
    (h : s ∈ (Resolution.ofList tier symbols next).symbols) : s ∈ symbols ∨ s ∈ next.symbols := by
  cases symbols with
  | nil => exact Or.inr h
  | cons first others => exact Or.inl h

namespace Scopes

theorem mem_of_nearest? {symbols : List Symbol} {line : Nat} {s : Symbol}
    (h : nearest? symbols line = some s) : s ∈ symbols := by
  unfold nearest? at h
  -- what is nearest so far is one of the symbols
  refine List.foldlRecOn symbols _ (motive := fun best => ∀ s, best = some s → s ∈ symbols)
    ?_ ?_ s h
  · intro s hs
    cases hs
  · intro best hbest t ht s hs
    split at hs
    · exact hbest s hs
    · split at hs
      · split at hs
        · cases hs
          exact ht
        · exact hbest s hs
      · cases hs
        exact ht

theorem mem_of_mem_localOthers {scopes : Scopes} {symbol : String} {s : Symbol}
    (h : s ∈ scopes.localOthers symbol) : s ∈ scopes.table.symbols := by
  unfold localOthers at h
  split at h
  · next hget =>
    rw [← hget] at h
    exact (List.mem_filter.1 h).1
  · split at h
    · exact (List.mem_filter.1 (List.mem_filter.1 h).1).1
    · cases h

/-- A module is one that was found, or an import of the document. -/
theorem mem_moduleNamed {scopes : Scopes} {symbol : String} {s : Symbol}
    (h : s ∈ scopes.moduleNamed symbol) :
    s.file = scopes.table.file ∨ ∃ modules ∈ scopes.modules, modules.symbol? symbol = some s := by
  unfold moduleNamed at h
  split at h
  · next found hfound =>
    rcases Option.bind_eq_some_iff.1 hfound with ⟨modules, hmodules, hmodule⟩
    rw [List.mem_singleton.1 h]
    exact Or.inr ⟨modules, hmodules, hmodule⟩
  · split at h
    · rw [List.mem_singleton.1 h]
      exact Or.inl rfl
    · cases h

/-- A declaration is in the file of the table, or is a module that was found, or
comes from the index. -/
theorem mem_resolve {scopes : Scopes} (htable : scopes.table.InOneFile) {symbol : String}
    {line : Nat} {s : Symbol} (h : s ∈ (scopes.resolve symbol line).symbols) :
    s.file = scopes.table.file ∨
      (∃ modules ∈ scopes.modules, modules.symbol? symbol = some s) ∨
      ∃ index ∈ scopes.index, s ∈ index.find symbol := by
  unfold resolve at h
  split at h
  · cases h
  · -- each tier in its turn
    rcases Resolution.mem_ofList h with hdocument | h
    · refine Or.inl (htable s ?_)
      split at hdocument
      · exact (List.mem_filter.1 (mem_of_nearest? (Option.mem_toList.1 hdocument))).1
      · exact mem_of_mem_localOthers hdocument
    · rcases Resolution.mem_ofList h with hmodule | h
      · rcases mem_moduleNamed hmodule with hown | hfound
        · exact Or.inl hown
        · exact Or.inr (Or.inl hfound)
      · rcases Resolution.mem_ofList h with hworkspace | h
        · split at hworkspace
          · next index hindex => exact Or.inr (Or.inr ⟨index, hindex, hworkspace⟩)
          · cases hworkspace
        · cases h

end Scopes

end RakuAtlas
