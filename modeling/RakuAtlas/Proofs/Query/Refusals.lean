import RakuAtlas.Proofs.Query.Cursor
import RakuAtlas.Proofs.Query.Exactness

/-!
# RakuAtlas.Proofs.Query.Refusals — when a rename is refused

`Refuses` says why a rename is refused, by the text, the position and the new name
alone. There are three reasons: no symbol is there, the symbol is reserved, or
the new name is not accepted for it.

* `rename_eq_error_iff`: a rename is refused exactly for one of these reasons,
  before anything is searched;
* `refusal?_of_symbolIn?`: a symbol in a text is never empty, so that of the two
  reasons against a symbol only the second is left;
* `rename_refused_by_text`: so preparing a rename and renaming agree.
-/

namespace RakuAtlas.Query

open RakuAtlas.Symbol (SymbolName isReserved)

/-! ## Reasons -/

/-- A rename to the new name is refused by what is written, for this reason. -/
inductive Refuses (text : String) (pos : Pos) (newName : String) : RenameError → Prop where
  | noSymbol (h : symbolIn? text pos = none) : Refuses text pos newName .noSymbol
  | reserved {found : SymbolAt} (h : symbolIn? text pos = some found)
      (hreserved : isReserved (SymbolName.parse found.text).base) :
      Refuses text pos newName (.reserved (String.ofList found.text))
  | newName {target : SymbolAt} {e : RenameError} (h : renameTarget? text pos = some target)
      (he : normalizeNewName (String.ofList target.text) newName = .error e) :
      Refuses text pos newName e

/-- A symbol in a text is refused if it is reserved, and for no other reason:
its base is not empty. -/
theorem refusal?_of_symbolIn? {text : String} {pos : Pos} {found : SymbolAt}
    (h : symbolIn? text pos = some found) :
    refusal? found.text = if isReserved (SymbolName.parse found.text).base then
      some (.reserved (String.ofList found.text)) else none := by
  rcases exists_of_symbolIn? h with ⟨line, hit, -, hmem, rfl⟩
  have hbase : (SymbolName.parse hit.text).base.isEmpty = false :=
    List.isEmpty_eq_false_iff.2 (isName_base hmem).ne_nil
  simp [refusal?, hbase]

/-- A symbol may be renamed if it is not reserved. -/
theorem renameTarget?_eq_some_iff {text : String} {pos : Pos} {target : SymbolAt} :
    renameTarget? text pos = some target ↔
      symbolIn? text pos = some target ∧ ¬isReserved (SymbolName.parse target.text).base := by
  constructor
  · intro h
    rcases Option.bind_eq_some_iff.1 h with ⟨found, hfound, hallowed⟩
    rw [refusal?_of_symbolIn? hfound] at hallowed
    split at hallowed
    · cases hallowed
    · next hreserved =>
      cases hallowed
      exact ⟨hfound, hreserved⟩
  · rintro ⟨hfound, hreserved⟩
    simp [renameTarget?, hfound, refusal?_of_symbolIn? hfound, hreserved]

/-- Of a new name it is never said that the symbol is empty. -/
theorem normalizeNewName_ne_emptySymbol {symbol newName text : String} :
    normalizeNewName symbol newName ≠ .error (.emptySymbol text) := by
  simp only [normalizeNewName]
  split
  · simp
  · split
    · simp
    · split
      · simp
      · split <;> simp

/-! ## Refusals -/

/-- What is not refused goes through. -/
theorem exists_eq_ok_iff {ε α : Type} {x : Except ε α} : (∃ a, x = .ok a) ↔ ∀ e, x ≠ .error e := by
  cases x <;> simp

section
variable {world : World} {doc : Document} {pos : Pos} {newName : String}

theorem rename_of_symbolIn?_none [PatternLibrary] (h : symbolIn? doc.text pos = none) :
    rename world doc pos newName = .error .noSymbol := by
  simp [rename, h]

theorem rename_of_isReserved [PatternLibrary] {found : SymbolAt}
    (h : symbolIn? doc.text pos = some found)
    (hreserved : isReserved (SymbolName.parse found.text).base) :
    rename world doc pos newName = .error (.reserved (String.ofList found.text)) := by
  simp [rename, h, refusal?_of_symbolIn? h, hreserved]

/-- Once the symbol may be renamed, only the new name can be refused: the search
may find nothing, but it does not fail. -/
theorem rename_eq_error_iff_of_target [PatternLibrary] {target : SymbolAt}
    (h : renameTarget? doc.text pos = some target) {e : RenameError} :
    rename world doc pos newName = .error e ↔
      normalizeNewName (String.ofList target.text) newName = .error e := by
  rcases renameTarget?_eq_some_iff.1 h with ⟨hfound, hreserved⟩
  have hallowed : refusal? target.text = none := by
    rw [refusal?_of_symbolIn? hfound, if_neg hreserved]
  cases hnew : normalizeNewName (String.ofList target.text) newName with
  | error refused => simp [rename, hfound, hallowed, hnew, bind, Except.bind]
  | ok full =>
    have hok : ∃ edit, rename world doc pos newName = .ok edit := by
      simp only [rename, hfound, hallowed, hnew, bind, Except.bind]
      split
      · exact ⟨none, rfl⟩
      · split
        · exact ⟨none, rfl⟩
        · exact ⟨_, rfl⟩
    rcases hok with ⟨edit, hedit⟩
    simp [hedit]

/-- A rename is refused by what is written, and by nothing else. -/
theorem rename_eq_error_iff [PatternLibrary] {e : RenameError} :
    rename world doc pos newName = .error e ↔ Refuses doc.text pos newName e := by
  constructor
  · intro h
    cases hfound : symbolIn? doc.text pos with
    | none =>
      rw [rename_of_symbolIn?_none hfound] at h
      cases h
      exact .noSymbol hfound
    | some found =>
      by_cases hreserved : isReserved (SymbolName.parse found.text).base
      · rw [rename_of_isReserved hfound hreserved] at h
        cases h
        exact .reserved hfound hreserved
      · have htarget := renameTarget?_eq_some_iff.2 ⟨hfound, hreserved⟩
        exact .newName htarget ((rename_eq_error_iff_of_target htarget).1 h)
  · intro h
    cases h with
    | noSymbol hnone => exact rename_of_symbolIn?_none hnone
    | reserved hfound hreserved => exact rename_of_isReserved hfound hreserved
    | newName htarget he => exact (rename_eq_error_iff_of_target htarget).2 he

/-- If nothing may be renamed at a position, it is because there is no symbol,
or because the symbol there is reserved. -/
theorem refuses_of_renameTarget?_none {text : String} (h : renameTarget? text pos = none) :
    (symbolIn? text pos = none ∧ Refuses text pos newName .noSymbol) ∨
      ∃ found, symbolIn? text pos = some found ∧
        Refuses text pos newName (.reserved (String.ofList found.text)) := by
  cases hfound : symbolIn? text pos with
  | none => exact Or.inl ⟨rfl, .noSymbol hfound⟩
  | some found =>
    by_cases hreserved : isReserved (SymbolName.parse found.text).base
    · exact Or.inr ⟨found, rfl, .reserved hfound hreserved⟩
    · rw [renameTarget?_eq_some_iff.2 ⟨hfound, hreserved⟩] at h
      cases h

/-- No rename is refused because its symbol is empty. -/
theorem not_refuses_emptySymbol {text symbol : String} :
    ¬Refuses text pos newName (.emptySymbol symbol) := by
  intro h
  cases h with
  | newName _ he => exact normalizeNewName_ne_emptySymbol he

end

/-- Renames are refused by the text alone, and as preparing the rename
foretells. Where there is nothing to prepare, the rename is refused for want of
a symbol or because the symbol under the cursor is reserved. Where there is, it
is refused exactly if the new name is, with the same reason, and otherwise goes
through. It is never refused because of an empty symbol, and no other world or
table of the document changes the answer. -/
theorem rename_refused_by_text [PatternLibrary] (world : World) (doc : Document) (pos : Pos)
    (newName : String) :
    (renameTarget? doc.text pos = none →
        (symbolIn? doc.text pos = none ∧ rename world doc pos newName = .error .noSymbol) ∨
          ∃ found, symbolIn? doc.text pos = some found ∧
            rename world doc pos newName = .error (.reserved (String.ofList found.text))) ∧
      (∀ target, renameTarget? doc.text pos = some target →
        (∀ e, rename world doc pos newName = .error e ↔
          normalizeNewName (String.ofList target.text) newName = .error e) ∧
        ((∃ edit, rename world doc pos newName = .ok edit) ↔
          ∃ full, normalizeNewName (String.ofList target.text) newName = .ok full)) ∧
      (∀ symbol, rename world doc pos newName ≠ .error (.emptySymbol symbol)) ∧
      ∀ (other : World) (table : Table) (e : RenameError),
        rename other ⟨table, doc.text⟩ pos newName = .error e ↔
          rename world doc pos newName = .error e := by
  refine ⟨?_, ?_, ?_, ?_⟩
  · intro hnone
    simp only [rename_eq_error_iff]
    exact refuses_of_renameTarget?_none hnone
  · intro target htarget
    refine ⟨fun e => rename_eq_error_iff_of_target htarget, ?_⟩
    rw [exists_eq_ok_iff, exists_eq_ok_iff]
    exact forall_congr' fun e => not_congr (rename_eq_error_iff_of_target htarget)
  · intro symbol
    rw [Ne, rename_eq_error_iff]
    exact not_refuses_emptySymbol
  · intro other table e
    rw [rename_eq_error_iff, rename_eq_error_iff]

/-! A keyword before a variable. -/

def conditionDoc : Document := ⟨⟨⟨0⟩, [], []⟩, "if $x"⟩

/-- The keyword is reserved. The variable may be renamed, though not to an
array. -/
theorem rename_refused_condition :
    renameTarget? conditionDoc.text ⟨0, 1⟩ = none ∧
      rename soleWorld conditionDoc ⟨0, 1⟩ "foo" = .error (.reserved "if") ∧
      renameTarget? conditionDoc.text ⟨0, 4⟩ = some ⟨"$x".toList, .onLine 0 3 5⟩ ∧
      rename soleWorld conditionDoc ⟨0, 4⟩ "@x" = .error (.sigilMismatch "$x" "@x") := by
  have hkeyword : renameTarget? conditionDoc.text ⟨0, 1⟩ = none := by decide +kernel
  have hvariable : renameTarget? conditionDoc.text ⟨0, 4⟩ =
      some ⟨"$x".toList, .onLine 0 3 5⟩ := by
    decide +kernel
  have hsymbol : symbolIn? conditionDoc.text ⟨0, 1⟩ = some ⟨"if".toList, .onLine 0 0 2⟩ := by
    decide +kernel
  have hrefused : normalizeNewName (String.ofList "$x".toList) "@x" =
      .error (.sigilMismatch "$x" "@x") := by
    decide +kernel
  refine ⟨hkeyword, ?_, hvariable, ?_⟩
  · rcases (rename_refused_by_text soleWorld conditionDoc ⟨0, 1⟩ "foo").1 hkeyword with
      ⟨hnone, -⟩ | ⟨found, hfound, hrename⟩
    · rw [hsymbol] at hnone
      cases hnone
    · rw [hsymbol] at hfound
      cases hfound
      exact hrename
  · have htarget := (rename_refused_by_text soleWorld conditionDoc ⟨0, 4⟩ "@x").2.1 _ hvariable
    exact (htarget.1 _).2 hrefused

end RakuAtlas.Query
