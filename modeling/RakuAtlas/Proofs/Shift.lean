import RakuAtlas.Proofs.Causality

/-!
# RakuAtlas.Proofs.Shift — where a text begins does not matter

Empty lines in front of a text move what it declares by as many lines and change nothing
else (`parse_replicate_append`). Lines are counted from the top, but all that a recognizer
measures it counts from its own line (`recognize_shift`), and a context that is moved with
the line is left at the moved line (`Context.enter_shift`). An empty line declares nothing
and leaves the first context as it is (`readFrom_replicate_append`).
-/

namespace RakuAtlas

open Text (Line)
open Lexical (Classifier LineState)

/-- The form with its block `k` lines further down. -/
def Form.shift (k : Nat) : Form → Form
  | .scope kind name stop => .scope kind name (stop + k)
  | .callable kind name stop params => .callable kind name (stop + k) params
  | .production kind name stop => .production kind name (stop + k)
  | .phaser name stop => .phaser name (stop + k)
  | form => form

theorem Form.shift_of_not_hasBlock {form : Form} (h : form.hasBlock = false) (k : Nat) :
    form.shift k = form := by
  cases form with
  | field | varDecl | importing => rfl
  | _ => cases h

namespace Declaration

/-- The declaration `k` lines further down. -/
def shift (k : Nat) (d : Declaration) : Declaration :=
  { d with line := d.line + k, form := d.form.shift k }

/-- The context with its scope `k` lines further down. -/
def Context.shift (k : Nat) (ctx : Context) : Context :=
  { ctx with scopeStop := ctx.scopeStop.map (· + k) }

variable {mode : ParseMode}

/-! ## One line -/

/-- A scope ends before a line as it does when both are further down. -/
theorem Context.enter_shift (k : Nat) (ctx : Context) (line : Nat) :
    (ctx.shift k).enter (line + k) = (ctx.enter line).shift k := by
  rcases ctx with ⟨scope, scopeStop, goesOn⟩
  cases scopeStop with
  | none => rfl
  | some stop =>
    by_cases hended : stop < line
    · simp [shift, enter, hended]
    · simp [shift, enter, hended]

theorem Cursor.blockStop_shift (line k : Nat) (code : Line) (following : List Line) :
    (⟨mode, line + k, code, following⟩ : Cursor).blockStop =
      (⟨mode, line, code, following⟩ : Cursor).blockStop + k := by
  simp only [blockStop]
  split
  · omega
  · rfl

theorem Cursor.scopeStop_shift (line k : Nat) (code : Line) (following : List Line) :
    (⟨mode, line + k, code, following⟩ : Cursor).scopeStop =
      (⟨mode, line, code, following⟩ : Cursor).scopeStop + k := by
  simp only [scopeStop]
  omega

/-- What is recognized further down, in a context further down, is the same further down. -/
theorem FoundAlike.eq_shift {line k : Nat} {code : Line} {following : List Line} {ctx : Context}
    {found found' : Form × Context}
    (h : FoundAlike ⟨mode, line, code, following⟩ ⟨mode, line + k, code, following⟩ ctx
      (ctx.shift k) found found') :
    found' = (found.1.shift k, found.2.shift k) := by
  cases h with
  | scope kind name =>
    rw [Cursor.scopeStop_shift]
    rfl
  | callable kind name rest goesOn =>
    rw [Cursor.blockStop_shift]
    rfl
  | production kind name =>
    rw [Cursor.blockStop_shift]
    rfl
  | phaser name =>
    rw [Cursor.blockStop_shift]
    rfl
  | plain goesOn hform =>
    rw [Form.shift_of_not_hasBlock hform]
    rfl

theorem recognize_shift (line k : Nat) (code : Line) (following : List Line) (ctx : Context) :
    recognize ⟨mode, line + k, code, following⟩ (ctx.shift k) =
      (recognize ⟨mode, line, code, following⟩ ctx).map
        fun found => (found.1.shift k, found.2.shift k) := by
  have halike :=
    @recognize_alike mode line (line + k) code following following ctx (ctx.shift k) rfl
  generalize recognize ⟨mode, line, code, following⟩ ctx = found,
    recognize ⟨mode, line + k, code, following⟩ (ctx.shift k) = found' at halike
  cases halike with
  | none => rfl
  | some hfound =>
    rw [hfound.eq_shift]
    rfl

/-! ## All lines -/

theorem readFrom_shift (line k : Nat) (ctx : Context) (codes : List Line) :
    readFrom mode (line + k) (ctx.shift k) codes =
      (readFrom mode line ctx codes).map (shift k) := by
  induction codes generalizing line ctx with
  | nil => rfl
  | cons code following ih =>
    have hnext : line + k + 1 = line + 1 + k := by omega
    rw [readFrom_cons, readFrom_cons, Context.enter_shift, recognize_shift, List.map_append, hnext]
    cases recognize ⟨mode, line, code, following⟩ (ctx.enter line) with
    | none => exact congrArg _ (ih (line + 1) (ctx.enter line))
    | some found => exact congrArg _ (ih (line + 1) found.2)

/-- Empty lines at the top are passed over. -/
theorem readFrom_replicate_append (line k : Nat) (codes : List Line) :
    readFrom mode line .initial (List.replicate k [] ++ codes) =
      readFrom mode (line + k) .initial codes := by
  induction k generalizing line with
  | zero => rfl
  | succ k ih =>
    have hnext : line + (k + 1) = line + 1 + k := by omega
    rw [List.replicate_succ, List.cons_append, hnext, ← ih (line + 1), readFrom]
    rfl

end Declaration

namespace Lexical

/-- An empty line of code leaves the next line in code. -/
theorem classify_initial_nil : classify .initial [] = ([], .initial) := by
  simp [classify, LineState.initial, podDirective?, Text.trimStart, classifyCode,
    LineState.afterCode]

theorem skeletonsFrom_replicate_append (k : Nat) (lines : List Line) :
    skeletonsFrom .initial (List.replicate k [] ++ lines) =
      List.replicate k [] ++ skeletonsFrom .initial lines := by
  induction k with
  | zero => rfl
  | succ k ih =>
    rw [List.replicate_succ, List.cons_append, skeletonsFrom, classify_initial_nil, ih]
    rfl

end Lexical

namespace Declaration

/-- Empty lines at the top are read as such, and the others as they are without them. -/
theorem prepare_replicate_append (mode : ParseMode) {classifier : Option Classifier}
    (hbuiltin : classifier = none ∨ classifier = some .raku) (k : Nat) (lines : List Line) :
    prepare mode classifier (List.replicate k [] ++ lines) =
      List.replicate k [] ++ prepare mode classifier lines := by
  have hraw : (List.replicate k [] ++ lines).map Text.trim =
      List.replicate k [] ++ lines.map Text.trim := by
    rw [List.map_append, List.map_replicate]
    rfl
  by_cases hmode : mode = .refinement
  · subst hmode
    exact hraw
  · obtain rfl | rfl := hbuiltin
    · simpa [prepare] using hraw
    · rw [prepare_raku hmode, prepare_raku hmode, Lexical.skeletonsFrom_replicate_append]

/-- Empty lines in front of a text move all that it declares down by as many lines. -/
theorem parse_replicate_append (mode : ParseMode) {classifier : Option Classifier}
    (hbuiltin : classifier = none ∨ classifier = some .raku) (k : Nat) (lines : List Line) :
    parse mode classifier (List.replicate k [] ++ lines) =
      (parse mode classifier lines).map (shift k) := by
  have hdown := @readFrom_shift mode 0 k .initial (prepare mode classifier lines)
  rw [parse, parse, prepare_replicate_append mode hbuiltin, readFrom_replicate_append]
  exact hdown

/-- A scope without a block, which goes on to the end of the text, and a sibling whose
block is never closed. -/
def unclosedScopes : List Line :=
  ["unit module Forest;", "sub plant(", "$seed) \x7b \x7d", "class Tree \x7b"].map String.toList

theorem parse_replicate_append_unclosed :
    (some Classifier.raku = none ∨ some Classifier.raku = some .raku) ∧
      parse .outline (some .raku) (List.replicate 3 [] ++ unclosedScopes) =
        (parse .outline (some .raku) unclosedScopes).map (shift 3) :=
  ⟨Or.inr rfl, parse_replicate_append .outline (Or.inr rfl) 3 unclosedScopes⟩

end Declaration

end RakuAtlas
