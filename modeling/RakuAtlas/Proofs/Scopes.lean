import RakuAtlas.Proofs.Modes

/-!
# RakuAtlas.Proofs.Scopes — the scope around a declaration

Scopes do not nest: what is around a line is decided by the one scope that was
declared last before it. Up to its last line that scope is around, and behind it
there is the top (`scope_of_mem_parse`), even where an outer block is still open.

A reading carries the scope in its context. What the context says of all lines to
come is what the declarations so far say (`Context.Follows`), which holds before
the first line and is kept by each (`Follows.enter`, `Follows.behind`).
-/

namespace RakuAtlas

open Text (Line)
open Lexical (Classifier)

/-- The name and the last line of the scope that is declared. -/
def Form.scope? : Form → Option (String × Nat)
  | .scope _ name stop => some (name, stop)
  | _ => none

theorem Form.scope?_eq_some {form : Form} {name : String} {stop : Nat} :
    form.scope? = some (name, stop) ↔ ∃ kind, form = .scope kind name stop := by
  cases form <;> simp [scope?]

namespace Declaration

/-! ## The scope declared last -/

/-- The scope that was declared last. -/
def lastScope? (ds : List Declaration) : Option (String × Nat) :=
  (ds.filterMap (·.form.scope?)).getLast?

/-- The scope that a line behind these declarations is in: the one declared last,
up to its last line. -/
def scopeBehind (ds : List Declaration) (line : Nat) : String :=
  match lastScope? ds with
  | some (name, stop) => if line ≤ stop then name else ""
  | none => ""

/-- The scope that a line is in, by the declarations on earlier lines. -/
def scopeAt (ds : List Declaration) (line : Nat) : String :=
  scopeBehind (ds.filter (·.line < line)) line

theorem lastScope?_concat (ds : List Declaration) (d : Declaration) :
    lastScope? (ds ++ [d]) = d.form.scope?.or (lastScope? ds) := by
  unfold lastScope?
  rw [List.filterMap_append, List.getLast?_append]
  cases hscope : d.form.scope? with
  | none => simp [hscope]
  | some found => simp [hscope]

theorem exists_mem_of_lastScope? {ds : List Declaration} {found : String × Nat}
    (h : lastScope? ds = some found) : ∃ s ∈ ds, s.form.scope? = some found :=
  List.mem_filterMap.1 (List.mem_of_getLast? h)

/-- Of declarations in the order of their lines, the last scope is the one on the
greatest line. -/
theorem lastScope?_of_pairwise {ds : List Declaration} {s : Declaration} {found : String × Nat}
    (hsorted : ds.Pairwise (·.line < ·.line)) (hs : s ∈ ds) (hfound : s.form.scope? = some found)
    (hlast : ∀ s' ∈ ds, s'.form.scope?.isSome → s'.line ≤ s.line) :
    lastScope? ds = some found := by
  obtain ⟨before, after, rfl⟩ := List.append_of_mem hs
  have hnone : after.filterMap (·.form.scope?) = [] := by
    rw [List.filterMap_eq_nil_iff]
    intro d hd
    rw [← Option.not_isSome_iff_eq_none]
    intro hsome
    have hlt : s.line < d.line :=
      List.rel_of_pairwise_cons (List.pairwise_append.1 hsorted).2.1 hd
    have hle := hlast d (by simp [hd]) hsome
    omega
  unfold lastScope?
  rw [List.filterMap_append, List.filterMap_cons, hfound, hnone]
  exact List.getLast?_concat

/-- Declarations on the line and behind it do not matter. -/
theorem scopeAt_append {before after : List Declaration} {line : Nat}
    (hbefore : ∀ d ∈ before, d.line < line) (hafter : ∀ d ∈ after, line ≤ d.line) :
    scopeAt (before ++ after) line = scopeBehind before line := by
  unfold scopeAt
  rw [List.filter_append, List.filter_eq_self.2, List.filter_eq_nil_iff.2, List.append_nil]
  · intro d hd
    simpa using hafter d hd
  · intro d hd
    simpa using hbefore d hd

/-! ## What a line does to the scope -/

/-- A line that declares no scope stays in its scope. -/
theorem Recognized.inSameScope {here : Cursor} {ctx next : Context} {form : Form}
    (h : Recognized here ctx form next) (hform : form.scope? = none) : next.InSameScope ctx := by
  cases h with
  | scope => cases hform
  | _ => exact ⟨rfl, rfl⟩

/-- A line that declares a scope is followed by lines in it. -/
theorem Recognized.scope_eq {here : Cursor} {ctx next : Context} {form : Form} {name : String}
    {stop : Nat} (h : Recognized here ctx form next) (hform : form.scope? = some (name, stop)) :
    next.scope = name ∧ next.scopeStop = some stop := by
  cases h with
  | scope =>
    cases hform
    exact ⟨rfl, rfl⟩
  | _ => cases hform

/-! ## Contexts -/

namespace Context

variable {ctx next : Context} {ds : List Declaration} {line : Nat}

theorem scope_enter_of_scopeStop {stop : Nat} (h : ctx.scopeStop = some stop) (line : Nat) :
    (ctx.enter line).scope = if line ≤ stop then ctx.scope else "" := by
  simp only [enter, h]
  split
  · rw [if_neg (by omega)]
  · rw [if_pos (by omega)]

/-- Entering a line does not matter to the lines behind it. -/
theorem enter_enter {later : Nat} (h : line ≤ later) :
    (ctx.enter line).enter later = ctx.enter later := by
  cases hstop : ctx.scopeStop with
  | none => simp [enter, hstop]
  | some stop =>
    by_cases hended : stop < line
    · have hlater : stop < later := Nat.lt_of_lt_of_le hended h
      simp [enter, hstop, hended, hlater]
    · simp [enter, hstop, hended]

/-- The context puts the line and all lines to come into the scopes that these
declarations put them into. -/
def Follows (ctx : Context) (ds : List Declaration) (line : Nat) : Prop :=
  ∀ later, line ≤ later → (ctx.enter later).scope = scopeBehind ds later

theorem follows_initial (line : Nat) : initial.Follows [] line := fun _ _ => rfl

theorem Follows.enter (h : ctx.Follows ds line) : (ctx.enter line).Follows ds (line + 1) := by
  intro later hlater
  rw [enter_enter (by omega)]
  exact h later (by omega)

/-- A line on which something is recognized puts the lines behind it into the
scopes that the declaration on it puts them into. -/
theorem Follows.behind {here : Cursor} {d : Declaration} (h : ctx.Follows ds line)
    (hfound : Recognized here (ctx.enter line) d.form next) :
    next.Follows (ds ++ [d]) (line + 1) := by
  intro later hlater
  unfold scopeBehind
  rw [lastScope?_concat]
  cases hscope : d.form.scope? with
  | none =>
    have hsame := (hfound.inSameScope hscope).enter later
    rw [hsame.scope_eq, h.enter later hlater]
    rfl
  | some found =>
    obtain ⟨hname, hstop⟩ := hfound.scope_eq hscope
    rw [scope_enter_of_scopeStop hstop, hname]
    rfl

end Context

/-! ## A whole text -/

/-- A reading that starts behind declarations on earlier lines, in the context that
follows them, puts everything into the scope that they and its own declarations
say. -/
theorem scope_of_mem_readFrom {mode : ParseMode} {line : Nat} {ctx : Context} {codes : List Line}
    {above : List Declaration} {d : Declaration} (hctx : ctx.Follows above line)
    (habove : ∀ a ∈ above, a.line < line) (hd : d ∈ readFrom mode line ctx codes) :
    d.scope = scopeAt (above ++ readFrom mode line ctx codes) d.line := by
  induction codes generalizing line ctx above with
  | nil => cases hd
  | cons code following ih =>
    have hlater : ∀ a ∈ above, a.line < line + 1 := fun a ha => Nat.lt_succ_of_lt (habove a ha)
    rw [readFrom_cons] at hd ⊢
    cases hfound : recognize ⟨mode, line, code, following⟩ (ctx.enter line) with
    | none =>
      rw [hfound] at hd
      exact ih hctx.enter hlater hd
    | some found =>
      rw [hfound, List.mem_append] at hd
      obtain ⟨form, next⟩ := found
      -- the declaration on this line is one of those above the following lines
      set own : Declaration := ⟨line, (ctx.enter line).scope, form⟩
      set rest := readFrom mode (line + 1) next following with hrest
      change d.scope = scopeAt (above ++ ([own] ++ rest)) d.line
      obtain hown | hbehind := hd
      · obtain rfl := List.mem_singleton.1 hown
        have hafter : ∀ a ∈ [own] ++ rest, line ≤ a.line := by
          intro a ha
          obtain hown' | hbehind := List.mem_append.1 ha
          · rw [List.mem_singleton.1 hown']
          · have := (pairwise_line_readFrom mode (line + 1) next following).2 a hbehind
            omega
        rw [scopeAt_append habove hafter]
        exact hctx line (Nat.le_refl line)
      · have hnext : next.Follows (above ++ [own]) (line + 1) :=
          hctx.behind (recognized_of_recognize hfound)
        rw [← List.append_assoc]
        refine ih hnext ?_ hbehind
        intro a ha
        obtain ha | hown := List.mem_append.1 ha
        · exact hlater a ha
        · rw [List.mem_singleton.1 hown]
          exact Nat.lt_succ_self line

theorem scope_eq_scopeAt {mode : ParseMode} {classifier : Option Classifier} {lines : List Line}
    {d : Declaration} (hd : d ∈ parse mode classifier lines) :
    d.scope = scopeAt (parse mode classifier lines) d.line :=
  scope_of_mem_readFrom (Context.follows_initial 0) (by simp) hd

/-- A scope that is around a line was declared above it and has not ended. -/
theorem exists_scope_of_scopeAt {ds : List Declaration} {line : Nat} (h : scopeAt ds line ≠ "") :
    ∃ s ∈ ds, ∃ kind stop,
      s.form = .scope kind (scopeAt ds line) stop ∧ s.line < line ∧ line ≤ stop := by
  unfold scopeAt scopeBehind at h ⊢
  cases hlast : lastScope? (ds.filter (·.line < line)) with
  | none => simp [hlast] at h
  | some found =>
    obtain ⟨name, stop⟩ := found
    obtain ⟨s, hs, hscope⟩ := exists_mem_of_lastScope? hlast
    obtain ⟨kind, hform⟩ := Form.scope?_eq_some.1 hscope
    obtain ⟨hmem, hbefore⟩ := List.mem_filter.1 hs
    by_cases hin : line ≤ stop
    · refine ⟨s, hmem, kind, stop, ?_, of_decide_eq_true hbefore, hin⟩
      simpa [hin] using hform
    · simp [hlast, hin] at h

/-- Of declarations in the order of their lines, the last scope above a line is the
only one that matters. -/
theorem scopeAt_of_last {ds : List Declaration} {s : Declaration} {line stop : Nat}
    {kind : ScopeKind} {name : String} (hsorted : ds.Pairwise (·.line < ·.line)) (hs : s ∈ ds)
    (hform : s.form = .scope kind name stop) (hbefore : s.line < line)
    (hlast : ∀ s' ∈ ds, s'.form.scope?.isSome → s'.line < line → s'.line ≤ s.line) :
    scopeAt ds line = if line ≤ stop then name else "" := by
  have hfound : lastScope? (ds.filter (·.line < line)) = some (name, stop) := by
    refine lastScope?_of_pairwise (hsorted.filter _) ?_ (Form.scope?_eq_some.2 ⟨kind, hform⟩) ?_
    · exact List.mem_filter.2 ⟨hs, decide_eq_true hbefore⟩
    · intro s' hs' hscope
      obtain ⟨hmem, hbefore'⟩ := List.mem_filter.1 hs'
      exact hlast s' hmem hscope (of_decide_eq_true hbefore')
  unfold scopeAt scopeBehind
  rw [hfound]

/-- Every declaration of a text is in the scope that was declared last on an earlier
line, if it is not behind the last line of that scope, and else at the top. So it
is in no scope that has ended, and where a scope has ended it is at the top, also
when that scope was inside another one. -/
theorem scope_of_mem_parse {mode : ParseMode} {classifier : Option Classifier} {lines : List Line}
    {d : Declaration} (hd : d ∈ parse mode classifier lines) :
    d.scope = scopeAt (parse mode classifier lines) d.line ∧
      (d.scope ≠ "" → ∃ s ∈ parse mode classifier lines, ∃ kind stop,
        s.form = .scope kind d.scope stop ∧ s.line < d.line ∧ d.line ≤ stop) ∧
      ∀ s ∈ parse mode classifier lines, ∀ kind name stop, s.form = .scope kind name stop →
        s.line < d.line → stop < d.line →
        (∀ s' ∈ parse mode classifier lines, s'.form.scope?.isSome → s'.line < d.line →
          s'.line ≤ s.line) →
        d.scope = "" := by
  have hscope := scope_eq_scopeAt hd
  refine ⟨hscope, ?_, ?_⟩
  · intro hne
    rw [hscope] at hne ⊢
    exact exists_scope_of_scopeAt hne
  · intro s hs kind name stop hform hbefore hended hlast
    rw [hscope, scopeAt_of_last (pairwise_line_parse mode classifier lines) hs hform hbefore hlast,
      if_neg (by omega)]

/-- A class inside another one, and a method of the outer class behind it. -/
def nestedClasses : List Line :=
  ["class Tree \x7b", "class Leaf \x7b", "method size() \x7b 1 \x7d", "\x7d",
    "method size() \x7b 2 \x7d", "\x7d"].map String.toList

theorem scope_of_mem_parse_nestedClasses :
    (⟨4, "", .callable .method "size" 4 []⟩ : Declaration) ∈ parse .outline none nestedClasses ∧
      scopeAt (parse .outline none nestedClasses) 4 = "" := by
  have hmem : (⟨4, "", .callable .method "size" 4 []⟩ : Declaration) ∈
      parse .outline none nestedClasses := by decide +kernel
  exact ⟨hmem, (scope_of_mem_parse hmem).1.symm⟩

end Declaration

end RakuAtlas
