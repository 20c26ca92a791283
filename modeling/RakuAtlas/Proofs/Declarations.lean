import RakuAtlas.Declaration.Parse
import Mathlib.Data.List.TakeWhile

/-!
# RakuAtlas.Proofs.Declarations — the declarations of a text

What holds of every text, in every mode and under every classifier:

* `Recognized`: what one line can declare, and the context behind it; every
  declaration was recognized on its line (`exists_recognize_of_mem_readFrom`);
* `pairwise_line_parse`: declarations come in strictly increasing order of
  lines, so that a line has at most one;
* `isPlainName_of_mem_parse`: the name of a callable has only word characters
  and hyphens, so that it is never qualified and has no sigil.
-/

namespace RakuAtlas

open Text

/-! ## Plain names -/

/-- A name of word characters and hyphens only. -/
def IsPlainName (name : String) : Prop := ∀ c ∈ name.toList, isNamePart c

/-- A text with a separator in it has a character of the separator in it. -/
theorem mem_of_occursIn {needle cs : List Char} {c : Char} (hc : c ∈ needle)
    (h : occursIn needle cs) : c ∈ cs := by
  induction cs with
  | nil =>
    have hnil : needle = [] := by simpa [occursIn] using h
    simp [hnil] at hc
  | cons d cs ih =>
    rw [occursIn, Bool.or_eq_true] at h
    rcases h with hhere | hlater
    · exact (List.isPrefixOf_iff_prefix.1 hhere).subset hc
    · exact List.mem_cons_of_mem d (ih hlater)

/-- A plain name is not qualified. -/
theorem IsPlainName.not_occursIn {name : String} (h : IsPlainName name) :
    occursIn "::".toList name.toList = false := by
  rw [← Bool.not_eq_true]
  intro hocc
  have hcolon : isNamePart ':' := h ':' (mem_of_occursIn (by decide) hocc)
  exact absurd hcolon (by decide)

/-! ## Headers of callables -/

namespace Header

/-- A name is made of name characters. -/
theorem isNamePart_of_name? {cs name rest : Line} (h : name? cs = some (name, rest)) :
    ∀ c ∈ name, isNamePart c := by
  unfold name? at h
  split at h
  · rcases Prod.mk.inj (Option.some.inj h) with ⟨rfl, rfl⟩
    intro c hc
    exact List.mem_takeWhile_imp hc
  · simp at h

/-- Taking hyphens off the end keeps a name plain. -/
theorem isPlainName_tidy {name : Line} (h : ∀ c ∈ name, isNamePart c) :
    IsPlainName (tidy name) := by
  intro c hc
  apply h
  simp only [tidy, dropEndWhile, String.toList_ofList, List.mem_reverse] at hc
  exact List.mem_reverse.1 ((List.dropWhile_sublist _).subset hc)

theorem isNamePart_of_callableName? {cs name rest : Line}
    (h : callableName? cs = some (name, rest)) : ∀ c ∈ name, isNamePart c := by
  simp only [callableName?, Option.bind_eq_bind, Option.bind_eq_some_iff] at h
  rcases h with ⟨⟨name', rest'⟩, hname, h⟩
  split at h
  · rcases Prod.mk.inj (Option.some.inj h) with ⟨rfl, rfl⟩
    exact isNamePart_of_name? hname
  · simp at h

/-- The name of a callable is plain. -/
theorem isPlainName_of_callable? {cs rest : Line} {kind : CallableKind} {name : String}
    (h : callable? cs = some (kind, name, rest)) : IsPlainName name := by
  unfold callable? at h
  split at h
  · next kind' name' rest' hroutine =>
    obtain ⟨rfl, rfl, rfl⟩ : kind' = kind ∧ tidy name' = name ∧ rest' = rest := by simpa using h
    simp only [routine?, Option.bind_eq_bind, Option.bind_eq_some_iff] at hroutine
    rcases hroutine with ⟨⟨keyword, after⟩, -, ⟨name'', after'⟩, hname, heq⟩
    obtain ⟨-, rfl, -⟩ : _ ∧ name'' = name' ∧ _ := by simpa using heq
    exact isPlainName_tidy (isNamePart_of_callableName? hname)
  · rcases Option.map_eq_some_iff.1 h with ⟨⟨name', rest'⟩, hcandidate, heq⟩
    obtain ⟨-, rfl, -⟩ : _ ∧ tidy name' = name ∧ _ := by simpa using heq
    simp only [candidate?, Option.bind_eq_bind, Option.bind_eq_some_iff] at hcandidate
    rcases hcandidate with ⟨⟨keyword, after⟩, -, ⟨name'', after'⟩, hname, heq⟩
    split at heq
    · simp at heq
    · rcases Prod.mk.inj (Option.some.inj heq) with ⟨rfl, rfl⟩
      exact isPlainName_tidy (isNamePart_of_callableName? hname)

end Header

namespace Declaration

/-! ## What a line declares -/

/-- Every recognizer of every mode is one of these. -/
theorem mem_of_mem_recognizers {mode : ParseMode} {r : Recognizer} (h : r ∈ recognizers mode) :
    r ∈ [Recognizer.scopes, Recognizer.callables, Recognizer.productions, Recognizer.fields,
      Recognizer.phasers, Recognizer.objects, Recognizer.varDecls, Recognizer.imports] := by
  cases mode <;> simp only [recognizers, List.mem_cons, List.not_mem_nil, or_false] at h ⊢ <;> grind

/-- What a line can declare in a context, and the context behind it. -/
inductive Recognized (here : Cursor) (ctx : Context) : Form → Context → Prop where
  | scope {kind : ScopeKind} {name : String} (h : Header.scope? here.code = some (kind, name)) :
      Recognized here ctx
        (.scope kind name (here.line + Block.scopeLength here.code here.following))
        { ctx with
          scope := name, scopeStop := some (here.line + Block.scopeLength here.code here.following) }
  | callable {kind : CallableKind} {name : String} {rest : Line}
      (h : Header.callable? here.code = some (kind, name, rest)) :
      Recognized here ctx
        (.callable kind name here.blockStop (Variable.params rest here.code here.following))
        { ctx with goesOn := !Variable.endsSignature here.code }
  | production {kind : ProductionKind} {name : String}
      (h : Header.production? here.code = some (kind, name)) :
      Recognized here ctx (.production kind name here.blockStop) ctx
  | field {name : String} (h : Header.field? here.code = some name) :
      Recognized here ctx (.field name) ctx
  | phaser {name : String} (h : Header.phaser? here.code = some name) :
      Recognized here ctx (.phaser name here.blockStop) ctx
  | object {name typeName : String} (h : Header.object? here.code = some (name, typeName)) :
      Recognized here ctx (.varDecl [name] (some typeName)) { ctx with goesOn := false }
  | varDecl (h : ctx.goesOn || (Variable.afterDeclarator? here.code).isSome) :
      Recognized here ctx (.varDecl (Variable.declared here.code) none)
        { ctx with goesOn := Variable.goesOn here.code }
  /-- Variables of a loop, a condition, a pointy block or a `catch`. -/
  | introduced (h : Variable.introduced here.code ≠ []) :
      Recognized here ctx (.varDecl (Variable.introduced here.code) none)
        { ctx with goesOn := false }
  | importing {name : String} (h : Header.import? here.code = some name) :
      Recognized here ctx (.importing name) ctx

theorem recognized_of_recognize {here : Cursor} {ctx next : Context} {form : Form}
    (h : recognize here ctx = some (form, next)) : Recognized here ctx form next := by
  unfold recognize at h
  split at h
  · cases h
  obtain ⟨r, hr, hform⟩ := List.exists_of_findSome?_eq_some h
  have hall := mem_of_mem_recognizers hr
  simp only [List.mem_cons, List.not_mem_nil, or_false] at hall
  rcases hall with rfl | rfl | rfl | rfl | rfl | rfl | rfl | rfl
  · simp only [Recognizer.scopes, Option.bind_eq_bind, Option.bind_eq_some_iff] at hform
    obtain ⟨⟨kind, name⟩, hheader, heq⟩ := hform
    cases heq
    exact .scope hheader
  · simp only [Recognizer.callables, Option.bind_eq_bind, Option.bind_eq_some_iff] at hform
    obtain ⟨⟨kind, name, rest⟩, hheader, heq⟩ := hform
    cases heq
    exact .callable hheader
  · simp only [Recognizer.productions, Option.bind_eq_bind, Option.bind_eq_some_iff] at hform
    obtain ⟨⟨kind, name⟩, hheader, heq⟩ := hform
    cases heq
    exact .production hheader
  · simp only [Recognizer.fields, Option.bind_eq_bind, Option.bind_eq_some_iff] at hform
    obtain ⟨name, hheader, heq⟩ := hform
    cases heq
    exact .field hheader
  · simp only [Recognizer.phasers, Option.bind_eq_bind, Option.bind_eq_some_iff] at hform
    obtain ⟨name, hheader, heq⟩ := hform
    cases heq
    exact .phaser hheader
  · simp only [Recognizer.objects, Option.bind_eq_bind, Option.bind_eq_some_iff] at hform
    obtain ⟨⟨name, typeName⟩, hheader, heq⟩ := hform
    cases heq
    exact .object hheader
  · unfold Recognizer.varDecls at hform
    split at hform
    · next hdeclares =>
      cases hform
      exact .varDecl hdeclares
    · split at hform
      · cases hform
      · next hne =>
        cases hform
        exact .introduced hne
  · simp only [Recognizer.imports, Option.bind_eq_bind, Option.bind_eq_some_iff] at hform
    obtain ⟨name, hheader, heq⟩ := hform
    cases heq
    exact .importing hheader

/-! ## Reading lines -/

/-- The declaration of a line on which `found` was recognized. -/
def declared (line : Nat) (ctx : Context) (found : Option (Form × Context)) : List Declaration :=
  (found.map fun (form, _) => ⟨line, ctx.scope, form⟩).toList

/-- The context behind a line on which `found` was recognized. -/
def Context.behind (ctx : Context) (found : Option (Form × Context)) : Context :=
  (found.map Prod.snd).getD ctx

/-- One step of reading: what the first line declares comes first, and the
following lines are read from the context behind it. -/
theorem readFrom_cons (mode : ParseMode) (line : Nat) (ctx : Context) (code : Line)
    (following : List Line) :
    readFrom mode line ctx (code :: following) =
      declared line (ctx.enter line) (recognize ⟨mode, line, code, following⟩ (ctx.enter line)) ++
        readFrom mode (line + 1)
          ((ctx.enter line).behind (recognize ⟨mode, line, code, following⟩ (ctx.enter line)))
          following := by
  rw [readFrom]
  cases recognize ⟨mode, line, code, following⟩ (ctx.enter line) with
  | none => rfl
  | some found => rfl

/-- Declarations are on the lines that were read, each on one of its own. -/
theorem pairwise_line_readFrom (mode : ParseMode) (line : Nat) (ctx : Context)
    (codes : List Line) :
    (readFrom mode line ctx codes).Pairwise (·.line < ·.line) ∧
      ∀ d ∈ readFrom mode line ctx codes, line ≤ d.line := by
  induction codes generalizing line ctx with
  | nil => simp [readFrom]
  | cons code following ih =>
    rw [readFrom_cons]
    cases recognize ⟨mode, line, code, following⟩ (ctx.enter line) with
    | none =>
      rcases ih (line + 1) (ctx.enter line) with ⟨hsorted, hlater⟩
      refine ⟨hsorted, fun d hd => ?_⟩
      have := hlater d hd
      omega
    | some found =>
      rcases ih (line + 1) found.2 with ⟨hsorted, hlater⟩
      refine ⟨List.pairwise_cons.2 ⟨fun d hd => hlater d hd, hsorted⟩, fun d hd => ?_⟩
      rcases List.mem_cons.1 hd with rfl | hd
      · exact Nat.le_refl line
      · have := hlater d hd
        omega

/-- The declarations of a text come in strictly increasing order of lines. -/
theorem pairwise_line_parse (mode : ParseMode) (classifier : Option Lexical.Classifier)
    (lines : List Line) : (parse mode classifier lines).Pairwise (·.line < ·.line) :=
  (pairwise_line_readFrom mode 0 .initial _).1

/-- Every declaration was recognized on its line, with the lines behind that one and
in a context of which all holds that contexts keep from line to line. -/
theorem exists_recognize_of_invariant {Inv : Context → Prop}
    (henter : ∀ {ctx} line, Inv ctx → Inv (ctx.enter line))
    (hstep : ∀ {here ctx form next}, Inv ctx → Recognized here ctx form next → Inv next)
    {mode : ParseMode} {line : Nat} {ctx : Context} {codes : List Line} {d : Declaration}
    (hctx : Inv ctx) (hd : d ∈ readFrom mode line ctx codes) :
    ∃ above code following before next, codes = above ++ code :: following ∧
      d.line = line + above.length ∧ d.scope = before.scope ∧ Inv before ∧
      recognize ⟨mode, d.line, code, following⟩ before = some (d.form, next) := by
  induction codes generalizing line ctx with
  | nil => cases hd
  | cons code following ih =>
    have hhere := henter line hctx
    rw [readFrom_cons, List.mem_append] at hd
    obtain hown | hlater := hd
    · cases hfound : recognize ⟨mode, line, code, following⟩ (ctx.enter line) with
      | none =>
        rw [hfound] at hown
        cases hown
      | some found =>
        rw [hfound] at hown
        obtain rfl := List.mem_singleton.1 hown
        exact ⟨[], code, following, ctx.enter line, found.2, rfl, rfl, rfl, hhere, hfound⟩
    · have hbehind : Inv ((ctx.enter line).behind
          (recognize ⟨mode, line, code, following⟩ (ctx.enter line))) := by
        cases hfound : recognize ⟨mode, line, code, following⟩ (ctx.enter line) with
        | none => exact hhere
        | some found => exact hstep hhere (recognized_of_recognize hfound)
      obtain ⟨above, code', following', before, next, rfl, hline, hrest⟩ := ih hbehind hlater
      refine ⟨code :: above, code', following', before, next, rfl, ?_, hrest⟩
      rw [hline, List.length_cons]
      omega

theorem exists_recognize_of_mem_readFrom {mode : ParseMode} {line : Nat} {ctx : Context}
    {codes : List Line} {d : Declaration} (hd : d ∈ readFrom mode line ctx codes) :
    ∃ above code following before next, codes = above ++ code :: following ∧
      d.line = line + above.length ∧
      recognize ⟨mode, d.line, code, following⟩ before = some (d.form, next) := by
  obtain ⟨above, code, following, before, next, hcodes, hline, -, -, hfound⟩ :=
    @exists_recognize_of_invariant (fun _ => True) (fun _ _ => trivial) (fun _ _ => trivial)
      mode line ctx codes d trivial hd
  exact ⟨above, code, following, before, next, hcodes, hline, hfound⟩

/-- The callables of a text have plain names. -/
theorem isPlainName_of_mem_parse {mode : ParseMode} {classifier : Option Lexical.Classifier}
    {lines : List Line} {d : Declaration} {kind : CallableKind} {name : String} {stop : Nat}
    {params : List String} (hd : d ∈ parse mode classifier lines)
    (hform : d.form = .callable kind name stop params) : IsPlainName name := by
  obtain ⟨above, code, following, before, next, -, -, hfound⟩ :=
    exists_recognize_of_mem_readFrom hd
  rw [hform] at hfound
  cases recognized_of_recognize hfound with
  | callable hheader => exact Header.isPlainName_of_callable? hheader

end Declaration

end RakuAtlas
