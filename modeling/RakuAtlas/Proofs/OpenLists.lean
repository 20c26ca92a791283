import RakuAtlas.Proofs.Causality
import RakuAtlas.Proofs.Parameters.Signature

/-!
# RakuAtlas.Proofs.OpenLists — where a list that goes on was left open

On a line without a declarator variables are declared if a list of variables or parameters
goes on there. Such a list was left open further up, by a callable or by variables, on a line
without braces and closing parentheses that does not end in a semicolon
(`leftOpen_of_mem_parse`).

That line need not be the nearest one above. A scope, a production, a field and a phaser hand
on the context that they find, and with it an open list, although their own lines are
finished (`not_leavesListOpen_nearest`). An object does not: it closes the list.

What a line does to the list is `Recognized.goesOn_cases`, and from it follows what a reading
of several lines does (`leftOpen_of_readOver`).
-/

namespace RakuAtlas

open Text
open Lexical (Classifier)

/-! ## Lines -/

/-- The line leaves a list open: no brace and no closing parenthesis is on it, and it does
not end in a semicolon. -/
structure LeavesListOpen (code : Line) : Prop where
  no_bracket : ∀ c ∈ code, c ≠ '\x7b' ∧ c ≠ '\x7d' ∧ c ≠ ')'
  no_stop : code.getLast? ≠ some ';'

namespace Variable

theorem leavesListOpen_of_not_endsSignature {code : Line} (h : endsSignature code = false) :
    LeavesListOpen code := by
  rw [endsSignature, Bool.or_eq_false_iff, List.any_eq_false] at h
  constructor
  · intro c hc
    have hno := h.2 c hc
    simp only [Bool.or_eq_true, decide_eq_true_eq, not_or] at hno
    exact ⟨hno.2, hno.1.2, hno.1.1⟩
  · simpa [Block.endsStatement] using h.1

theorem leavesListOpen_of_goesOn {code : Line} (h : goesOn code) : LeavesListOpen code := by
  rw [goesOn, Bool.not_eq_true', List.any_eq_false] at h
  have hno : ∀ c ∈ code, c ≠ '\x7b' ∧ c ≠ '\x7d' ∧ c ≠ ')' ∧ c ≠ ';' := by
    intro c hc
    have hc := h c hc
    simp only [Bool.or_eq_true, decide_eq_true_eq, not_or] at hc
    exact ⟨hc.1.2, hc.1.1.2, hc.1.1.1.1, hc.2⟩
  constructor
  · intro c hc
    obtain ⟨hopen, hclose, hparen, -⟩ := hno c hc
    exact ⟨hopen, hclose, hparen⟩
  · intro hlast
    exact (hno ';' (List.mem_of_getLast? hlast)).2.2.2 rfl

/-- Whether variables are declared on the line also where no list goes on. -/
def declaresAlone (code : Line) : Bool :=
  (afterDeclarator? code).isSome || !(introduced code).isEmpty

/-- No word goes on with a blank. -/
theorem atWordEnd_of_afterBlanks? {cs rest : Line} (h : afterBlanks? cs = some rest) :
    atWordEnd cs := by
  unfold afterBlanks? at h
  cases cs with
  | nil => rfl
  | cons c more =>
    have hblank : Unicode.isBlank c := by
      by_contra hno
      simp [hno] at h
    have hword : ¬Unicode.isWord c := by
      intro hword
      rw [not_isBlank_of_isWord hword] at hblank
      cases hblank
    simp [atWordEnd, hword]

/-- A declarator with blanks behind it is a declarator. -/
theorem isSome_afterDeclarator? {code : Line} {found : String × Line}
    (h : afterOneOf? Header.declarators code = some found) : (afterDeclarator? code).isSome := by
  obtain ⟨word, hword, hafter⟩ := List.exists_of_findSome?_eq_some h
  simp only [Option.bind_eq_bind, Option.bind_eq_some_iff] at hafter
  obtain ⟨behind, hbehind, blanks, hblanks, -⟩ := hafter
  have hmem : word ∈ ["my", "our", "let", "state"] := by
    simp only [Header.declarators, List.mem_cons, List.not_mem_nil, or_false] at hword ⊢
    tauto
  have hsome : (["my", "our", "let", "state"].findSome? fun word => do
      let rest ← afterWord? word code
      if atWordEnd rest then some rest else none).isSome := by
    rw [List.findSome?_isSome_iff]
    refine ⟨word, hmem, ?_⟩
    simp [hbehind, atWordEnd_of_afterBlanks? hblanks]
  unfold afterDeclarator?
  obtain ⟨rest, hrest⟩ := Option.isSome_iff_exists.1 hsome
  rw [hrest]
  rfl

/-- An object has a declarator. -/
theorem isSome_afterDeclarator?_of_object? {code : Line} {found : String × String}
    (h : Header.object? code = some found) : (afterDeclarator? code).isSome := by
  unfold Header.object? at h
  rcases Option.or_eq_some_iff.1 h with hconstructed | ⟨-, htyped⟩
  · simp only [Header.constructed?, Option.bind_eq_bind, Option.bind_eq_some_iff] at hconstructed
    obtain ⟨declarator, hdeclarator, -⟩ := hconstructed
    exact isSome_afterDeclarator? hdeclarator
  · simp only [Header.typed?, Option.bind_eq_bind, Option.bind_eq_some_iff] at htyped
    obtain ⟨declarator, hdeclarator, -⟩ := htyped
    exact isSome_afterDeclarator? hdeclarator

end Variable

/-! ## Forms -/

namespace Form

/-- Whether this hands an open list on to the next line. -/
def handsListOn : Form → Bool
  | .scope .. | .production .. | .field _ | .phaser .. => true
  | _ => false

/-- Whether this can leave a list open: a callable, or variables but for an object. -/
def opensList : Form → Bool
  | .callable .. | .varDecl _ none => true
  | _ => false

end Form

namespace Declaration

/-! ## One line -/

/-- Behind a line a list is open if the line leaves one open, or if it hands one on. -/
theorem Recognized.goesOn_cases {here : Cursor} {ctx next : Context} {form : Form}
    (h : Recognized here ctx form next) (hnext : next.goesOn) :
    form.opensList ∧ LeavesListOpen here.code ∨
      ctx.goesOn ∧ (form.handsListOn ∨ form.isImport) := by
  cases h with
  | scope | production | field | phaser => exact .inr ⟨hnext, .inl rfl⟩
  | importing => exact .inr ⟨hnext, .inr rfl⟩
  | callable =>
    have hends := Bool.not_eq_true' _ ▸ hnext
    exact .inl ⟨rfl, Variable.leavesListOpen_of_not_endsSignature hends⟩
  | varDecl => exact .inl ⟨rfl, Variable.leavesListOpen_of_goesOn hnext⟩
  | object | introduced => cases hnext

variable {line : Nat} {code : Line} {following : List Line} {ctx : Context}

/-- Imports are found by the last recognizer of navigation only. -/
theorem isImport_of_mem {next : Context} {form : Form} {r : Recognizer}
    (hr : r ∈ structural ++ [Recognizer.objects, Recognizer.varDecls])
    (h : r ⟨.navigation, line, code, following⟩ ctx = some (form, next)) :
    form.isImport = false := by
  rcases List.mem_append.1 hr with hstructural | hvariables
  · have hrel := @rel_of_mem_structural r hstructural line code following ctx ctx ⟨rfl, rfl⟩
    generalize r ⟨.outline, line, code, following⟩ ctx = outline at hrel
    rw [h] at hrel
    cases hrel with
    | some hmatches =>
      obtain ⟨hform, houtline, -⟩ : form = _ ∧ _ := hmatches
      apply Form.isImport_of_isStructural
      rw [hform, Form.isStructural_unmeasured, houtline]
  · exact (inSameScope_of_variables hvariables h).2.1

/-- In navigation a list that goes on takes every line that nothing before it takes, so that
imports are not asked for. -/
theorem exists_recognize_of_goesOn (hctx : ctx.goesOn) (hcode : code ≠ []) :
    ∃ form next, recognize ⟨.navigation, line, code, following⟩ ctx = some (form, next) ∧
      form.isImport = false := by
  set here : Cursor := ⟨.navigation, line, code, following⟩ with hhere
  set front : List Recognizer := structural ++ [Recognizer.objects, Recognizer.varDecls] with hfront
  have hlist : (Recognizer.varDecls here ctx).isSome := by
    simp [Recognizer.varDecls, hctx]
  have hsome : (tryAll here ctx front).isSome := by
    rw [tryAll, List.findSome?_isSome_iff]
    exact ⟨Recognizer.varDecls, by simp [hfront], hlist⟩
  obtain ⟨⟨form, next⟩, hfound⟩ := Option.isSome_iff_exists.1 hsome
  obtain ⟨r, hr, hform⟩ := exists_of_tryAll hfound
  refine ⟨form, next, ?_, isImport_of_mem hr hform⟩
  have hsplit : tryAll here ctx (recognizers .navigation) =
      (tryAll here ctx front).or (Recognizer.imports here ctx) := by
    rw [← tryAll_singleton here ctx Recognizer.imports, ← tryAll_append]
    rfl
  have hne : ¬code.isEmpty := by simpa using hcode
  rw [hhere, recognize_eq_tryAll hne, ← hhere, hsplit, hfound, Option.some_or]

/-- Behind a line a list is open if the line leaves one open, if it is empty, or if what it
declares hands the list on. -/
theorem goesOn_behind_cases
    (h : (ctx.behind (recognize ⟨.navigation, line, code, following⟩ ctx)).goesOn) :
    (∃ d, declared line ctx (recognize ⟨.navigation, line, code, following⟩ ctx) = [d] ∧
      d.line = line ∧ d.form.opensList ∧ code ≠ [] ∧ LeavesListOpen code) ∨
    ctx.goesOn ∧ (code = [] ∨
      ∃ d, declared line ctx (recognize ⟨.navigation, line, code, following⟩ ctx) = [d] ∧
        d.line = line ∧ d.form.handsListOn) := by
  by_cases hcode : code = []
  · subst hcode
    exact .inr ⟨h, .inl rfl⟩
  cases hfound : recognize ⟨.navigation, line, code, following⟩ ctx with
  | none =>
    -- an open list would have taken the line
    rw [hfound] at h
    obtain ⟨form, next, hsome, -⟩ := @exists_recognize_of_goesOn line code following ctx h hcode
    rw [hfound] at hsome
    cases hsome
  | some found =>
    obtain ⟨form, next⟩ := found
    rw [hfound] at h
    obtain ⟨hopens, hleaves⟩ | ⟨hctx, hhands⟩ := (recognized_of_recognize hfound).goesOn_cases h
    · exact .inl ⟨⟨line, ctx.scope, form⟩, rfl, rfl, hopens, hcode, hleaves⟩
    · refine .inr ⟨hctx, .inr ⟨⟨line, ctx.scope, form⟩, rfl, rfl, ?_⟩⟩
      obtain ⟨form', next', hsome, himport⟩ :=
        @exists_recognize_of_goesOn line code following ctx hctx hcode
      rw [hfound] at hsome
      cases hsome
      rw [himport] at hhands
      simpa using hhands

/-! ## Several lines -/

/-- Each of these lines, of which the first has number `line`, is empty or declares something
that hands an open list on. -/
def HandListOn (ds : List Declaration) (line : Nat) (codes : List Line) : Prop :=
  ∀ i code, codes[i]? = some code →
    code = [] ∨ ∃ d ∈ ds, d.line = line + i ∧ d.form.handsListOn

/-- One of these lines, of which the first has number `line`, leaves a list open, and those
behind it hand it on. -/
inductive LeftOpen (ds : List Declaration) (line : Nat) : List Line → Prop where
  | intro {before behind : List Line} {code : Line} {opener : Declaration} (hmem : opener ∈ ds)
      (hline : opener.line = line + before.length) (hopens : opener.form.opensList)
      (hcode : code ≠ []) (hleaves : LeavesListOpen code)
      (hbehind : HandListOn ds (opener.line + 1) behind) :
      LeftOpen ds line (before ++ code :: behind)

variable {ds ds' : List Declaration} {codes : List Line}

theorem HandListOn.mono (h : HandListOn ds line codes) (hds : ds ⊆ ds') :
    HandListOn ds' line codes := by
  intro i code hcode
  refine (h i code hcode).imp_right ?_
  rintro ⟨d, hd, hline, hhands⟩
  exact ⟨d, hds hd, hline, hhands⟩

theorem HandListOn.cons (h : HandListOn ds (line + 1) codes)
    (hcode : code = [] ∨ ∃ d ∈ ds, d.line = line ∧ d.form.handsListOn) :
    HandListOn ds line (code :: codes) := by
  intro i code' hcode'
  cases i with
  | zero =>
    cases hcode'
    exact hcode
  | succ i =>
    rw [List.getElem?_cons_succ] at hcode'
    rw [Nat.add_comm i, ← Nat.add_assoc]
    exact h i code' hcode'

theorem LeftOpen.mono (h : LeftOpen ds line codes) (hds : ds ⊆ ds') : LeftOpen ds' line codes := by
  obtain ⟨hmem, hline, hopens, hcode, hleaves, hbehind⟩ := h
  exact ⟨hds hmem, hline, hopens, hcode, hleaves, hbehind.mono hds⟩

theorem LeftOpen.cons (h : LeftOpen ds (line + 1) codes) (code : Line) :
    LeftOpen ds line (code :: codes) := by
  obtain ⟨hmem, hline, hopens, hcode, hleaves, hbehind⟩ := h
  rw [← List.cons_append]
  refine ⟨hmem, ?_, hopens, hcode, hleaves, hbehind⟩
  rw [hline, List.length_cons]
  omega

/-- Behind lines that were read a list is open if one of them left it open, or if it was open
in front of them and all of them hand it on. -/
theorem leftOpen_of_readOver {below above : List Line}
    (h : (readOver .navigation below line ctx above).2.goesOn) :
    LeftOpen (readOver .navigation below line ctx above).1 line above ∨
      ctx.goesOn ∧ HandListOn (readOver .navigation below line ctx above).1 line above := by
  induction above generalizing line ctx with
  | nil => exact .inr ⟨h, by simp [HandListOn]⟩
  | cons code more ih =>
    rw [readOver] at h ⊢
    dsimp only at h ⊢
    set found := recognize ⟨.navigation, line, code, more ++ below⟩ (ctx.enter line)
    have hown := List.subset_append_left (declared line (ctx.enter line) found)
      (readOver .navigation below (line + 1) ((ctx.enter line).behind found) more).1
    have hlater := List.subset_append_right (declared line (ctx.enter line) found)
      (readOver .navigation below (line + 1) ((ctx.enter line).behind found) more).1
    obtain hopen | ⟨hbehind, hhand⟩ := ih h
    · exact .inl ((hopen.mono hlater).cons code)
    · -- all later lines hand the list on, so that it was open behind the first
      obtain ⟨d, hd, hline, hopens, hcode, hleaves⟩ | ⟨hctx, hcode⟩ := goesOn_behind_cases hbehind
      · have hmem : d ∈ declared line (ctx.enter line) found := by
          rw [hd]
          exact List.mem_singleton_self d
        refine .inl
          (@LeftOpen.intro _ line [] more code d (hown hmem) hline hopens hcode hleaves ?_)
        rw [hline]
        exact hhand.mono hlater
      · rw [Context.goesOn_enter] at hctx
        refine .inr ⟨hctx, (hhand.mono hlater).cons (hcode.imp_right ?_)⟩
        rintro ⟨d, hd, hline, hhands⟩
        refine ⟨d, hown ?_, hline, hhands⟩
        rw [hd]
        exact List.mem_singleton_self d

/-! ## A whole text -/

/-- Every declaration was recognized on its line, in the context behind the lines above. -/
theorem exists_readOver_of_mem_readFrom {mode : ParseMode} {d : Declaration}
    (hd : d ∈ readFrom mode line ctx codes) :
    ∃ above code following next, codes = above ++ code :: following ∧
      d.line = line + above.length ∧
      recognize ⟨mode, d.line, code, following⟩
        ((readOver mode (code :: following) line ctx above).2.enter d.line) =
          some (d.form, next) := by
  induction codes generalizing line ctx with
  | nil => cases hd
  | cons code following ih =>
    rw [readFrom_cons, List.mem_append] at hd
    obtain hown | hlater := hd
    · obtain ⟨found, hfound, rfl⟩ := Option.map_eq_some_iff.1 (Option.mem_toList.1 hown)
      exact ⟨[], code, following, found.2, rfl, rfl, hfound⟩
    · obtain ⟨above, code', following', next, rfl, hline, hfound⟩ := ih hlater
      refine ⟨code :: above, code', following', next, rfl, ?_, hfound⟩
      rw [hline, List.length_cons]
      omega

/-- Variables on a line that declares none alone belong to a list that goes on. -/
theorem goesOn_of_not_declaresAlone {here : Cursor} {next : Context} {names : List String}
    {typeName : Option String} (h : Recognized here ctx (.varDecl names typeName) next)
    (hcode : Variable.declaresAlone here.code = false) : ctx.goesOn := by
  simp only [Variable.declaresAlone, Bool.or_eq_false_iff, Bool.not_eq_false',
    List.isEmpty_iff] at hcode
  cases h with
  | object hobject =>
    rw [Variable.isSome_afterDeclarator?_of_object? hobject] at hcode
    cases hcode.1
  | varDecl hlist =>
    rw [hcode.1, Bool.or_false] at hlist
    exact hlist
  | introduced hne => exact absurd hcode.2 hne

/-- The nearest line above a line that is not empty. -/
structure IsNearestAbove (codes : List Line) (line near : Nat) (code : Line) : Prop where
  above : near < line
  getElem? : codes[near]? = some code
  ne_nil : code ≠ []
  empty : ∀ i, near < i → i < line → codes[i]? = some []

/-- If a list was left open above, the nearest line leaves it open or hands it on. -/
theorem LeftOpen.nearest {near : Nat} (h : LeftOpen ds 0 (codes.take line))
    (hnear : IsNearestAbove codes line near code) :
    LeavesListOpen code ∨ ∃ d ∈ ds, d.line = near ∧ d.form.handsListOn := by
  generalize htaken : codes.take line = above at h
  obtain @⟨before, behind, code', opener, hmem, hline, hopens, hcode, hleaves, hbehind⟩ := h
  have hget : ∀ i, i < line → codes[i]? = (before ++ code' :: behind)[i]? := by
    intro i hi
    rw [← htaken, List.getElem?_take_of_lt hi]
  have hlength : before.length < line := by
    have hle := List.length_take_le line codes
    rw [htaken, List.length_append, List.length_cons] at hle
    omega
  rcases Nat.lt_trichotomy near before.length with hlt | heq | hgt
  · -- the opener would be an empty line
    have hempty := hnear.empty before.length hlt hlength
    rw [hget _ hlength] at hempty
    simp at hempty
    exact absurd hempty hcode
  · have hown := hnear.getElem?
    rw [hget near hnear.above, heq] at hown
    simp at hown
    exact .inl (hown ▸ hleaves)
  · obtain ⟨i, rfl⟩ := Nat.exists_eq_add_of_lt hgt
    have hown := hnear.getElem?
    rw [hget _ hnear.above, List.getElem?_append_right (by omega)] at hown
    rw [show before.length + i + 1 - before.length = i + 1 by omega,
      List.getElem?_cons_succ] at hown
    refine .inr ((hbehind i code hown).resolve_left hnear.ne_nil |>.imp ?_)
    rintro d ⟨hd, hdline, hhands⟩
    exact ⟨hd, by omega, hhands⟩

/-- On a line that declares no variables alone, variables are declared only where a list was
left open above: on a line of a callable or of variables without braces and closing
parentheses that does not end in a semicolon, with nothing behind it but empty lines, scopes,
productions, fields and phasers. So the nearest line above is such a line, unless it declares
one of those four. -/
theorem leftOpen_of_mem_parse {classifier : Option Classifier} {lines : List Line}
    {d : Declaration} {names : List String} {typeName : Option String} {code : Line}
    (hd : d ∈ parse .navigation classifier lines) (hform : d.form = .varDecl names typeName)
    (hcode : (prepare .navigation classifier lines)[d.line]? = some code)
    (halone : Variable.declaresAlone code = false) :
    LeftOpen (parse .navigation classifier lines) 0
        ((prepare .navigation classifier lines).take d.line) ∧
      ∀ near nearest, IsNearestAbove (prepare .navigation classifier lines) d.line near nearest →
        LeavesListOpen nearest ∨
          ∃ s ∈ parse .navigation classifier lines, s.line = near ∧ s.form.handsListOn := by
  obtain ⟨above, code', following, next, hcodes, hline, hfound⟩ :=
    exists_readOver_of_mem_readFrom hd
  rw [Nat.zero_add] at hline
  obtain rfl : code' = code := by
    rw [hcodes, hline] at hcode
    simpa using hcode
  rw [hform] at hfound
  have hgoesOn := goesOn_of_not_declaresAlone (recognized_of_recognize hfound) halone
  rw [Context.goesOn_enter] at hgoesOn
  have hopen := (leftOpen_of_readOver hgoesOn).resolve_right fun ⟨hinitial, _⟩ => by cases hinitial
  have htake : (prepare .navigation classifier lines).take d.line = above := by
    rw [hcodes, hline, List.take_left]
  have hsubset : (readOver .navigation (code' :: following) 0 .initial above).1 ⊆
      parse .navigation classifier lines := by
    rw [parse, hcodes, readFrom_append]
    exact List.subset_append_left ..
  have hleft := hopen.mono hsubset
  rw [← htake] at hleft
  exact ⟨hleft, fun near nearest hnear => hleft.nearest hnear⟩

/-- A declarator alone on its line, and below it a class whose body has no variables. -/
def classBehindDeclarator : List Line :=
  ["my", "class Tree \x7b", "has $.size;", "say $x;", "\x7d"].map String.toList

/-- The list that the first line leaves open goes on behind the class and its field. -/
theorem leftOpen_classBehindDeclarator :
    (⟨3, "Tree", .varDecl ["$x"] none⟩ : Declaration) ∈
        parse .navigation (some .raku) classBehindDeclarator ∧
      (prepare .navigation (some .raku) classBehindDeclarator)[3]? = some "say $x;".toList ∧
      Variable.declaresAlone "say $x;".toList = false ∧
      LeftOpen (parse .navigation (some .raku) classBehindDeclarator) 0
        ((prepare .navigation (some .raku) classBehindDeclarator).take 3) := by
  have hmem : (⟨3, "Tree", .varDecl ["$x"] none⟩ : Declaration) ∈
      parse .navigation (some .raku) classBehindDeclarator := by decide +kernel
  have hcode : (prepare .navigation (some .raku) classBehindDeclarator)[3]? =
      some "say $x;".toList := by decide +kernel
  have halone : Variable.declaresAlone "say $x;".toList = false := by decide +kernel
  exact ⟨hmem, hcode, halone, (leftOpen_of_mem_parse hmem rfl hcode halone).1⟩

/-- The nearest line above need not leave the list open: here it is a field, whose statement
is finished. -/
theorem not_leavesListOpen_nearest :
    ¬∀ (classifier : Option Classifier) (lines : List Line) (d : Declaration)
      (names : List String) (typeName : Option String) (code nearest : Line) (near : Nat),
      d ∈ parse .navigation classifier lines → d.form = .varDecl names typeName →
      (prepare .navigation classifier lines)[d.line]? = some code →
      Variable.declaresAlone code = false →
      IsNearestAbove (prepare .navigation classifier lines) d.line near nearest →
      LeavesListOpen nearest := by
  intro h
  have hnearest : IsNearestAbove (prepare .navigation (some .raku) classBehindDeclarator) 3 2
      "has $.size;".toList :=
    ⟨by decide, by decide +kernel, by decide, fun i hi hlt => by omega⟩
  have hleaves := h (some .raku) classBehindDeclarator ⟨3, "Tree", .varDecl ["$x"] none⟩ ["$x"]
    none "say $x;".toList "has $.size;".toList 2 (by decide +kernel) rfl (by decide +kernel)
    (by decide +kernel) hnearest
  exact hleaves.no_stop (by decide)

end Declaration

end RakuAtlas
