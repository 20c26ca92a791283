import Mathlib.Data.List.Basic
import RakuAtlas.Proofs.Declarations

/-!
# RakuAtlas.Proofs.Modes — what the modes of reading have in common

The modes try different recognizers, each with its own idea of what goes on from
line to line. Still they agree on what they share (`parse_modes`):

* the index of a workspace has the declarations of an outline but for the fields;
* navigation has those of an outline, with blocks that are not measured, and of
  the imports it has some.

Two readings that run side by side agree if each line adds what agrees and leaves
contexts that agree (`readFrom_simulates`). A field that is not looked for is not
taken for anything else (`phaser?_of_field?`, `import?_of_field?`), and the
variables that only navigation looks for do not change the scope.
-/

namespace RakuAtlas

open Text (Line afterOneOf? afterWord?)

/-! ## Headers that exclude each other -/

namespace Header

/-- A word that comes next is a beginning of the line. -/
theorem isPrefix_of_afterWord? {word : String} {cs rest : Line}
    (h : afterWord? word cs = some rest) : word.toList <+: cs :=
  ⟨rest, List.append_eq_of_isPrefixOf?_eq_some h⟩

theorem isPrefix_of_afterOneOf? {words : List String} {cs rest : Line} {word : String}
    (h : afterOneOf? words cs = some (word, rest)) : word ∈ words ∧ word.toList <+: cs := by
  rcases List.exists_of_findSome?_eq_some h with ⟨other, hother, hafter⟩
  simp only [Option.bind_eq_bind, Option.bind_eq_some_iff] at hafter
  rcases hafter with ⟨behind, hbehind, blanks, -, heq⟩
  rcases Prod.mk.inj (Option.some.inj heq) with ⟨rfl, -⟩
  exact ⟨hother, isPrefix_of_afterWord? hbehind⟩

theorem isPrefix_of_field? {cs : Line} {name : String} (h : field? cs = some name) :
    ∃ word ∈ ["has", "HAS"], word.toList <+: cs := by
  simp only [field?, Option.bind_eq_bind, Option.bind_eq_some_iff] at h
  rcases h with ⟨⟨word, rest⟩, hword, -⟩
  exact ⟨word, isPrefix_of_afterOneOf? hword⟩

theorem isPrefix_of_phaser? {cs : Line} {name : String} (h : phaser? cs = some name) :
    name ∈ phasers ∧ name.toList <+: cs := by
  have hfound := List.find?_some h
  refine ⟨List.mem_of_find?_eq_some h, ?_⟩
  split at hfound
  · next rest hrest => exact isPrefix_of_afterWord? hrest
  · cases hfound

theorem isPrefix_of_import? {cs : Line} {name : String} (h : import? cs = some name) :
    ∃ word ∈ ["use", "need", "require"], word.toList <+: cs := by
  simp only [import?, Option.bind_eq_bind, Option.bind_eq_some_iff] at h
  rcases h with ⟨⟨word, rest⟩, hword, -⟩
  exact ⟨word, isPrefix_of_afterOneOf? hword⟩

/-- No word of a field begins like one of a phaser or an import. -/
theorem field_words_apart : ∀ word ∈ ["has", "HAS"],
    ∀ other ∈ phasers ++ ["use", "need", "require"],
      ¬word.toList <+: other.toList ∧ ¬other.toList <+: word.toList := by
  decide

/-- A line that declares a field starts with no other word. -/
theorem not_isPrefix_of_field? {cs : Line} {name other : String} (h : field? cs = some name)
    (hother : other ∈ phasers ++ ["use", "need", "require"]) : ¬other.toList <+: cs := by
  intro hprefix
  rcases isPrefix_of_field? h with ⟨word, hword, hfield⟩
  have hapart := field_words_apart word hword other hother
  rcases List.prefix_or_prefix_of_prefix hfield hprefix with hshorter | hlonger
  · exact hapart.1 hshorter
  · exact hapart.2 hlonger

theorem phaser?_of_field? {cs : Line} {name : String} (h : field? cs = some name) :
    phaser? cs = none := by
  cases hphaser : phaser? cs with
  | none => rfl
  | some other =>
    rcases isPrefix_of_phaser? hphaser with ⟨hother, hprefix⟩
    exact absurd hprefix (not_isPrefix_of_field? h (List.mem_append_left _ hother))

theorem import?_of_field? {cs : Line} {name : String} (h : field? cs = some name) :
    Header.import? cs = none := by
  cases himport : import? cs with
  | none => rfl
  | some other =>
    rcases isPrefix_of_import? himport with ⟨word, hword, hprefix⟩
    exact absurd hprefix (not_isPrefix_of_field? h (List.mem_append_right _ hword))

end Header

/-! ## Forms -/

namespace Form

/-- Whether this is a field. -/
def isField : Form → Bool
  | .field _ => true
  | _ => false

/-- Whether this is an import. -/
def isImport : Form → Bool
  | .importing _ => true
  | _ => false

/-- Whether this belongs to the structure of a text: all but variables and
what is imported. -/
def isStructural : Form → Bool
  | .varDecl _ _ | .importing _ => false
  | _ => true

/-- The form on a line when only the blocks of scopes are measured. -/
def unmeasured (line : Nat) : Form → Form
  | .callable kind name _ params => .callable kind name line params
  | .production kind name _ => .production kind name line
  | .phaser name _ => .phaser name line
  | form => form

@[simp] theorem isStructural_importing (name : String) :
    (importing name).isStructural = false := rfl

@[simp] theorem isStructural_unmeasured (line : Nat) (form : Form) :
    (form.unmeasured line).isStructural = form.isStructural := by
  cases form <;> rfl

theorem isImport_of_isStructural {form : Form} (h : form.isStructural) : form.isImport = false := by
  cases form <;> first | rfl | cases h

end Form

namespace Declaration

/-- The declaration when only the blocks of scopes are measured. -/
def unmeasured (d : Declaration) : Declaration := { d with form := d.form.unmeasured d.line }

/-! ## Two readings side by side -/

/-- Readings of the same lines agree if they do so line by line. `Same` is what
their contexts have in common, and `Agree` what their declarations have. -/
theorem readFrom_simulates {mode mode' : ParseMode} {Same : Context → Context → Prop}
    {Agree : List Declaration → List Declaration → Prop} (hnil : Agree [] [])
    (happend : ∀ {xs xs' ys ys'}, Agree xs ys → Agree xs' ys' → Agree (xs ++ xs') (ys ++ ys'))
    (henter : ∀ {ctx ctx'} line, Same ctx ctx' → Same (ctx.enter line) (ctx'.enter line))
    (hline : ∀ line code following {ctx ctx'}, Same ctx ctx' →
      Agree (declared line ctx (recognize ⟨mode, line, code, following⟩ ctx))
          (declared line ctx' (recognize ⟨mode', line, code, following⟩ ctx')) ∧
        Same (ctx.behind (recognize ⟨mode, line, code, following⟩ ctx))
          (ctx'.behind (recognize ⟨mode', line, code, following⟩ ctx')))
    (line : Nat) {ctx ctx' : Context} (h : Same ctx ctx') (codes : List Line) :
    Agree (readFrom mode line ctx codes) (readFrom mode' line ctx' codes) := by
  induction codes generalizing line ctx ctx' with
  | nil => exact hnil
  | cons code following ih =>
    rcases hline line code following (henter line h) with ⟨hhere, hbehind⟩
    rw [readFrom_cons, readFrom_cons]
    exact happend hhere (ih (line + 1) hbehind)

/-! ## Recognizers in a row -/

open Recognizer

/-- What the first of some recognizers finds that finds something. -/
def tryAll (here : Cursor) (ctx : Context) (rs : List Recognizer) : Option (Form × Context) :=
  rs.findSome? fun r => r here ctx

theorem recognize_eq_tryAll {code : Line} (h : ¬code.isEmpty) (mode : ParseMode) (line : Nat)
    (following : List Line) (ctx : Context) :
    recognize ⟨mode, line, code, following⟩ ctx =
      tryAll ⟨mode, line, code, following⟩ ctx (recognizers mode) := by
  rw [recognize, if_neg h]
  rfl

theorem tryAll_append (here : Cursor) (ctx : Context) (rs rs' : List Recognizer) :
    tryAll here ctx (rs ++ rs') = (tryAll here ctx rs).or (tryAll here ctx rs') :=
  List.findSome?_append

theorem tryAll_cons (here : Cursor) (ctx : Context) (r : Recognizer) (rs : List Recognizer) :
    tryAll here ctx (r :: rs) = (r here ctx).or (tryAll here ctx rs) := by
  rw [tryAll, List.findSome?_cons]
  cases r here ctx with
  | none => rfl
  | some found => rfl

@[simp] theorem tryAll_singleton (here : Cursor) (ctx : Context) (r : Recognizer) :
    tryAll here ctx [r] = r here ctx := by
  rw [tryAll_cons]
  exact Option.or_none

/-- What is found is found by one of the recognizers. -/
theorem exists_of_tryAll {here : Cursor} {ctx : Context} {rs : List Recognizer}
    {found : Form × Context} (h : tryAll here ctx rs = some found) :
    ∃ r ∈ rs, r here ctx = some found :=
  List.exists_of_findSome?_eq_some h

/-- If each recognizer finds alike in two places, so do all of them in a row. -/
theorem tryAll_rel {R : Form × Context → Form × Context → Prop} {here here' : Cursor}
    {ctx ctx' : Context} {rs : List Recognizer}
    (h : ∀ r ∈ rs, Option.Rel R (r here ctx) (r here' ctx')) :
    Option.Rel R (tryAll here ctx rs) (tryAll here' ctx' rs) := by
  induction rs with
  | nil => exact .none
  | cons r more ih =>
    rw [List.forall_mem_cons] at h
    rw [tryAll_cons, tryAll_cons]
    generalize r here ctx = found, r here' ctx' = found' at h
    cases h.1 with
    | none => exact ih h.2
    | some hfound => exact .some hfound

theorem tryAll_congr {here here' : Cursor} {ctx : Context} {rs : List Recognizer}
    (h : ∀ r ∈ rs, r here ctx = r here' ctx) : tryAll here ctx rs = tryAll here' ctx rs := by
  induction rs with
  | nil => rfl
  | cons r more ih =>
    rw [List.forall_mem_cons] at h
    rw [tryAll_cons, tryAll_cons, h.1, ih h.2]

/-! ## The index and the outline -/

/-- Where blocks are measured alike, a recognizer finds the same. -/
theorem recognizer_congr {mode mode' : ParseMode}
    (hmode : mode.measuresBlocks = mode'.measuresBlocks) {r : Recognizer}
    (hr : r ∈ recognizers .workspaceIndex) (line : Nat) (code : Line) (following : List Line)
    (ctx : Context) :
    r ⟨mode, line, code, following⟩ ctx = r ⟨mode', line, code, following⟩ ctx := by
  have hstop : (⟨mode, line, code, following⟩ : Cursor).blockStop =
      (⟨mode', line, code, following⟩ : Cursor).blockStop := by
    simp only [Cursor.blockStop, hmode]
  simp only [recognizers, List.mem_cons, List.not_mem_nil, or_false] at hr
  rcases hr with rfl | rfl | rfl | rfl | rfl
  · rfl
  · simp only [callables, hstop]
  · simp only [productions, hstop]
  · simp only [phasers, hstop]
  · rfl

/-- The index of a workspace has no fields. -/
theorem isField_of_mem {here : Cursor} {ctx next : Context} {form : Form} {r : Recognizer}
    (hr : r ∈ recognizers .workspaceIndex) (h : r here ctx = some (form, next)) :
    form.isField = false := by
  simp only [recognizers, List.mem_cons, List.not_mem_nil, or_false] at hr
  cases form with
  | field name =>
    rcases hr with rfl | rfl | rfl | rfl | rfl
    · simp [scopes, Option.bind_eq_some_iff] at h
    · simp [callables, Option.bind_eq_some_iff] at h
    · simp [productions, Option.bind_eq_some_iff] at h
    · simp [phasers, Option.bind_eq_some_iff] at h
    · simp [imports, Option.bind_eq_some_iff] at h
  | _ => rfl

/-- A field leaves the context, and there is no phaser and no import beside it. -/
theorem tryAll_of_fields {here : Cursor} {ctx next : Context} {form : Form}
    (h : fields here ctx = some (form, next)) :
    form.isField ∧ next = ctx ∧ tryAll here ctx [phasers, imports] = none := by
  simp only [fields, Option.bind_eq_bind, Option.bind_eq_some_iff] at h
  rcases h with ⟨name, hname, hfound⟩
  rcases Prod.mk.inj (Option.some.inj hfound) with ⟨rfl, rfl⟩
  refine ⟨rfl, rfl, ?_⟩
  simp [tryAll, phasers, imports, Header.phaser?_of_field? hname, Header.import?_of_field? hname]

/-- Recognizers without that of fields find what is found with it, unless that
is a field. -/
theorem tryAll_workspaceIndex (line : Nat) (here : Cursor) (ctx : Context) :
    declared line ctx (tryAll here ctx (recognizers .workspaceIndex)) =
        (declared line ctx (tryAll here ctx (recognizers .outline))).filter (!·.form.isField) ∧
      ctx.behind (tryAll here ctx (recognizers .workspaceIndex)) =
        ctx.behind (tryAll here ctx (recognizers .outline)) := by
  have hindex : tryAll here ctx (recognizers .workspaceIndex) =
      (tryAll here ctx [scopes, callables, productions]).or (tryAll here ctx [phasers, imports]) :=
    tryAll_append here ctx [scopes, callables, productions] [phasers, imports]
  have houtline : tryAll here ctx (recognizers .outline) =
      (tryAll here ctx [scopes, callables, productions]).or
        ((fields here ctx).or (tryAll here ctx [phasers, imports])) := by
    rw [← tryAll_cons, ← tryAll_append]
    rfl
  -- what is found without the recognizer of fields is no field
  have hkeep : declared line ctx (tryAll here ctx (recognizers .workspaceIndex)) =
      (declared line ctx (tryAll here ctx (recognizers .workspaceIndex))).filter
        (!·.form.isField) := by
    cases hfound : tryAll here ctx (recognizers .workspaceIndex) with
    | none => rfl
    | some found =>
      rcases exists_of_tryAll hfound with ⟨r, hr, hform⟩
      simp [declared, isField_of_mem hr hform]
  cases hfront : tryAll here ctx [scopes, callables, productions] with
  | some found =>
    rw [hfront, Option.some_or] at hindex houtline
    rw [houtline, ← hindex]
    exact ⟨hkeep, rfl⟩
  | none =>
    rw [hfront, Option.none_or] at hindex houtline
    cases hfield : fields here ctx with
    | none =>
      rw [hfield, Option.none_or, ← hindex] at houtline
      rw [houtline]
      exact ⟨hkeep, rfl⟩
    | some found =>
      rcases found with ⟨form, next⟩
      rcases tryAll_of_fields hfield with ⟨hform, rfl, hnone⟩
      rw [houtline, hindex, hfield, hnone]
      simp [declared, Context.behind, hform]

theorem recognize_workspaceIndex (line : Nat) (code : Line) (following : List Line)
    (ctx : Context) :
    declared line ctx (recognize ⟨.workspaceIndex, line, code, following⟩ ctx) =
        (declared line ctx (recognize ⟨.outline, line, code, following⟩ ctx)).filter
          (!·.form.isField) ∧
      ctx.behind (recognize ⟨.workspaceIndex, line, code, following⟩ ctx) =
        ctx.behind (recognize ⟨.outline, line, code, following⟩ ctx) := by
  by_cases hempty : code.isEmpty
  · simp [recognize, hempty, declared]
  · have hmeasured : tryAll ⟨.workspaceIndex, line, code, following⟩ ctx
          (recognizers .workspaceIndex) =
        tryAll ⟨.outline, line, code, following⟩ ctx (recognizers .workspaceIndex) := by
      apply tryAll_congr
      intro r hr
      exact @recognizer_congr .workspaceIndex .outline rfl r hr line code following ctx
    rw [recognize_eq_tryAll hempty, recognize_eq_tryAll hempty, hmeasured]
    exact tryAll_workspaceIndex line _ ctx

/-! ## Navigation and the outline -/

/-- Contexts in the same scope. -/
structure Context.InSameScope (ctx ctx' : Context) : Prop where
  scope_eq : ctx.scope = ctx'.scope
  scopeStop_eq : ctx.scopeStop = ctx'.scopeStop

theorem Context.InSameScope.enter {ctx ctx' : Context} (h : ctx.InSameScope ctx') (line : Nat) :
    (ctx.enter line).InSameScope (ctx'.enter line) := by
  rcases ctx with ⟨scope, scopeStop, goesOn⟩
  rcases ctx' with ⟨scope', scopeStop', goesOn'⟩
  obtain rfl : scope = scope' := h.scope_eq
  obtain rfl : scopeStop = scopeStop' := h.scopeStop_eq
  unfold Context.enter
  cases scopeStop with
  | none => exact ⟨rfl, rfl⟩
  | some stop =>
    simp only
    split
    · exact ⟨rfl, rfl⟩
    · exact ⟨rfl, rfl⟩

/-- Recognizers of the structure of a text. -/
def structural : List Recognizer := [scopes, callables, productions, fields, phasers]

/-- The same form with a block that is not measured, in the same scope. -/
def Matches (line : Nat) (found found' : Form × Context) : Prop :=
  found.1 = found'.1.unmeasured line ∧ found'.1.isStructural ∧ found.2.InSameScope found'.2

/-- What a recognizer of the structure finds does not depend on more of the
context than the scope, and in navigation blocks are not measured. -/
theorem rel_of_mem_structural {r : Recognizer} (hr : r ∈ structural) (line : Nat) (code : Line)
    (following : List Line) {ctx ctx' : Context} (h : ctx.InSameScope ctx') :
    Option.Rel (Matches line) (r ⟨.navigation, line, code, following⟩ ctx)
      (r ⟨.outline, line, code, following⟩ ctx') := by
  simp only [structural, List.mem_cons, List.not_mem_nil, or_false] at hr
  rcases hr with rfl | rfl | rfl | rfl | rfl
  · unfold scopes
    cases Header.scope? code with
    | none => exact .none
    | some found => exact .some ⟨rfl, rfl, rfl, rfl⟩
  · unfold callables
    cases Header.callable? code with
    | none => exact .none
    | some found => exact .some ⟨rfl, rfl, h.scope_eq, h.scopeStop_eq⟩
  · unfold productions
    cases Header.production? code with
    | none => exact .none
    | some found => exact .some ⟨rfl, rfl, h⟩
  · unfold fields
    cases Header.field? code with
    | none => exact .none
    | some found => exact .some ⟨rfl, rfl, h⟩
  · unfold phasers
    cases Header.phaser? code with
    | none => exact .none
    | some found => exact .some ⟨rfl, rfl, h⟩

/-- Variables stay in the scope. -/
theorem inSameScope_of_variables {r : Recognizer} (hr : r ∈ [objects, varDecls]) {here : Cursor}
    {ctx next : Context} {form : Form} (h : r here ctx = some (form, next)) :
    form.isStructural = false ∧ form.isImport = false ∧ next.InSameScope ctx := by
  simp only [List.mem_cons, List.not_mem_nil, or_false] at hr
  rcases hr with rfl | rfl
  · simp only [objects, Option.bind_eq_bind, Option.bind_eq_some_iff] at h
    rcases h with ⟨found, -, hfound⟩
    rcases Prod.mk.inj (Option.some.inj hfound) with ⟨rfl, rfl⟩
    exact ⟨rfl, rfl, rfl, rfl⟩
  · unfold varDecls at h
    split at h
    · rcases Prod.mk.inj (Option.some.inj h) with ⟨rfl, rfl⟩
      exact ⟨rfl, rfl, rfl, rfl⟩
    · split at h
      · cases h
      · rcases Prod.mk.inj (Option.some.inj h) with ⟨rfl, rfl⟩
        exact ⟨rfl, rfl, rfl, rfl⟩

/-- What agrees between navigation and an outline. -/
def Agrees (found outline : List Declaration) : Prop :=
  found.filter (·.form.isStructural) = (outline.filter (·.form.isStructural)).map unmeasured ∧
    (found.filter (·.form.isImport)).Sublist (outline.filter (·.form.isImport))

theorem agrees_nil : Agrees [] [] := ⟨rfl, List.Sublist.slnil⟩

theorem Agrees.append {xs xs' ys ys' : List Declaration} (h : Agrees xs ys) (h' : Agrees xs' ys') :
    Agrees (xs ++ xs') (ys ++ ys') := by
  constructor
  · rw [List.filter_append, List.filter_append, List.map_append, h.1, h'.1]
  · rw [List.filter_append, List.filter_append]
    exact h.2.append h'.2

/-- Declarations of the structure that match agree. -/
theorem agrees_of_matches {line : Nat} {found found' : Form × Context} {ctx ctx' : Context}
    (hscope : ctx.scope = ctx'.scope) (h : Matches line found found') :
    Agrees (declared line ctx (some found)) (declared line ctx' (some found')) := by
  rcases found with ⟨form, next⟩
  rcases found' with ⟨form', next'⟩
  obtain ⟨rfl, hstructural, -⟩ : form = form'.unmeasured line ∧ form'.isStructural ∧ _ := h
  have himport := Form.isImport_of_isStructural hstructural
  have himport' : (form'.unmeasured line).isImport = false :=
    Form.isImport_of_isStructural (by rw [Form.isStructural_unmeasured, hstructural])
  constructor
  · simp [declared, hstructural, unmeasured, hscope]
  · simp [declared, himport, himport']

/-- Where the structure has nothing on a line, navigation finds variables or what
an outline finds. -/
theorem agrees_imports (line : Nat) (code : Line) (following : List Line) {ctx ctx' : Context}
    (h : ctx.InSameScope ctx') :
    Agrees
        (declared line ctx ((tryAll ⟨.navigation, line, code, following⟩ ctx
          [objects, varDecls]).or (imports ⟨.navigation, line, code, following⟩ ctx)))
        (declared line ctx' (imports ⟨.outline, line, code, following⟩ ctx')) ∧
      (ctx.behind ((tryAll ⟨.navigation, line, code, following⟩ ctx [objects, varDecls]).or
        (imports ⟨.navigation, line, code, following⟩ ctx))).InSameScope
          (ctx'.behind (imports ⟨.outline, line, code, following⟩ ctx')) := by
  cases hvariables : tryAll ⟨.navigation, line, code, following⟩ ctx [objects, varDecls] with
  | some found =>
    rcases exists_of_tryAll hvariables with ⟨r, hr, hfound⟩
    rcases inSameScope_of_variables hr hfound with ⟨hstructural, himport, hscope⟩
    have hsame : found.2.InSameScope ctx' :=
      ⟨hscope.scope_eq.trans h.scope_eq, hscope.scopeStop_eq.trans h.scopeStop_eq⟩
    unfold imports
    cases Header.import? code with
    | none => exact ⟨⟨by simp [declared, hstructural], by simp [declared, himport]⟩, hsame⟩
    | some name => exact ⟨⟨by simp [declared, hstructural], by simp [declared, himport]⟩, hsame⟩
  | none =>
    unfold imports
    cases Header.import? code with
    | none => exact ⟨agrees_nil, h⟩
    | some name =>
      refine ⟨⟨rfl, ?_⟩, h⟩
      simp [declared, h.scope_eq]

/-- On every line navigation and an outline agree. -/
theorem agrees_recognize (line : Nat) (code : Line) (following : List Line) {ctx ctx' : Context}
    (h : ctx.InSameScope ctx') :
    Agrees (declared line ctx (recognize ⟨.navigation, line, code, following⟩ ctx))
        (declared line ctx' (recognize ⟨.outline, line, code, following⟩ ctx')) ∧
      (ctx.behind (recognize ⟨.navigation, line, code, following⟩ ctx)).InSameScope
        (ctx'.behind (recognize ⟨.outline, line, code, following⟩ ctx')) := by
  by_cases hempty : code.isEmpty
  · simp only [recognize, hempty, if_true]
    exact ⟨agrees_nil, h⟩
  have hnavigation : ∀ here : Cursor, tryAll here ctx (recognizers .navigation) =
      (tryAll here ctx structural).or
        ((tryAll here ctx [objects, varDecls]).or (imports here ctx)) := by
    intro here
    rw [← tryAll_singleton here ctx imports, ← tryAll_append, ← tryAll_append]
    rfl
  have houtline : ∀ here : Cursor, tryAll here ctx' (recognizers .outline) =
      (tryAll here ctx' structural).or (imports here ctx') := by
    intro here
    rw [← tryAll_singleton here ctx' imports, ← tryAll_append]
    rfl
  have hstructural := tryAll_rel fun r hr => rel_of_mem_structural hr line code following h
  rw [recognize_eq_tryAll hempty, recognize_eq_tryAll hempty, hnavigation, houtline]
  generalize tryAll ⟨.navigation, line, code, following⟩ ctx structural = found,
    tryAll ⟨.outline, line, code, following⟩ ctx' structural = found' at hstructural
  cases hstructural with
  | some hmatches => exact ⟨agrees_of_matches h.scope_eq hmatches, hmatches.2.2⟩
  | none => exact agrees_imports line code following h

/-! ## Texts -/

/-- The lines are prepared alike in all modes that blank out literals. -/
theorem prepare_congr {mode mode' : ParseMode} (h : mode.blanksLiterals = mode'.blanksLiterals)
    (classifier : Option Lexical.Classifier) (lines : List Line) :
    prepare mode classifier lines = prepare mode' classifier lines := by
  simp only [prepare, h]

/-- The modes agree on what they share. -/
theorem parse_modes (classifier : Option Lexical.Classifier) (lines : List Line) :
    parse .workspaceIndex classifier lines =
        (parse .outline classifier lines).filter (!·.form.isField) ∧
      (parse .navigation classifier lines).filter (·.form.isStructural) =
        ((parse .outline classifier lines).filter (·.form.isStructural)).map unmeasured ∧
      ((parse .navigation classifier lines).filter (·.form.isImport)).Sublist
        ((parse .outline classifier lines).filter (·.form.isImport)) := by
  unfold parse
  rw [@prepare_congr .workspaceIndex .outline rfl, @prepare_congr .navigation .outline rfl]
  generalize prepare .outline classifier lines = codes
  constructor
  · refine @readFrom_simulates .workspaceIndex .outline (· = ·)
      (fun found outline => found = outline.filter (!·.form.isField)) rfl ?_ ?_ ?_ 0 _ _ rfl codes
    · rintro xs xs' ys ys' rfl rfl
      exact (List.filter_append ys ys').symm
    · rintro ctx _ line rfl
      rfl
    · rintro line code following ctx _ rfl
      exact recognize_workspaceIndex line code following ctx
  · exact readFrom_simulates agrees_nil Agrees.append (fun line h => h.enter line)
      (fun line code following _ _ h => agrees_recognize line code following h) 0 ⟨rfl, rfl⟩ codes

-- a list of variables that goes on takes the line, which an outline reads as an import
example : parse .navigation none ["my ($a,".toList, "use Foo".toList] =
    [⟨0, "", .varDecl ["$a"] none⟩, ⟨1, "", .varDecl [] none⟩] := by decide +kernel

end Declaration

end RakuAtlas
