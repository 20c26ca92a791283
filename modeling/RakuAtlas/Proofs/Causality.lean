import RakuAtlas.Proofs.Extents
import RakuAtlas.Proofs.Lexical.Rewording
import RakuAtlas.Proofs.Modes

/-!
# RakuAtlas.Proofs.Causality — what a line declares is settled when it is read

What follows a line can change where its declaration ends and, up to the depth of the
lookahead, which parameters it has. It changes nothing else (`parse_settled`): neither
which lines declare something nor what, nor any name.

A reading hands on the scope, which depends on what follows, and whether a list goes on,
which does not. Recognizers ask for the second only, so that on the same line the same
one fires in all surroundings (`recognize_alike`).
-/

namespace RakuAtlas

open Text (Line)
open Lexical (Classifier)

/-- What is settled of a form once its line is read: all but the last line of its block and,
unless `whole` says that the lookahead is over, the parameters. -/
def Form.settled (whole : Bool) : Form → Form
  | .scope kind name _ => .scope kind name 0
  | .callable kind name _ params => .callable kind name 0 (if whole then params else [])
  | .production kind name _ => .production kind name 0
  | .phaser name _ => .phaser name 0
  | form => form

namespace Declaration

/-! ## The same line in other surroundings -/

/-- The last line of the scope that is declared here. -/
def Cursor.scopeStop (here : Cursor) : Nat :=
  here.line + Block.scopeLength here.code here.following

/-- What the same recognizer finds on the same line in two surroundings. The names are the
same; what is measured below the line is measured on each side. -/
inductive FoundAlike (here here' : Cursor) (ctx ctx' : Context) :
    Form × Context → Form × Context → Prop where
  | scope (kind : ScopeKind) (name : String) :
      FoundAlike here here' ctx ctx'
        (.scope kind name here.scopeStop,
          { ctx with scope := name, scopeStop := some here.scopeStop })
        (.scope kind name here'.scopeStop,
          { ctx' with scope := name, scopeStop := some here'.scopeStop })
  | callable (kind : CallableKind) (name : String) (rest : Line) (goesOn : Bool) :
      FoundAlike here here' ctx ctx'
        (.callable kind name here.blockStop (Variable.params rest here.code here.following),
          { ctx with goesOn := goesOn })
        (.callable kind name here'.blockStop (Variable.params rest here'.code here'.following),
          { ctx' with goesOn := goesOn })
  | production (kind : ProductionKind) (name : String) :
      FoundAlike here here' ctx ctx' (.production kind name here.blockStop, ctx)
        (.production kind name here'.blockStop, ctx')
  | phaser (name : String) :
      FoundAlike here here' ctx ctx' (.phaser name here.blockStop, ctx)
        (.phaser name here'.blockStop, ctx')
  /-- Fields, variables and imports have no block. -/
  | plain {form : Form} (goesOn : Bool) (hform : form.hasBlock = false) :
      FoundAlike here here' ctx ctx' (form, { ctx with goesOn := goesOn })
        (form, { ctx' with goesOn := goesOn })

variable {mode : ParseMode} {line line' : Nat} {code : Line} {following following' : List Line}
  {ctx ctx' : Context}

/-- A form without a block that leaves the context as it is. -/
theorem FoundAlike.stay {here here' : Cursor} {form : Form} (h : ctx.goesOn = ctx'.goesOn)
    (hform : form.hasBlock = false) :
    FoundAlike here here' ctx ctx' (form, ctx) (form, ctx') := by
  have hplain : FoundAlike here here' ctx ctx' (form, ctx)
      (form, { ctx' with goesOn := ctx.goesOn }) := .plain ctx.goesOn hform
  rw [h] at hplain
  exact hplain

/-- Each recognizer asks for the line and for whether a list goes on there. -/
theorem recognizer_alike {r : Recognizer} (hr : r ∈ recognizers mode)
    (h : ctx.goesOn = ctx'.goesOn) :
    Option.Rel (FoundAlike ⟨mode, line, code, following⟩ ⟨mode, line', code, following'⟩ ctx ctx')
      (r ⟨mode, line, code, following⟩ ctx) (r ⟨mode, line', code, following'⟩ ctx') := by
  have hall := mem_of_mem_recognizers hr
  simp only [List.mem_cons, List.not_mem_nil, or_false] at hall
  rcases hall with rfl | rfl | rfl | rfl | rfl | rfl | rfl | rfl
  · unfold Recognizer.scopes
    cases Header.scope? code with
    | none => exact .none
    | some found => exact .some (.scope found.1 found.2)
  · unfold Recognizer.callables
    cases Header.callable? code with
    | none => exact .none
    | some found => exact .some (.callable found.1 found.2.1 found.2.2 _)
  · unfold Recognizer.productions
    cases Header.production? code with
    | none => exact .none
    | some found => exact .some (.production found.1 found.2)
  · unfold Recognizer.fields
    cases Header.field? code with
    | none => exact .none
    | some name => exact .some (.stay h rfl)
  · unfold Recognizer.phasers
    cases Header.phaser? code with
    | none => exact .none
    | some name => exact .some (.phaser name)
  · unfold Recognizer.objects
    cases Header.object? code with
    | none => exact .none
    | some found => exact .some (.plain false rfl)
  · simp only [Recognizer.varDecls, h]
    split
    · exact .some (.plain _ rfl)
    · split
      · exact .none
      · exact .some (.plain false rfl)
  · unfold Recognizer.imports
    cases Header.import? code with
    | none => exact .none
    | some name => exact .some (.stay h rfl)

/-- On the same line the same recognizer fires in all surroundings. -/
theorem recognize_alike (h : ctx.goesOn = ctx'.goesOn) :
    Option.Rel (FoundAlike ⟨mode, line, code, following⟩ ⟨mode, line', code, following'⟩ ctx ctx')
      (recognize ⟨mode, line, code, following⟩ ctx)
      (recognize ⟨mode, line', code, following'⟩ ctx') := by
  by_cases hempty : code.isEmpty
  · simp only [recognize, hempty, if_true]
    exact .none
  · rw [recognize_eq_tryAll hempty, recognize_eq_tryAll hempty]
    exact tryAll_rel fun r hr => recognizer_alike hr h

/-! ## What is settled -/

/-- What is settled of a declaration by the first `count` lines of its text: its line and
what it declares, and the parameters if all lines of the lookahead are among them. -/
def settledBy (count : Nat) (d : Declaration) : Nat × Form :=
  (d.line, d.form.settled (d.line + Variable.lookahead < count))

/-- Parameters are looked for no further than the lookahead. -/
theorem params_congr {afterName header : Line}
    (h : following.take Variable.lookahead = following'.take Variable.lookahead) :
    Variable.params afterName header following = Variable.params afterName header following' := by
  simp only [Variable.params, Variable.laterParams, h]

theorem FoundAlike.settled_eq {found found' : Form × Context} {whole : Bool}
    (h : FoundAlike ⟨mode, line, code, following⟩ ⟨mode, line, code, following'⟩ ctx ctx' found
      found')
    (hwhole : whole →
      following.take Variable.lookahead = following'.take Variable.lookahead) :
    found.1.settled whole = found'.1.settled whole := by
  cases h with
  | scope | production | phaser | plain => rfl
  | callable kind name rest =>
    cases whole with
    | false => rfl
    | true => simp only [Form.settled, params_congr (hwhole rfl)]

theorem FoundAlike.goesOn_eq {here here' : Cursor} {found found' : Form × Context}
    (h : FoundAlike here here' ctx ctx' found found') (hctx : ctx.goesOn = ctx'.goesOn) :
    found.2.goesOn = found'.2.goesOn := by
  cases h with
  | scope | production | phaser => exact hctx
  | callable | plain => rfl

/-! ## Reading the lines in front of others -/

@[simp] theorem Context.goesOn_enter (ctx : Context) (line : Nat) :
    (ctx.enter line).goesOn = ctx.goesOn := by
  unfold Context.enter
  split
  · split
    · rfl
    · rfl
  · rfl

/-- The declarations on lines that others follow, and the context behind them. -/
def readOver (mode : ParseMode) (below : List Line) :
    Nat → Context → List Line → List Declaration × Context
  | _, ctx, [] => ([], ctx)
  | line, ctx, code :: more =>
    let ctx := ctx.enter line
    let found := recognize ⟨mode, line, code, more ++ below⟩ ctx
    let rest := readOver mode below (line + 1) (ctx.behind found) more
    (declared line ctx found ++ rest.1, rest.2)

theorem readFrom_append (line : Nat) (ctx : Context) (above below : List Line) :
    readFrom mode line ctx (above ++ below) =
      (readOver mode below line ctx above).1 ++
        readFrom mode (line + above.length) (readOver mode below line ctx above).2 below := by
  induction above generalizing line ctx with
  | nil => rfl
  | cons code more ih =>
    rw [List.cons_append, readFrom_cons, ih, readOver, List.append_assoc, List.length_cons,
      Nat.add_right_comm, Nat.add_assoc]

/-- What is read over is declared on the lines that were read over. -/
theorem line_of_mem_readOver {below above : List Line} {d : Declaration}
    (hd : d ∈ (readOver mode below line ctx above).1) :
    line ≤ d.line ∧ d.line < line + above.length := by
  induction above generalizing line ctx with
  | nil => cases hd
  | cons code more ih =>
    rw [readOver, List.mem_append] at hd
    rw [List.length_cons]
    obtain hown | hlater := hd
    · obtain ⟨found, -, rfl⟩ := Option.map_eq_some_iff.1 (Option.mem_toList.1 hown)
      dsimp only
      omega
    · have := ih hlater
      omega

/-- Two readings of the same lines settle the same on them. -/
theorem readOver_settled {below below' above : List Line} {count : Nat}
    (h : ctx.goesOn = ctx'.goesOn) (hcount : count = line + above.length) :
    (readOver mode below line ctx above).1.map (settledBy count) =
        (readOver mode below' line ctx' above).1.map (settledBy count) ∧
      (readOver mode below line ctx above).2.goesOn =
        (readOver mode below' line ctx' above).2.goesOn := by
  induction above generalizing line ctx ctx' with
  | nil => exact ⟨rfl, h⟩
  | cons code more ih =>
    have henter : (ctx.enter line).goesOn = (ctx'.enter line).goesOn := by simpa using h
    have hcount' : count = line + 1 + more.length := by
      rw [hcount, List.length_cons]
      omega
    -- inside the text the lookahead does not reach the lines that differ
    have hreach : decide (line + Variable.lookahead < count) →
        (more ++ below).take Variable.lookahead = (more ++ below').take Variable.lookahead := by
      intro hwhole
      have hle : Variable.lookahead ≤ more.length := by
        have := of_decide_eq_true hwhole
        omega
      rw [List.take_append_of_le_length hle, List.take_append_of_le_length hle]
    have halike := @recognize_alike mode line line code (more ++ below) (more ++ below') _ _ henter
    rw [readOver, readOver]
    generalize recognize ⟨mode, line, code, more ++ below⟩ (ctx.enter line) = found,
      recognize ⟨mode, line, code, more ++ below'⟩ (ctx'.enter line) = found' at halike
    cases halike with
    | none =>
      exact ih henter hcount'
    | some hfound =>
      obtain ⟨hlater, hbehind⟩ := ih (hfound.goesOn_eq henter) hcount'
      refine ⟨?_, hbehind⟩
      have hsettled := hfound.settled_eq hreach
      simp only [declared, Option.map_some, Option.toList_some, List.map_append, List.map_cons,
        List.map_nil, settledBy, hsettled]
      exact congrArg _ hlater

/-- Among what is declared, what is read over is all that is on its lines. -/
theorem filter_readFrom_append (line : Nat) (ctx : Context) (above below : List Line) :
    (readFrom mode line ctx (above ++ below)).filter (·.line < line + above.length) =
      (readOver mode below line ctx above).1 := by
  rw [readFrom_append, List.filter_append, List.filter_eq_self.2, List.filter_eq_nil_iff.2,
    List.append_nil]
  · intro d hd
    have hline := (pairwise_line_readFrom mode _ _ below).2 d hd
    simpa using hline
  · intro d hd
    have hline := (line_of_mem_readOver hd).2
    simpa using hline

/-! ## Texts -/

/-- The lines in front are read as they are without the others, by the classifier of this
library and without one. -/
theorem exists_prepare_append (mode : ParseMode) {classifier : Option Classifier}
    (hbuiltin : classifier = none ∨ classifier = some .raku) (above below : List Line) :
    ∃ rest, prepare mode classifier (above ++ below) = prepare mode classifier above ++ rest := by
  by_cases hmode : mode = .refinement
  · subst hmode
    exact ⟨below.map Text.trim, List.map_append⟩
  · obtain rfl | rfl := hbuiltin
    · refine ⟨below.map Text.trim, ?_⟩
      simp [prepare]
    · rw [prepare_raku hmode, prepare_raku hmode, Lexical.skeletonsFrom_append]
      exact ⟨_, rfl⟩

/-- What is declared on the first lines of a text does not depend on the lines below: the
same lines declare the same, under the same names, and with the same parameters where the
lookahead ends among the first lines. -/
theorem parse_settled (mode : ParseMode) {classifier : Option Classifier}
    (hbuiltin : classifier = none ∨ classifier = some .raku) (above below below' : List Line) :
    ((parse mode classifier (above ++ below)).filter (·.line < above.length)).map
        (settledBy above.length) =
      ((parse mode classifier (above ++ below')).filter (·.line < above.length)).map
        (settledBy above.length) := by
  have hfront : ∀ rest, (readFrom mode 0 .initial (prepare mode classifier above ++ rest)).filter
      (·.line < above.length) =
        (readOver mode rest 0 .initial (prepare mode classifier above)).1 := by
    intro rest
    have hfilter := @filter_readFrom_append mode 0 .initial (prepare mode classifier above) rest
    rwa [length_prepare, Nat.zero_add] at hfilter
  obtain ⟨rest, hrest⟩ := exists_prepare_append mode hbuiltin above below
  obtain ⟨rest', hrest'⟩ := exists_prepare_append mode hbuiltin above below'
  have hcount : above.length = 0 + (prepare mode classifier above).length := by simp
  rw [parse, parse, hrest, hrest', hfront, hfront]
  exact (readOver_settled rfl hcount).1

/-- A class and a signature that are both open at the end. -/
def openSignature : List Line := ["class Tree \x7b", "method grow($by,"].map String.toList

/-- Whether a body, a second class or the end of the text follows, the lines declare the
same class and the same method. -/
theorem parse_settled_openSignature :
    (some Classifier.raku = none ∨ some Classifier.raku = some .raku) ∧
      ((parse .navigation (some .raku)
            (openSignature ++ ["$to) \x7b \x7d".toList, "\x7d".toList])).filter (·.line < 2)).map
          (settledBy 2) =
        ((parse .navigation (some .raku) (openSignature ++ ["class Leaf".toList])).filter
          (·.line < 2)).map (settledBy 2) :=
  ⟨Or.inr rfl, parse_settled .navigation (Or.inr rfl) openSignature _ _⟩

end Declaration

end RakuAtlas
