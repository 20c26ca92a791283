import RakuAtlas.Declaration.Parse
import RakuAtlas.Proofs.Query.Isolation

/-!
# RakuAtlas.Proofs.FailOpen — a classifier that fails

A classifier is run from the top of a text and may give up on any line, after it has classified
the lines above. What it said about those is then of no account: the text is taken as if there
were no classifier. Each text is classified on its own.

* `Classifier.FailsOn` and `Classifier.InLiteral` say what becomes of a text line by line, by the
  states that the classifier goes through (`GoesThrough`) and not by what a run returns.
* `exists_runFrom_error_iff`, `getElem?_runFrom`: a run fails, or says about each line what the
  classifier says there.
* `parse_of_failsOn`, `occurrences_of_failsOn`, `occurrences_of_not_failsOn`: what that means to
  the declarations of a text, and to the occurrences in it.
-/

namespace RakuAtlas

open Text (Line lines)

namespace Lexical.Classifier

/-! ## Going through lines -/

/-- The lines are classified without an error, from one state on to another. -/
inductive GoesThrough (c : Classifier) : LineState → List Line → LineState → Prop where
  | nil (state : LineState) : c.GoesThrough state [] state
  | cons {state next last : LineState} {pieces : List Piece} {line : Line} {more : List Line}
      (hline : c.classify state line = .ok (pieces, next))
      (hmore : c.GoesThrough next more last) : c.GoesThrough state (line :: more) last

/-- The classifier fails on a line that it comes to from the top. -/
def FailsOn (c : Classifier) (ls : List Line) : Prop :=
  ∃ above line below state e, ls = above ++ line :: below ∧ c.GoesThrough .initial above state ∧
    c.classify state line = .error e

/-- A range of a line overlaps a span of it that is not code. -/
def InLiteral (c : Classifier) (ls : List Line) (range : Range) : Prop :=
  ∃ above line below state pieces next, ls = above ++ line :: below ∧
    above.length = range.start.line ∧ c.GoesThrough .initial above state ∧
    c.classify state line = .ok (pieces, next) ∧
    ∃ span ∈ Piece.spans pieces, span.cls ≠ .code ∧ span.start < range.stop.col ∧
      range.start.col < span.stop

section
variable {c : Classifier} {state : LineState} {line : Line} {more : List Line}

theorem runFrom_cons_of_error {e : ClassifyError} (h : c.classify state line = .error e) :
    c.runFrom state (line :: more) = .error e := by
  rw [runFrom, h]
  rfl

theorem runFrom_cons_of_ok {pieces : List Piece} {next : LineState}
    (h : c.classify state line = .ok (pieces, next)) :
    c.runFrom state (line :: more) = (c.runFrom next more).map ((state, pieces) :: ·) := by
  rw [runFrom, h]
  rfl

/-- A run fails if there is a line on which the classifier fails, and only then. -/
theorem exists_runFrom_error_iff {ls : List Line} :
    (∃ e, c.runFrom state ls = .error e) ↔
      ∃ above line below last e, ls = above ++ line :: below ∧ c.GoesThrough state above last ∧
        c.classify last line = .error e := by
  induction ls generalizing state with
  | nil => simp [runFrom]
  | cons first more ih =>
    cases hfirst : c.classify state first with
    | error e =>
      rw [runFrom_cons_of_error hfirst]
      exact iff_of_true ⟨e, rfl⟩ ⟨[], first, more, state, e, rfl, .nil state, hfirst⟩
    | ok result =>
      obtain ⟨pieces, next⟩ := result
      rw [runFrom_cons_of_ok hfirst]
      constructor
      · rintro ⟨e, he⟩
        cases hmore : c.runFrom next more with
        | ok rest =>
          rw [hmore] at he
          cases he
        | error e' =>
          obtain ⟨above, line, below, last, e, rfl, hpass, hfail⟩ := ih.1 ⟨e', hmore⟩
          exact ⟨first :: above, line, below, last, e, rfl, .cons hfirst hpass, hfail⟩
      · rintro ⟨above, line, below, last, e, hls, hpass, hfail⟩
        cases hpass with
        | nil =>
          -- the failing line would be the first, which was classified
          obtain ⟨rfl, -⟩ := List.cons.inj hls
          rw [hfirst] at hfail
          cases hfail
        | cons hline hpass =>
          obtain ⟨rfl, hmore⟩ := List.cons.inj hls
          rw [hfirst] at hline
          obtain ⟨-, rfl⟩ := Prod.mk.inj (Except.ok.inj hline)
          obtain ⟨e', he'⟩ := ih.2 ⟨_, line, below, last, e, hmore, hpass, hfail⟩
          exact ⟨e', by rw [he']; rfl⟩

/-- What a run says about a line is what the classifier says about it in the state that the
lines above lead to. -/
theorem getElem?_runFrom {ls : List Line} {results : List (LineState × List Piece)}
    (h : c.runFrom state ls = .ok results) {n : Nat} {last : LineState} {pieces : List Piece} :
    results[n]? = some (last, pieces) ↔
      ∃ above line below next, ls = above ++ line :: below ∧ above.length = n ∧
        c.GoesThrough state above last ∧ c.classify last line = .ok (pieces, next) := by
  induction ls generalizing state results n with
  | nil =>
    cases h
    simp
  | cons first more ih =>
    cases hfirst : c.classify state first with
    | error e =>
      rw [runFrom_cons_of_error hfirst] at h
      cases h
    | ok result =>
      obtain ⟨pieces', next'⟩ := result
      rw [runFrom_cons_of_ok hfirst] at h
      cases hmore : c.runFrom next' more with
      | error e =>
        rw [hmore] at h
        cases h
      | ok rest =>
        rw [hmore] at h
        cases h
        cases n with
        | zero =>
          rw [List.getElem?_cons_zero, Option.some.injEq, Prod.mk.injEq]
          constructor
          · rintro ⟨rfl, rfl⟩
            exact ⟨[], first, more, next', rfl, rfl, .nil _, hfirst⟩
          · rintro ⟨above, line, below, next, hls, hlength, hpass, hline⟩
            obtain rfl := List.eq_nil_of_length_eq_zero hlength
            obtain ⟨rfl, -⟩ := List.cons.inj hls
            cases hpass
            rw [hfirst] at hline
            exact ⟨rfl, (Prod.mk.inj (Except.ok.inj hline)).1⟩
        | succ n =>
          rw [List.getElem?_cons_succ, ih hmore]
          constructor
          · rintro ⟨above, line, below, next, rfl, rfl, hpass, hline⟩
            exact ⟨first :: above, line, below, next, rfl, rfl, .cons hfirst hpass, hline⟩
          · rintro ⟨above, line, below, next, hls, hlength, hpass, hline⟩
            cases hpass with
            | nil => cases hlength
            | cons hhead hpass =>
              obtain ⟨rfl, hbelow⟩ := List.cons.inj hls
              rw [hfirst] at hhead
              obtain ⟨-, rfl⟩ := Prod.mk.inj (Except.ok.inj hhead)
              exact ⟨_, line, below, next, hbelow, Nat.succ.inj hlength, hpass, hline⟩

end

variable {c : Classifier} {ls : List Line}

theorem failsOn_iff : c.FailsOn ls ↔ ∃ e, c.run ls = .error e := exists_runFrom_error_iff.symm

theorem exists_run_of_not_failsOn (h : ¬c.FailsOn ls) : ∃ results, c.run ls = .ok results := by
  cases hrun : c.run ls with
  | error e => exact absurd (failsOn_iff.2 ⟨e, hrun⟩) h
  | ok results => exact ⟨results, rfl⟩

/-- The spans that a run gives for a line are those that count. -/
theorem inLiteral_iff {results : List (LineState × List Piece)} (h : c.run ls = .ok results)
    (range : Range) : c.InLiteral ls range ↔
      ∃ pieces ∈ (results.map Prod.snd)[range.start.line]?, Query.inQuoted pieces range := by
  have hquoted : ∀ pieces, Query.inQuoted pieces range ↔ ∃ span ∈ Piece.spans pieces,
      span.cls ≠ .code ∧ span.start < range.stop.col ∧ range.start.col < span.stop := by
    intro pieces
    simp [Query.inQuoted, and_assoc]
  constructor
  · rintro ⟨above, line, below, state, pieces, next, hls, hlength, hpass, hline, hspan⟩
    have hget := (getElem?_runFrom h).2 ⟨above, line, below, next, hls, hlength, hpass, hline⟩
    exact ⟨pieces, by rw [List.getElem?_map, hget]; rfl, (hquoted pieces).2 hspan⟩
  · rintro ⟨pieces, hpieces, hspan⟩
    rw [Option.mem_def, List.getElem?_map, Option.map_eq_some_iff] at hpieces
    obtain ⟨⟨state, pieces⟩, hget, rfl⟩ := hpieces
    obtain ⟨above, line, below, next, hls, hlength, hpass, hline⟩ := (getElem?_runFrom h).1 hget
    exact ⟨above, line, below, state, pieces, next, hls, hlength, hpass, hline, (hquoted _).1 hspan⟩

end Lexical.Classifier

open Lexical (Classifier)

/-! ## Declarations -/

/-- If the classifier fails, no line is read with its literals blanked out, however late the
failing line comes. -/
theorem Declaration.parse_of_failsOn {c : Classifier} {ls : List Line} (h : c.FailsOn ls)
    (mode : ParseMode) : parse mode (some c) ls = parse mode none ls := by
  obtain ⟨e, he⟩ := Classifier.failsOn_iff.1 h
  have hskeleton : c.skeleton ls = .error e := by rw [Classifier.skeleton, he]; rfl
  simp only [parse, prepare, hskeleton]

namespace Query

open RakuAtlas.Symbol (SymbolName)

/-! ## Occurrences -/

section
variable {c : Classifier} (name : SymbolName) (file : FileId) {text : String} (first : Nat)

theorem occurrences_of_failsOn (h : c.FailsOn (lines text)) :
    occurrences (some c) name file text first = occurrences none name file text first := by
  obtain ⟨e, he⟩ := Classifier.failsOn_iff.1 h
  have hpieces : c.pieces (lines text) = .error e := by rw [Classifier.pieces, he]; rfl
  simp only [occurrences, codeOnly, hpieces]

open scoped Classical in
theorem occurrences_of_not_failsOn (h : ¬c.FailsOn (lines text)) :
    occurrences (some c) name file text first =
      (occurrences none name file text first).filter
        fun o => ¬c.InLiteral (lines text) o.location.range := by
  obtain ⟨results, hrun⟩ := Classifier.exists_run_of_not_failsOn h
  have hpieces : c.pieces (lines text) = .ok (results.map Prod.snd) := by
    rw [Classifier.pieces, hrun]
    rfl
  simp only [occurrences, codeOnly, hpieces]
  refine List.filter_congr fun o _ => ?_
  rw [Bool.eq_iff_iff, decide_eq_true_iff, Classifier.inLiteral_iff hrun]
  cases (results.map Prod.snd)[o.location.range.start.line]? with
  | none => simp
  | some pieces => simp

end

/-! ## References -/

/-- The references that are in one file. -/
def References.inFile (refs : References) (file : FileId) : References :=
  { refs with occurrences := refs.occurrences.filter (·.location.file == file) }

/-- The text of a file as it is searched: that of the document, or what can be read. -/
def textIn? (world : World) (doc : Document) (file : FileId) : Option String :=
  if file = doc.table.file then some doc.text else world.files.text? world.disk file

section
variable {world : World} {doc : Document} {file : FileId} {text : String}

/-- The references in one file are what is found in it alone. -/
theorem map_inFile_referencesTo? [PatternLibrary] (world : World) (doc : Document)
    (symbol : String) (line : Nat) (file : FileId) :
    (referencesTo? world doc symbol line).map (·.inFile file) =
      (target? world doc symbol line).map fun target =>
        ⟨target.1, target.2, foundIn world doc target.1 target.2 file⟩ := by
  rw [referencesTo?_eq, Option.map_map]
  refine congrArg (Option.map · _) (funext fun target => ?_)
  exact congrArg (References.mk target.1 target.2) (filter_deduplicate_found file)

/-- A file is searched as a whole or from a line on, and in no text but its own. -/
theorem searchedFrom?_cases (searched : String) (declaration : Symbol)
    (htext : textIn? world doc file = some text) :
    searchedFrom? world doc searched declaration file = none ∨
      ∃ first, searchedFrom? world doc searched declaration file = some (text, first) := by
  unfold searchedFrom? searchedText?
  unfold textIn? at htext
  by_cases hown : file = doc.table.file
  · rw [if_pos hown, Option.some.injEq] at htext
    simp only [if_pos hown, htext]
    split
    · exact Or.inr ⟨_, rfl⟩
    · exact Or.inr ⟨_, rfl⟩
  · rw [if_neg hown] at htext
    simp only [if_neg hown, htext]
    split
    · exact Or.inl rfl
    · split
      · exact Or.inr ⟨_, rfl⟩
      · exact Or.inl rfl

variable {c : Classifier}

theorem foundIn_of_failsOn (searched : String) (declaration : Symbol)
    (htext : textIn? world doc file = some text) (h : c.FailsOn (lines text)) :
    foundIn { world with classifier := some c } doc searched declaration file =
      foundIn { world with classifier := none } doc searched declaration file := by
  have hsame : ∀ classifier, searchedFrom? { world with classifier := classifier } doc searched
      declaration file = searchedFrom? world doc searched declaration file := fun _ => rfl
  simp only [foundIn, hsame]
  rcases searchedFrom?_cases searched declaration htext with hnone | ⟨first, hfirst⟩
  · simp only [hnone]
  · simp only [hfirst, occurrences_of_failsOn _ file first h]

open scoped Classical in
theorem foundIn_of_not_failsOn (searched : String) (declaration : Symbol)
    (htext : textIn? world doc file = some text) (h : ¬c.FailsOn (lines text)) :
    foundIn { world with classifier := some c } doc searched declaration file =
      (foundIn { world with classifier := none } doc searched declaration file).filter
        fun o => ¬c.InLiteral (lines text) o.location.range := by
  have hsame : ∀ classifier, searchedFrom? { world with classifier := classifier } doc searched
      declaration file = searchedFrom? world doc searched declaration file := fun _ => rfl
  simp only [foundIn, hsame]
  rcases searchedFrom?_cases searched declaration htext with hnone | ⟨first, hfirst⟩
  · simp only [hnone, List.filter_nil]
  · simp only [hfirst, occurrences_of_not_failsOn _ file first h]

/-- What is found in a file depends on the text of that file, whatever the others are. -/
theorem foundIn_of_textIn? {world' : World} {doc' : Document} (hindex : world'.index = world.index)
    (hclassifier : world'.classifier = world.classifier) (hfile : doc'.table.file = doc.table.file)
    (htext : textIn? world' doc' file = textIn? world doc file) (searched : String)
    (declaration : Symbol) : foundIn world' doc' searched declaration file =
      foundIn world doc searched declaration file := by
  have hfrom : searchedFrom? world' doc' searched declaration file =
      searchedFrom? world doc searched declaration file := by
    unfold searchedFrom? searchedText?
    unfold textIn? at htext
    rw [hfile] at htext ⊢
    by_cases hown : file = doc.table.file
    · rw [if_pos hown, if_pos hown, Option.some.injEq] at htext
      simp only [if_pos hown, htext]
    · rw [if_neg hown, if_neg hown] at htext
      simp only [if_neg hown, hindex, htext]
  simp only [foundIn, hfrom, hclassifier]

end

open scoped Classical in
/-- A classifier that fails on a line of a text counts for nothing in the whole text. The
declarations are then read as without a classifier, in every mode. Of the references, those in a
file on which the classifier fails are those found without one, and those in a file on which it
does not fail are those found without one that overlap nothing but code. What is searched for
and its declaration are the same, and the texts of the other files, and so also whether the
classifier fails on them, do not matter. -/
theorem classifier_failsOpen [PatternLibrary] (c : Classifier) :
    (∀ ls, c.FailsOn ls → ∀ mode,
        Declaration.parse mode (some c) ls = Declaration.parse mode none ls) ∧
      ∀ (world : World) (doc : Document) (symbol : String) (line : Nat) (file : FileId)
        (text : String), textIn? world doc file = some text →
        let filtered := referencesTo? { world with classifier := some c } doc symbol line
        let all := referencesTo? { world with classifier := none } doc symbol line
        (c.FailsOn (lines text) → filtered.map (·.inFile file) = all.map (·.inFile file)) ∧
          (¬c.FailsOn (lines text) → filtered.map (·.inFile file) =
            all.map fun refs => { refs with
              occurrences := (refs.inFile file).occurrences.filter
                fun o => ¬c.InLiteral (lines text) o.location.range }) ∧
          ∀ (world' : World) (doc' : Document), world'.index = world.index →
            world'.modules = world.modules → world'.classifier = some c →
            doc'.table = doc.table → textIn? world' doc' file = some text →
            (referencesTo? world' doc' symbol line).map (·.inFile file) =
              filtered.map (·.inFile file) := by
  refine ⟨fun ls h mode => Declaration.parse_of_failsOn h mode, ?_⟩
  intro world doc symbol line file text htext
  have htarget : ∀ classifier, target? { world with classifier := classifier } doc symbol line =
      target? world doc symbol line := fun _ => rfl
  refine ⟨fun hfails => ?_, fun hpasses => ?_, ?_⟩
  · rw [map_inFile_referencesTo?, map_inFile_referencesTo?, htarget, htarget]
    refine congrArg (Option.map · _) (funext fun target => ?_)
    rw [foundIn_of_failsOn target.1 target.2 htext hfails]
  · have hall := congrArg
      (Option.map fun refs : References => { refs with
        occurrences := refs.occurrences.filter
          fun o => ¬c.InLiteral (lines text) o.location.range })
      (map_inFile_referencesTo? { world with classifier := none } doc symbol line file)
    rw [Option.map_map] at hall
    refine Eq.trans ?_ hall.symm
    rw [map_inFile_referencesTo?, Option.map_map, htarget, htarget]
    refine congrArg (Option.map · _) (funext fun target => ?_)
    rw [foundIn_of_not_failsOn target.1 target.2 htext hpasses]
    rfl
  · intro world' doc' hindex hmodules hclassifier htable htext'
    have htarget' : target? world' doc' symbol line = target? world doc symbol line := by
      simp only [target?, Document.scopes, hindex, hmodules, htable]
    rw [map_inFile_referencesTo?, map_inFile_referencesTo?, htarget', htarget]
    refine congrArg (Option.map · _) (funext fun target => ?_)
    exact congrArg (References.mk target.1 target.2)
      (@foundIn_of_textIn? { world with classifier := some c } doc file world' doc' hindex
        hclassifier (congrArg Table.file htable) (htext'.trans htext.symm) target.1 target.2)

/-! Two more files declare a routine and name it in a string, and the classifier gives up on the
last line of one of them. -/

def untilX : Classifier := .failingOn "X"

/-- The brace in the string would end the class. -/
def bracedLines : List Line :=
  ["class A \x7b".toList, "my $s = \"\x7d\";".toList, "\x7d".toList, "X".toList]

def textWithX : String := "sub run \x7b \x7d\n\"run\"\nX"

def textWithoutX : String := "sub run \x7b \x7d\n\"run\""

def halfClassified : World := routineWorld [(⟨1⟩, textWithX), (⟨2⟩, textWithoutX)]

def allClassified : World := routineWorld [(⟨1⟩, textWithoutX), (⟨2⟩, textWithoutX)]

theorem referencesTo?_halfClassified {file : FileId} {text : String}
    (htext : searchedText? halfClassified routineDoc "run" file = some text) :
    (referencesTo? { halfClassified with classifier := none } routineDoc "run" 1).map
      (·.inFile file) =
        some ⟨"run", routineSub 0, occurrences none (.parse "run".toList) file text 0⟩ := by
  have htarget : target? { halfClassified with classifier := none } routineDoc "run" 1 =
      some ("run", routineSub 0) := by decide +kernel
  have hfound : foundIn { halfClassified with classifier := none } routineDoc "run" (routineSub 0)
      file = occurrences none (.parse "run".toList) file text 0 := by
    have hsearched : searchedText? { halfClassified with classifier := none } routineDoc
        (routineSub 0).name file = some text := htext
    rw [foundIn, searchedFrom?, if_neg (by decide), hsearched]
    rfl
  rw [map_inFile_referencesTo?, htarget, Option.map_some, hfound]

/-- The string counts as code where the classifier fails, also with the class, and is left out
where it does not. What is found there is the same if the classifier fails nowhere. -/
theorem classifier_failsOpen_lastLine :
    (untilX.FailsOn bracedLines ∧
        Declaration.parse .outline (some untilX) bracedLines = [⟨0, "", .scope .classDecl "A" 1⟩]) ∧
      (untilX.FailsOn (lines textWithX) ∧
        (referencesTo? { halfClassified with classifier := some untilX } routineDoc "run" 1).map
          (·.inFile ⟨1⟩) = some ⟨"run", routineSub 0, [useOfRun 1 0 4, useOfRun 1 1 1]⟩) ∧
      ¬untilX.FailsOn (lines textWithoutX) ∧
      (referencesTo? { halfClassified with classifier := some untilX } routineDoc "run" 1).map
        (·.inFile ⟨2⟩) = some ⟨"run", routineSub 0, [useOfRun 2 0 4]⟩ ∧
      (referencesTo? { allClassified with classifier := some untilX } routineDoc "run" 1).map
        (·.inFile ⟨2⟩) = some ⟨"run", routineSub 0, [useOfRun 2 0 4]⟩ := by
  obtain ⟨hparse, hrefs⟩ := classifier_failsOpen untilX
  have hbraced : untilX.FailsOn bracedLines := Classifier.failsOn_iff.2 ⟨_, rfl⟩
  have hfails : untilX.FailsOn (lines textWithX) := Classifier.failsOn_iff.2 ⟨_, rfl⟩
  have hrun : untilX.run (lines textWithoutX) = .ok
      [(.initial, [⟨.code, "sub run \x7b \x7d".toList⟩]),
        (.initial, [⟨.string, "\"run\"".toList⟩])] := by decide +kernel
  have hpasses : ¬untilX.FailsOn (lines textWithoutX) := by
    rw [Classifier.failsOn_iff, hrun]
    rintro ⟨e, he⟩
    cases he
  have hdeclaring : halfClassified.index.filesDeclaring "run" = [⟨1⟩, ⟨2⟩] := by
    rw [Index.filesDeclaring, List.mergeSort_of_pairwise (by decide)]
    decide
  have htext : ∀ file ∈ [(⟨1⟩ : FileId), ⟨2⟩], searchedText? halfClassified routineDoc "run" file =
      textIn? halfClassified routineDoc file := by
    intro file hfile
    rw [searchedText?, hdeclaring, if_pos hfile]
    rfl
  have hopen : textIn? halfClassified routineDoc ⟨1⟩ = some textWithX ∧
      textIn? halfClassified routineDoc ⟨2⟩ = some textWithoutX := by decide +kernel
  obtain ⟨hall, -, -⟩ := hrefs halfClassified routineDoc "run" 1 ⟨1⟩ textWithX hopen.1
  obtain ⟨-, hsome, hother⟩ := hrefs halfClassified routineDoc "run" 1 ⟨2⟩ textWithoutX hopen.2
  have houtline := (hparse _ hbraced .outline).trans
    (by decide +kernel : _ = [⟨0, "", .scope .classDecl "A" 1⟩])
  have hsecond : (referencesTo? { halfClassified with classifier := some untilX } routineDoc "run"
      1).map (·.inFile ⟨2⟩) = some ⟨"run", routineSub 0, [useOfRun 2 0 4]⟩ := by
    have hfound : occurrences none (.parse "run".toList) ⟨2⟩ textWithoutX 0 =
        [useOfRun 2 0 4, useOfRun 2 1 1] := by decide +kernel
    have hcode : ¬untilX.InLiteral (lines textWithoutX) (useOfRun 2 0 4).location.range := by
      rw [Classifier.inLiteral_iff hrun]
      decide
    have hstring : untilX.InLiteral (lines textWithoutX) (useOfRun 2 1 1).location.range :=
      (Classifier.inLiteral_iff hrun _).2 ⟨_, rfl, by decide⟩
    have hkept := referencesTo?_halfClassified ((htext ⟨2⟩ (by decide)).trans hopen.2)
    rw [hfound, Option.map_eq_some_iff] at hkept
    obtain ⟨refs, hrefs, hkept⟩ := hkept
    obtain ⟨hsymbol, hdeclaration, hoccurrences⟩ := References.mk.inj hkept
    have hin : (refs.inFile ⟨2⟩).occurrences = [useOfRun 2 0 4, useOfRun 2 1 1] := hoccurrences
    rw [hsome hpasses, hrefs, Option.map_some, hsymbol, hdeclaration, hin,
      List.filter_cons_of_pos (by simpa using hcode),
      List.filter_cons_of_neg (by simpa using hstring), List.filter_nil]
  refine ⟨⟨hbraced, houtline⟩, ⟨hfails, ?_⟩, hpasses, hsecond, ?_⟩
  · rw [hall hfails, referencesTo?_halfClassified ((htext ⟨1⟩ (by decide)).trans hopen.1)]
    decide +kernel
  · exact (hother { allClassified with classifier := some untilX } routineDoc rfl rfl rfl rfl
      (by decide +kernel)).trans hsecond

end Query

end RakuAtlas
