import RakuAtlas.Proofs.Causality
import RakuAtlas.Proofs.Headers
import RakuAtlas.Proofs.Parameters.Lines

/-!
# RakuAtlas.Proofs.Parameters.Defaults — what an empty hash hides

A default value that is an empty hash does not open a block. Still a callable has fewer
parameters with it than without: it hides what stands behind it on the header line and on the
lines that follow (`hiddenParams`, `emptyHash_hides_param`). It hides nothing else, and the
callable is read in any case (`callable_gains_hiddenParams`).
-/

namespace RakuAtlas

open Unicode (isBlank isWord)
open Text
open RakuAtlas.Symbol (isSigil)

/-! ## The place of a default value -/

namespace Variable

/-- The line ends in a variable, but for blanks behind it. -/
def EndsInVariable (front : Line) : Prop :=
  ∃ before name blanks, front = before ++ (name ++ blanks) ∧
    variableLen? name = some name.length ∧ ∀ c ∈ blanks, isBlank c

/-- A name that is taken whole ends in a word. -/
theorem exists_concat_of_joinedTail {name : Line} (hne : name ≠ [])
    (h : joinedTail isWord isNameStart isWord name = name.length) :
    ∃ inner w, name = inner ++ [w] ∧ isWord w := by
  fun_induction joinedTail isWord isNameStart isWord name with
  | case1 => contradiction
  | case2 c cs hc ih =>
    rw [List.length_cons] at h
    cases cs with
    | nil => exact ⟨[], c, rfl, hc⟩
    | cons d more =>
      obtain ⟨inner, w, hcs, hw⟩ := ih (List.cons_ne_nil d more) (by omega)
      exact ⟨c :: inner, w, congrArg (c :: ·) hcs, hw⟩
  | case3 c cs hc hjoin ih =>
    rw [List.length_cons] at h
    cases cs with
    | nil => simp [headIs] at hjoin
    | cons d more =>
      obtain ⟨inner, w, hcs, hw⟩ := ih (List.cons_ne_nil d more) (by omega)
      exact ⟨c :: inner, w, congrArg (c :: ·) hcs, hw⟩
  | case4 c hc d rest hjoin hcolons ih =>
    rw [List.length_cons, List.length_cons] at h
    cases rest with
    | nil => simp [headIs] at hjoin
    | cons e more =>
      obtain ⟨inner, w, hcs, hw⟩ := ih (List.cons_ne_nil e more) (by omega)
      exact ⟨c :: d :: inner, w, congrArg (fun cs => c :: d :: cs) hcs, hw⟩
  | case5 => cases h
  | case6 => cases h

theorem exists_of_variableLen?_eq {name : Line} (h : variableLen? name = some name.length) :
    ∃ sigil inner w, name = sigil :: (inner ++ [w]) ∧ isSigil sigil ∧ isWord w := by
  cases name with
  | nil => cases h
  | cons sigil cs =>
    rw [variableLen?_cons] at h
    split at h
    · next hvariable =>
      rw [Bool.and_eq_true] at hvariable
      have hskip := (suffix_skipTwigil cs).length_le
      have hlen := Option.some.inj h
      rw [List.length_cons] at hlen
      obtain ⟨inner, w, hname, hw⟩ := @exists_concat_of_joinedTail (skipTwigil cs)
        (by rintro hnil; rw [hnil] at hvariable; cases hvariable.2) (by omega)
      obtain ⟨twigil, hcs⟩ := suffix_skipTwigil cs
      rw [hname] at hcs
      exact ⟨sigil, twigil ++ inner, w, by rw [← hcs, List.append_assoc], hvariable.1, hw⟩
    · cases h

/-- Behind the sigil of the variable, the line ends in a word. -/
theorem EndsInVariable.exists_sigil {front : Line} (h : EndsInVariable front) :
    ∃ before sigil more, front = before ++ sigil :: more ∧ isSigil sigil ∧
      ∀ cs, EndsInWord (cs ++ sigil :: more) := by
  rcases h with ⟨before, name, blanks, rfl, hname, hblanks⟩
  obtain ⟨sigil, inner, w, rfl, hsigil, hw⟩ := exists_of_variableLen?_eq hname
  refine ⟨before, sigil, inner ++ w :: blanks, by simp, hsigil, ?_⟩
  intro cs
  exact ⟨cs ++ sigil :: inner, w, blanks, by simp, hw, hblanks⟩

/-- A sigil is in no header. -/
theorem isStop_of_isSigil {c : Char} (h : isSigil c) : Header.IsStop c := by
  simp only [isSigil, Bool.or_eq_true, beq_iff_eq] at h
  rcases h with (rfl | rfl) | rfl <;> decide

/-- The parameters that an empty hash hides as a default value on the line behind `pre`: what is
listed behind it on the header line, up to the next brace, and what is listed on the following
lines while the signature is open. -/
def hiddenParams (pre : List Line) (front back : Line) (below : List Line) : List String :=
  (if pre = [] then listedAfter front back else []) ++
    listedBehind (pre ++ [front ++ back]) (below.take (lookahead - pre.length))

/-- Without the empty hash, the header is still that of the same callable, which gains the hidden
parameters. -/
theorem exists_gains {front back header : Line} {pre below following : List Line}
    {kind : CallableKind} {name : String} {rest : Line} (hfront : EndsInVariable front)
    (hback : EndsParameter back)
    (hlines : pre ++ (front ++ (Block.emptyDefault ++ back)) :: below = header :: following)
    (hscope : Header.scope? header = none)
    (hcallable : Header.callable? header = some (kind, name, rest)) :
    ∃ header' following' rest', pre ++ (front ++ back) :: below = header' :: following' ∧
      Header.scope? header' = none ∧ Header.callable? header' = some (kind, name, rest') ∧
      Gains (hiddenParams pre front back below) (params rest header following)
        (params rest' header' following') := by
  obtain ⟨before, sigil, more, rfl, hsigil, hword⟩ := hfront.exists_sigil
  have hstop := isStop_of_isSigil hsigil
  have hends := hword before
  cases pre with
  | cons first pre =>
    cases hlines
    refine ⟨header, pre ++ (before ++ sigil :: more ++ back) :: below, rest, rfl, hscope, hcallable,
      ?_⟩
    exact gains_params (List.append_nil _).symm
      (gains_laterParams hends hback (header :: pre) below rfl rfl)
  | nil =>
    cases hlines
    rw [List.append_assoc, List.cons_append, Header.scope?_stop hstop] at hscope
    rw [List.append_assoc, List.cons_append, Header.callable?_stop hstop] at hcallable
    split at hcallable
    · next hline =>
      obtain ⟨found, hread, heq⟩ := Option.map_eq_some_iff.1 hcallable
      cases heq
      have hline' : isOneLine (sigil :: (more ++ back)) := by
        rw [← List.cons_append, isOneLine_append] at hline ⊢
        exact hline
      refine ⟨before ++ sigil :: more ++ back, below, found.2.2 ++ sigil :: (more ++ back), rfl, ?_,
        ?_, ?_⟩
      · rw [List.append_assoc, List.cons_append, Header.scope?_stop hstop]
        exact hscope
      · rw [List.append_assoc, List.cons_append, Header.callable?_stop hstop, if_pos hline', hread]
        rfl
      · have hlisted := signatureParams_takeWhile (hword found.2.2) hback
        have hbrace : '\x7b' ∈ found.2.2 ++ sigil :: more ↔ '\x7b' ∈ before ++ sigil :: more := by
          rw [List.mem_append, List.mem_append, Header.mem_of_callable? (by decide) hread]
        rw [listedAfter_congr hbrace, List.append_assoc, List.append_assoc] at hlisted
        exact gains_params hlisted (gains_laterParams hends hback [] below rfl rfl)
    · cases hcallable

end Variable

/-! ## Callables -/

namespace Declaration

open Recognizer

/-- In every mode, a line is first read as the header of a scope, then as that of a callable. -/
theorem exists_recognizers (mode : ParseMode) :
    ∃ more, recognizers mode = scopes :: callables :: more := by
  cases mode with
  | outline | navigation | refinement | workspaceIndex => exact ⟨_, rfl⟩

/-- A line is a callable if it is the header of one and of no scope. -/
theorem recognize_callable_iff {here : Cursor} {ctx : Context} {kind : CallableKind}
    {name : String} {stop : Nat} {params : List String} :
    (∃ next, recognize here ctx = some (.callable kind name stop params, next)) ↔
      Header.scope? here.code = none ∧ stop = here.blockStop ∧
        ∃ rest, Header.callable? here.code = some (kind, name, rest) ∧
          params = Variable.params rest here.code here.following := by
  obtain ⟨more, hmore⟩ := exists_recognizers here.mode
  constructor
  · rintro ⟨next, h⟩
    have hscope : Header.scope? here.code = none := by
      cases hscope : Header.scope? here.code with
      | none => rfl
      | some found =>
        unfold recognize at h
        rw [hmore] at h
        simp [scopes, hscope] at h
    cases recognized_of_recognize h with
    | callable hheader => exact ⟨hscope, rfl, _, hheader, rfl⟩
  · rintro ⟨hscope, rfl, rest, hcallable, rfl⟩
    have hcode : ¬here.code.isEmpty := by
      intro hempty
      rw [List.isEmpty_iff.1 hempty] at hcallable
      cases hcallable
    refine ⟨{ ctx with goesOn := !Variable.endsSignature here.code }, ?_⟩
    rw [recognize, if_neg hcode, hmore]
    simp [scopes, callables, hscope, hcallable]

/-- What is recognized on a line in every context is declared there. -/
theorem exists_mem_readFrom {mode : ParseMode} {form : Form} {above following : List Line}
    {code : Line}
    (h : ∀ ctx, ∃ next, recognize ⟨mode, above.length, code, following⟩ ctx = some (form, next)) :
    ∃ scope, ⟨above.length, scope, form⟩ ∈
      readFrom mode 0 .initial (above ++ code :: following) := by
  rw [readFrom_append, Nat.zero_add, readFrom_cons]
  generalize ((readOver mode (code :: following) 0 .initial above).2.enter above.length) = ctx
  obtain ⟨next, hnext⟩ := h ctx
  refine ⟨ctx.scope, List.mem_append_right _ (List.mem_append_left _ ?_)⟩
  rw [hnext]
  exact List.mem_singleton.2 rfl

/-- Without the empty hash behind one of its parameters, a callable is still read, with the same
kind and name. Its parameters are those that it had and those that the hash hid, and if the hash
hid none, nothing has changed. -/
theorem callable_gains_hiddenParams {mode : ParseMode} {above pre below : List Line}
    {front back : Line} {scope : String} {kind : CallableKind} {name : String} {stop : Nat}
    {params : List String} (hfront : Variable.EndsInVariable front)
    (hback : Variable.EndsParameter back)
    (hd : ⟨above.length, scope, .callable kind name stop params⟩ ∈ readFrom mode 0 .initial
      (above ++ (pre ++ (front ++ (Block.emptyDefault ++ back)) :: below))) :
    ∃ scope' stop' params', ⟨above.length, scope', .callable kind name stop' params'⟩ ∈
        readFrom mode 0 .initial (above ++ (pre ++ (front ++ back) :: below)) ∧
      Variable.Gains (Variable.hiddenParams pre front back below) params params' := by
  obtain ⟨above', header, following, before, next, hcodes, hline, hfound⟩ :=
    exists_recognize_of_mem_readFrom hd
  have hlength : above.length = above'.length := by simpa using hline
  obtain ⟨rfl, hlines⟩ := List.append_inj hcodes hlength
  obtain ⟨hscope, -, rest, hcallable, hparams⟩ := recognize_callable_iff.1 ⟨next, hfound⟩
  obtain ⟨header', following', rest', hlines', hscope', hcallable', hgains⟩ :=
    Variable.exists_gains hfront hback hlines hscope hcallable
  let here : Cursor := ⟨mode, above.length, header', following'⟩
  obtain ⟨scope', hmem⟩ := @exists_mem_readFrom mode
    (.callable kind name here.blockStop (Variable.params rest' header' following')) above following'
    header' fun ctx => recognize_callable_iff.2 ⟨hscope', rfl, rest', hcallable', rfl⟩
  refine ⟨scope', here.blockStop, Variable.params rest' header' following', ?_, ?_⟩
  · rw [hlines']
    exact hmem
  · rw [hparams]
    exact hgains

/-- The parameter behind an empty hash shows up once the hash is gone. -/
theorem callable_gains_behindHash :
    Variable.hiddenParams [] "sub f(%opts ".toList ", $x) \x7b \x7d".toList [] = ["$x"] ∧
      ∃ scope stop params, ⟨0, scope, .callable .sub "f" stop params⟩ ∈
          readFrom .outline 0 .initial ["sub f(%opts , $x) \x7b \x7d".toList] ∧
        Variable.Gains ["$x"] ["%opts"] params := by
  have hhidden : Variable.hiddenParams [] "sub f(%opts ".toList ", $x) \x7b \x7d".toList [] =
      ["$x"] := by decide +kernel
  have hfront : Variable.EndsInVariable "sub f(%opts ".toList :=
    ⟨"sub f(".toList, "%opts".toList, [' '], rfl, by decide,
      List.forall_mem_singleton.2 (by decide)⟩
  have hback : Variable.EndsParameter ", $x) \x7b \x7d".toList := by
    constructor
    · intro c hc
      cases hc
      exact .inl rfl
    · intro cs hcs
      cases hcs
  have hd : ⟨([] : List Line).length, "", .callable .sub "f" 0 ["%opts"]⟩ ∈
      readFrom .outline 0 .initial ([] ++ ([] ++ ("sub f(%opts ".toList ++ (Block.emptyDefault ++
        ", $x) \x7b \x7d".toList)) :: [])) := by decide +kernel
  have hgains := callable_gains_hiddenParams hfront hback hd
  rw [hhidden] at hgains
  exact ⟨hhidden, hgains⟩

/-- An empty hash as the default value of a parameter hides the next parameter on its line. -/
theorem emptyHash_hides_param :
    parse .outline none ["sub f(%opts = \x7b\x7d, $x) \x7b \x7d".toList] =
        [⟨0, "", .callable .sub "f" 0 ["%opts"]⟩] ∧
      parse .outline none ["sub f(%opts , $x) \x7b \x7d".toList] =
        [⟨0, "", .callable .sub "f" 0 ["%opts", "$x"]⟩] := by decide +kernel

end Declaration

end RakuAtlas
