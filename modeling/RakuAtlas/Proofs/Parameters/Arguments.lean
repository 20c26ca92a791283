import RakuAtlas.Proofs.Parameters.Signature

/-!
# RakuAtlas.Proofs.Parameters.Arguments — what a line takes from the arguments

A line of a body takes parameters from the arguments by `my (...) = @_` and `my $x = shift`.
Behind a word, both readings go on in the same way whatever stands there, if only no name and
no assignment of theirs does (`BehindParameter`, `argumentList?_stop`, `shifted?_stop`). An
empty hash as the default value of a parameter is such a text, and so is none
(`takenParams_emptyDefault`).
-/

namespace RakuAtlas

open Unicode (isBlank isWord)
open Text
open Lexical (takeWhile_stop dropWhile_stop head?_stop)
open Query (IsSymbolChar not_isBlank_of_isSymbolChar)
open RakuAtlas.Symbol (isSigil)

namespace Variable

/-! ### In a body -/

/-- Whether `= shift` comes here, behind the variable that it is assigned to. -/
def isShift (cs : Line) : Bool :=
  let rest := trimStart cs
  let rest := do
    let rest ← afterChar? '=' (trimStart ((afterChar? ')' rest).getD rest))
    afterWord? "shift" (trimStart rest)
  rest.any atWordEnd

/-- The argument is taken where a variable and then `= shift` come. -/
theorem shifted?_eq (cs : Line) :
    shifted? cs = (afterWord? "my" cs).bind fun rest =>
      (Header.scalar? (trimStart
        ((afterChar? '(' (trimStart rest)).getD (trimStart rest)))).bind fun (target, rest) =>
          if isShift rest then some [String.ofList target] else none := by
  unfold shifted?
  cases afterWord? "my" cs with
  | none => rfl
  | some rest =>
    simp only [Option.bind_eq_bind, Option.bind_some]
    cases Header.scalar? (trimStart ((afterChar? '(' (trimStart rest)).getD (trimStart rest))) with
    | none => rfl
    | some found =>
      cases hvalue : afterChar? '=' (trimStart ((afterChar? ')' (trimStart found.2)).getD
        (trimStart found.2))) with
      | none => simp [isShift, hvalue]
      | some value =>
        cases hword : afterWord? "shift" (trimStart value) with
        | none => simp [isShift, hvalue, hword]
        | some behind => simp [isShift, hvalue, hword]

/-- Whether `= @_` comes here, behind the list that it is assigned to. -/
def isArguments (cs : Line) : Bool :=
  let rest := do
    let rest ← afterChar? '=' (trimStart cs)
    afterWord? "@_" (trimStart rest)
  rest.isSome

/-- The arguments are taken where a list in parentheses and then `= @_` come. -/
theorem argumentList?_eq (cs : Line) :
    argumentList? cs = (afterWord? "my" cs).bind fun rest =>
      (afterChar? '(' (trimStart rest)).bind fun rest =>
        (afterChar? ')' (rest.dropWhile (· ≠ ')'))).bind fun behind =>
          if isArguments behind then some (variablesIn (rest.takeWhile (· ≠ ')'))) else none := by
  unfold argumentList?
  cases afterWord? "my" cs with
  | none => rfl
  | some rest =>
    simp only [Option.bind_eq_bind, Option.bind_some]
    cases afterChar? '(' (trimStart rest) with
    | none => rfl
    | some list =>
      simp only [Option.bind_some]
      cases afterChar? ')' (list.dropWhile (· ≠ ')')) with
      | none => rfl
      | some behind =>
        cases hvalue : afterChar? '=' (trimStart behind) with
        | none => simp [isArguments, hvalue]
        | some value =>
          cases hword : afterWord? "@_" (trimStart value) with
          | none => simp [isArguments, hvalue, hword]
          | some rest => simp [isArguments, hvalue, hword]

/-- What stands behind a parameter, up to the next one. -/
structure BehindParameter (tail : Line) : Prop where
  next : ∀ c ∈ (trimStart tail).head?, c = ',' ∨ c = ')' ∨ c = '='
  unshifted : isShift tail = false

namespace BehindParameter

variable {tail : Line} (h : BehindParameter tail)
include h

/-- A symbol does not go on behind a parameter. -/
theorem apart : ∀ c ∈ tail.head?, ¬IsSymbolChar c := by
  intro c hc hsymbol
  cases tail with
  | nil => cases hc
  | cons d more =>
    obtain rfl : d = c := Option.some.inj hc
    have hkeep : trimStart (d :: more) = d :: more :=
      List.dropWhile_cons_of_neg (not_isBlank_of_isSymbolChar hsymbol)
    have hnext := h.next d (by rw [hkeep]; rfl)
    rcases hnext with rfl | rfl | rfl <;> exact absurd hsymbol (by decide)

/-- No word goes on behind a parameter. -/
theorem not_mem {word : String} (hword : word.toList.all fun c => IsSymbolChar c) :
    ∀ c ∈ tail.head?, c ∉ word.toList := by
  intro c hc hmem
  exact h.apart c hc (of_decide_eq_true (List.all_eq_true.1 hword c hmem))

theorem apart_takeWhile {p : Char → Bool} : ∀ c ∈ (tail.takeWhile p).head?, ¬IsSymbolChar c := by
  intro c hc
  cases tail with
  | nil => cases hc
  | cons d more =>
    by_cases hd : p d
    · rw [List.takeWhile_cons_of_pos hd] at hc
      exact h.apart c hc
    · rw [List.takeWhile_cons_of_neg hd] at hc
      cases hc

theorem afterMy?_eq (w : Char) (inner : Line) :
    afterWord? "my" (inner ++ w :: tail) = (afterWord? "my" (inner ++ [w])).map (· ++ tail) := by
  rw [List.append_cons]
  exact afterWord?_append (h.not_mem (by decide))

theorem afterChar?_eq_none {c : Char} (hc : ¬(c = ',' ∨ c = ')' ∨ c = '=')) :
    afterChar? c (trimStart tail) = none := by
  cases hnext : trimStart tail with
  | nil => rfl
  | cons d more =>
    have hne : c ≠ d := by
      rintro rfl
      exact hc (h.next c (by rw [hnext]; rfl))
    simp [afterChar?, hne]

theorem scalar?_eq_none :
    Header.scalar? (trimStart ((afterChar? '(' (trimStart tail)).getD (trimStart tail))) =
      none := by
  have htrim : trimStart (trimStart tail) = trimStart tail := List.dropWhile_idempotent ..
  rw [h.afterChar?_eq_none (by decide), Option.getD_none, htrim, Header.scalar?,
    h.afterChar?_eq_none (by decide)]
  rfl

end BehindParameter

theorem suffix_of_scalar? {cs : Line} {found : Line × Line} (h : Header.scalar? cs = some found) :
    found.2 <:+ cs := by
  cases cs with
  | nil => cases h
  | cons c more =>
    simp only [Header.scalar?, afterChar?, Option.bind_eq_bind, Option.bind_eq_some_iff] at h
    rcases h with ⟨rest, hrest, hname⟩
    split at hrest
    · cases hrest
      split at hname
      · cases hname
        exact (List.dropWhile_suffix _).trans (List.suffix_cons c more)
      · cases hname
    · cases hrest

section
variable {w : Char} {tail tail' : Line} (hw : isWord w)
include hw

/-- In front of a word, an assignment of an argument is read up to the tail at most. -/
theorem isShift_stop (h : BehindParameter tail) (inner : Line) :
    isShift (inner ++ w :: tail) = isShift (inner ++ [w]) := by
  have hblank := not_isBlank_of_isWord hw
  have hclose : w ≠ ')' := ne_of_isWord hw (by decide)
  have hequals : w ≠ '=' := ne_of_isWord hw (by decide)
  unfold isShift
  simp only [trimStart_stop hblank, skipChar_stop hclose, afterChar?_stop hequals]
  cases afterChar? '=' (trimStart ((afterChar? ')' (trimStart inner)).getD (trimStart inner))) with
  | none => rfl
  | some value =>
    have happend := @afterWord?_append "shift" (trimStart value ++ [w]) tail
      (h.not_mem (by decide))
    simp only [Option.map_some, Option.bind_eq_bind, Option.bind_some, trimStart_stop hblank]
    rw [List.append_cons, happend]
    cases afterWord? "shift" (trimStart value ++ [w]) with
    | none => rfl
    | some behind =>
      cases behind with
      | nil =>
        -- the word of the line is the end of `shift`, and the tail decides what follows it
        cases tail with
        | nil => rfl
        | cons c more =>
          have hword : isWord c = false :=
            Bool.eq_false_iff.2 fun hc => h.apart c rfl (.inl (.inl hc))
          simp [atWordEnd, hword]
      | cons c more => rfl

theorem isArguments_stop (h : BehindParameter tail) (inner : Line) :
    isArguments (inner ++ w :: tail) = isArguments (inner ++ [w]) := by
  have hblank := not_isBlank_of_isWord hw
  have hequals : w ≠ '=' := ne_of_isWord hw (by decide)
  unfold isArguments
  simp only [trimStart_stop hblank, afterChar?_stop hequals]
  cases afterChar? '=' (trimStart inner) with
  | none => rfl
  | some value =>
    have happend := @afterWord?_append "@_" (trimStart value ++ [w]) tail (h.not_mem (by decide))
    simp only [Option.map_some, Option.bind_eq_bind, Option.bind_some, trimStart_stop hblank]
    rw [List.append_cons, happend, Option.isSome_map]

/-- A scalar variable ends with the word or in front of it. -/
theorem scalar?_stop (h : BehindParameter tail) (inner : Line) :
    Header.scalar? (inner ++ w :: tail) =
      (Header.scalar? (inner ++ [w])).map fun found => (found.1, found.2 ++ tail) := by
  have hsigil : w ≠ '$' := ne_of_isWord hw (by decide)
  have hpart : ∀ c ∈ tail.head?, isNamePart c = false := by
    intro c hc
    have hword : isWord c = false := Bool.eq_false_iff.2 fun hc' => h.apart c hc (.inl (.inl hc'))
    have hhyphen : c ≠ '-' := fun hc' => h.apart c hc (.inl (.inr (.inl hc')))
    simp [isNamePart, hword, hhyphen]
  unfold Header.scalar?
  rw [afterChar?_stop hsigil, afterChar?_stop hsigil]
  cases afterChar? '$' inner with
  | none => rfl
  | some name =>
    have hhead : headIs isNamePart (name ++ w :: tail) = headIs isNamePart (name ++ [w]) := by
      rw [headIs, head?_stop, headIs]
    simp only [Option.map_some, Option.bind_eq_bind, Option.bind_some, hhead]
    rw [List.append_cons name w tail, takeWhile_tail hpart, dropWhile_tail hpart]
    by_cases hname : headIs isNamePart (name ++ [w])
    · rw [if_pos hname, if_pos hname]
      rfl
    · rw [if_neg hname, if_neg hname]
      rfl

/-- What `my $x = shift` takes does not depend on the tail. -/
theorem shifted?_stop (h : BehindParameter tail) (h' : BehindParameter tail') (inner : Line) :
    shifted? (inner ++ w :: tail) = shifted? (inner ++ w :: tail') := by
  have hblank := not_isBlank_of_isWord hw
  have hopen : w ≠ '(' := ne_of_isWord hw (by decide)
  rw [shifted?_eq, shifted?_eq, h.afterMy?_eq, h'.afterMy?_eq]
  cases hmy : afterWord? "my" (inner ++ [w]) with
  | none => rfl
  | some rest =>
    simp only [Option.map_some, Option.bind_some]
    rcases List.suffix_concat_iff.1 (suffix_of_afterWord? hmy) with rfl | ⟨inner, rfl, -⟩
    · -- the word is the end of `my`, and the tail starts with no variable
      rw [List.nil_append, List.nil_append, h.scalar?_eq_none, h'.scalar?_eq_none]
    · simp only [← List.append_cons, trimStart_stop hblank, skipChar_stop hopen,
        scalar?_stop hw h, scalar?_stop hw h']
      cases hscalar : Header.scalar? (trimStart ((afterChar? '(' (trimStart inner)).getD
        (trimStart inner)) ++ [w]) with
      | none => rfl
      | some found =>
        simp only [Option.map_some, Option.bind_some]
        rcases List.suffix_concat_iff.1 (suffix_of_scalar? hscalar) with hnil | ⟨rest, hrest, -⟩
        · -- the variable ends with the word, and nothing is assigned to it
          rw [hnil, List.nil_append, List.nil_append, h.unshifted, h'.unshifted]
        · rw [hrest, ← List.append_cons, ← List.append_cons, isShift_stop hw h, isShift_stop hw h']

/-- What `my (...) = @_` takes depends on the tail only if the list goes on there: by the variables
up to a closing parenthesis and by what follows it. -/
theorem argumentList?_stop (h : BehindParameter tail) (h' : BehindParameter tail')
    (hbehind : tail.dropWhile (· ≠ ')') = tail'.dropWhile (· ≠ ')'))
    (hlisted : variablesIn (tail.takeWhile (· ≠ ')')) = variablesIn (tail'.takeWhile (· ≠ ')')))
    (inner : Line) :
    argumentList? (inner ++ w :: tail) = argumentList? (inner ++ w :: tail') := by
  have hblank := not_isBlank_of_isWord hw
  have hopen : w ≠ '(' := ne_of_isWord hw (by decide)
  have hclose : w ≠ ')' := ne_of_isWord hw (by decide)
  rw [argumentList?_eq, argumentList?_eq, h.afterMy?_eq, h'.afterMy?_eq]
  cases hmy : afterWord? "my" (inner ++ [w]) with
  | none => rfl
  | some rest =>
    simp only [Option.map_some, Option.bind_some]
    rcases List.suffix_concat_iff.1 (suffix_of_afterWord? hmy) with rfl | ⟨inner, rfl, -⟩
    · rw [List.nil_append, List.nil_append, h.afterChar?_eq_none (by decide),
        h'.afterChar?_eq_none (by decide)]
    · simp only [← List.append_cons, trimStart_stop hblank, afterChar?_stop hopen]
      cases afterChar? '(' (trimStart inner) with
      | none => rfl
      | some list =>
        simp only [Option.map_some, Option.bind_some]
        by_cases hclosed : ')' ∈ list
        · -- the list is closed in front of the word
          obtain ⟨listed, behind, rfl⟩ := List.append_of_mem hclosed
          have htake : ∀ cs, (listed ++ ')' :: behind ++ w :: cs).takeWhile (· ≠ ')') =
              listed.takeWhile (· ≠ ')') := by
            intro cs
            rw [List.append_assoc]
            exact takeWhile_stop (by decide) listed _
          have hdrop : ∀ cs, (listed ++ ')' :: behind ++ w :: cs).dropWhile (· ≠ ')') =
              listed.dropWhile (· ≠ ')') ++ ')' :: behind ++ w :: cs := by
            intro cs
            rw [List.append_assoc, List.append_assoc]
            exact dropWhile_stop (by decide) listed _
          rw [htake, htake, hdrop, hdrop, afterChar?_stop hclose, afterChar?_stop hclose]
          cases afterChar? ')' (listed.dropWhile (· ≠ ')') ++ ')' :: behind) with
          | none => rfl
          | some rest =>
            simp only [Option.map_some, Option.bind_some, isArguments_stop hw h,
              isArguments_stop hw h']
        · -- the list goes on behind the word
          have hpart : ∀ c ∈ list ++ [w], decide (c ≠ ')') = true := by
            intro c hc
            rw [decide_eq_true_iff]
            rintro rfl
            rcases List.mem_append.1 hc with hlist | hword
            · exact hclosed hlist
            · exact hclose (List.mem_singleton.1 hword).symm
          have htake : ∀ cs, (list ++ w :: cs).takeWhile (· ≠ ')') =
              list ++ [w] ++ cs.takeWhile (· ≠ ')') := by
            intro cs
            rw [List.append_cons, List.takeWhile_append_of_pos hpart]
          have hdrop : ∀ cs, (list ++ w :: cs).dropWhile (· ≠ ')') = cs.dropWhile (· ≠ ')') := by
            intro cs
            rw [List.append_cons, List.dropWhile_append_of_pos hpart]
          rw [htake, htake, hdrop, hdrop, hbehind, variablesIn_append h.apart_takeWhile,
            variablesIn_append h'.apart_takeWhile, hlisted]

end

/-- What may follow the default value of a parameter: the end of the line, a comma, or a closing
parenthesis to which nothing is assigned. -/
structure EndsParameter (back : Line) : Prop where
  atEnd : AtParameterEnd back
  unassigned : ∀ cs, trimStart back = ')' :: cs → (trimStart cs).head? ≠ some '='

section
variable {blanks back : Line} (hblanks : ∀ c ∈ blanks, isBlank c)
include hblanks

theorem behindParameter_of_endsParameter (hback : EndsParameter back) :
    BehindParameter (blanks ++ back) := by
  have htrim : trimStart (blanks ++ back) = trimStart back := List.dropWhile_append_of_pos hblanks
  constructor
  · intro c hc
    rw [htrim] at hc
    rcases hback.atEnd c hc with rfl | rfl <;> decide
  · unfold isShift
    rw [htrim]
    cases hnext : trimStart back with
    | nil => rfl
    | cons c cs =>
      rcases hback.atEnd c (by rw [hnext]; rfl) with rfl | rfl
      · rfl
      · have hvalue : afterChar? '=' (trimStart cs) = none := by
          have hunassigned := hback.unassigned cs hnext
          cases hcs : trimStart cs with
          | nil => rfl
          | cons d more =>
            have hd : '=' ≠ d := by
              rintro rfl
              rw [hcs] at hunassigned
              exact hunassigned rfl
            simp [afterChar?, hd]
        have hclose : (afterChar? ')' (')' :: cs)).getD (')' :: cs) = cs := rfl
        dsimp only
        rw [hclose, hvalue]
        rfl

theorem behindParameter_emptyDefault (back : Line) :
    BehindParameter (blanks ++ (Block.emptyDefault ++ back)) := by
  have htrim : trimStart (blanks ++ (Block.emptyDefault ++ back)) = Block.emptyDefault ++ back :=
    List.dropWhile_append_of_pos hblanks
  constructor
  · intro c hc
    rw [htrim] at hc
    cases hc
    decide
  · unfold isShift
    rw [htrim]
    rfl

end

/-- A text in which neither a parameter nor an argument is named, and which closes no list. -/
def IsGap (gap : Line) : Prop := ∀ c ∈ gap, ¬isSigil c ∧ c ≠ ')' ∧ c ≠ 'm'

theorem isGap_blanks {blanks : Line} (h : ∀ c ∈ blanks, isBlank c) : IsGap blanks :=
  fun b hb => ⟨not_isSigil_of_isBlank (h b hb), ne_of_isBlank (h b hb) (by decide),
    ne_of_isBlank (h b hb) (by decide)⟩

theorem afterMy?_of_ne {c : Char} (hc : c ≠ 'm') (cs : Line) :
    afterWord? "my" (c :: cs) = none := by
  simp [afterWord?, List.isPrefixOf?, hc.symm]

theorem argumentList?_of_ne {c : Char} (hc : c ≠ 'm') (cs : Line) :
    argumentList? (c :: cs) = none := by
  rw [argumentList?_eq, afterMy?_of_ne hc]
  rfl

theorem shifted?_of_ne {c : Char} (hc : c ≠ 'm') (cs : Line) : shifted? (c :: cs) = none := by
  rw [shifted?_eq, afterMy?_of_ne hc]
  rfl

section
variable {gap gap' back : Line} (hgap : IsGap gap)
include hgap

theorem dropWhile_gap : (gap ++ back).dropWhile (· ≠ ')') = back.dropWhile (· ≠ ')') :=
  List.dropWhile_append_of_pos fun c hc => decide_eq_true (hgap c hc).2.1

theorem variablesIn_takeWhile_gap :
    variablesIn ((gap ++ back).takeWhile (· ≠ ')')) = variablesIn (back.takeWhile (· ≠ ')')) := by
  rw [List.takeWhile_append_of_pos fun c hc => decide_eq_true (hgap c hc).2.1]
  exact variablesIn_idle (fun c hc => (hgap c hc).1) _

variable {w : Char} (hgap' : IsGap gap')
include hgap'

/-- A search that starts at `my` passes over the gap. -/
theorem firstAt?_gap {find : Line → Option (List String)}
    (hidle : ∀ c, c ≠ 'm' → ∀ cs, find (c :: cs) = none)
    (hfind : ∀ inner, find (inner ++ w :: (gap ++ back)) = find (inner ++ w :: (gap' ++ back)))
    (inner : Line) :
    firstAt? find (inner ++ w :: (gap ++ back)) = firstAt? find (inner ++ w :: (gap' ++ back)) := by
  apply firstAt?_stop hfind
  rw [firstAt?_idle fun c hc => hidle c (hgap c hc).2.2,
    firstAt?_idle fun c hc => hidle c (hgap' c hc).2.2]

/-- What a line takes from the arguments does not depend on the gap behind a parameter. -/
theorem takenParams_gap (hw : isWord w) (h : BehindParameter (gap ++ back))
    (h' : BehindParameter (gap' ++ back)) (inner : Line) :
    takenParams (inner ++ w :: (gap ++ back)) = takenParams (inner ++ w :: (gap' ++ back)) := by
  have harguments := @argumentList?_stop w _ _ hw h h'
    (by rw [dropWhile_gap hgap, dropWhile_gap hgap'])
    (by rw [variablesIn_takeWhile_gap hgap, variablesIn_takeWhile_gap hgap'])
  rw [takenParams, firstAt?_gap hgap hgap' (fun _ hc => argumentList?_of_ne hc) harguments,
    firstAt?_gap hgap hgap' (fun _ hc => shifted?_of_ne hc) (shifted?_stop hw h h')]
  rfl

end

/-- An empty hash behind a parameter makes no difference to what the line takes from the
arguments. -/
theorem takenParams_emptyDefault {front back : Line} (hfront : EndsInWord front)
    (hback : EndsParameter back) :
    takenParams (front ++ (Block.emptyDefault ++ back)) = takenParams (front ++ back) := by
  rcases hfront with ⟨inner, w, blanks, rfl, hw, hblanks⟩
  have hgap := isGap_blanks hblanks
  have hdefault : IsGap (blanks ++ Block.emptyDefault) := by
    have hhash : ∀ c ∈ Block.emptyDefault, ¬isSigil c ∧ c ≠ ')' ∧ c ≠ 'm' := by
      simp only [Block.emptyDefault, List.mem_cons, List.not_mem_nil, or_false]
      rintro c (rfl | rfl | rfl | rfl) <;> decide
    intro c hc
    rcases List.mem_append.1 hc with hblank | hempty
    · exact hgap c hblank
    · exact hhash c hempty
  have hwith := behindParameter_emptyDefault hblanks back
  have hwithout := behindParameter_of_endsParameter hblanks hback
  rw [← List.append_assoc] at hwith
  have hsame := takenParams_gap hdefault hgap hw hwith hwithout inner
  simpa only [List.append_assoc, List.cons_append] using hsame

end Variable

end RakuAtlas
