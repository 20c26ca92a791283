import RakuAtlas.Proofs.Lexical.Openings
import RakuAtlas.Proofs.Lexical.Reach

/-!
# RakuAtlas.Proofs.Lexical.Lookahead — how far readers look

The readers of a line look ahead: at the character after a slash or a hyphen,
for the delimiter behind adverbs, for the second part of a substitution. Each
of them stops at a character that goes on with nothing it reads, and then what
stands behind that character does not matter.

* `joinedTail_stop`, `numberTail_stop`, `variableTail?_stop`, `adverbs_stop`:
  names, numbers, variables and adverbs end there as at the end of the line.
* `operator?_stop`: an operator sees the character, for it may be its
  delimiter, and no more.
* `Token.read_stop`: no token looks past a hash or a double quote.
* `Token.read_of_delimited`: a token that ends in its delimiter looks at nothing
  behind it.
* `Quote.scan_stop`, `terminator?_append`: what closes before the character
  closes whatever stands behind it.
-/

namespace RakuAtlas.Lexical

open Unicode (isBlank)
open Text (Line headIs joinedTail isNameStart)

/-! ## Lists -/

theorem takeWhile_stop {p : Char → Bool} {x : Char} (hx : p x = false) (front back : Line) :
    (front ++ x :: back).takeWhile p = front.takeWhile p := by
  induction front with
  | nil => simp [hx]
  | cons c more ih =>
    by_cases hc : p c
    · simp [hc, ih]
    · simp [hc]

theorem dropWhile_stop {p : Char → Bool} {x : Char} (hx : p x = false) (front back : Line) :
    (front ++ x :: back).dropWhile p = front.dropWhile p ++ x :: back := by
  induction front with
  | nil => simp [hx]
  | cons c more ih =>
    by_cases hc : p c
    · simp [hc, ih]
    · simp [hc]

/-- The first character is in front of the stop or the stop itself. -/
theorem head?_stop (x : Char) (front back : Line) :
    (front ++ x :: back).head? = (front ++ [x]).head? := by
  cases front with
  | nil => rfl
  | cons c more => rfl

theorem headIs_stop {p : Char → Bool} {x : Char} (hx : p x = false) (front back : Line) :
    headIs p (front ++ x :: back) = headIs p front := by
  cases front with
  | nil => simp [headIs, hx]
  | cons c more => rfl

/-! ## Names, numbers and variables -/

/-- A name ends where a character neither belongs to it nor joins its parts. -/
theorem joinedTail_stop {part hyphenated nested : Char → Bool} {x : Char} (hpart : part x = false)
    (hhyphenated : hyphenated x = false) (hnested : nested x = false) (hhyphen : x ≠ '-')
    (hcolon : x ≠ ':') (front back : Line) :
    joinedTail part hyphenated nested (front ++ x :: back) =
      joinedTail part hyphenated nested front := by
  fun_induction joinedTail part hyphenated nested front with
  | case1 =>
    rw [List.nil_append, joinedTail.eq_def]
    cases back with
    | nil => simp [hpart, hhyphen]
    | cons d rest => simp [hpart, hhyphen, hcolon]
  | case2 c cs hc ih =>
    rw [List.cons_append, joinedTail.eq_def]
    simp only [if_pos hc, ih]
  | case3 c cs hc hjoin ih =>
    rw [List.cons_append, joinedTail.eq_def]
    simp only [if_neg hc, headIs_stop hhyphenated, if_pos hjoin, ih]
  | case4 c hc d rest hnest hjoin ih =>
    have hhyphenated' : headIs hyphenated (d :: rest ++ x :: back) = headIs hyphenated (d :: rest) :=
      headIs_stop hhyphenated (d :: rest) back
    rw [List.cons_append, joinedTail.eq_def]
    simp only [if_neg hc, hhyphenated', if_neg hjoin]
    simp only [List.cons_append, headIs_stop hnested, if_pos hnest, ih]
  | case5 c hc d rest hnest hjoin =>
    have hhyphenated' : headIs hyphenated (d :: rest ++ x :: back) = headIs hyphenated (d :: rest) :=
      headIs_stop hhyphenated (d :: rest) back
    rw [List.cons_append, joinedTail.eq_def]
    simp only [if_neg hc, hhyphenated', if_neg hjoin]
    simp only [List.cons_append, headIs_stop hnested, if_neg hnest]
  | case6 c hc hjoin =>
    rw [List.cons_append, joinedTail.eq_def]
    simp [hc, headIs, hhyphenated, hcolon]

theorem digitsTail_stop {x : Char} (hdigit : x.isDigit = false) (hscore : x ≠ '_')
    (front back : Line) : digitsTail (front ++ x :: back) = digitsTail front := by
  have hx : (x.isDigit || x == '_') = false := by simp [hdigit, hscore]
  rw [digitsTail, takeWhile_stop hx, digitsTail]

/-- A number ends where neither a digit nor its point follows. -/
theorem numberTail_stop {x : Char} (hdigit : x.isDigit = false) (hscore : x ≠ '_')
    (hpoint : x ≠ '.') (front back : Line) :
    numberTail (front ++ x :: back) = numberTail front := by
  have hle := digitsTail_le front
  simp only [numberTail, digitsTail_stop hdigit hscore]
  rw [List.drop_append_of_le_length hle]
  rcases front.drop (digitsTail front) with _ | ⟨c, _ | ⟨d, rest⟩⟩
  · -- the whole part is all there is, and no point follows
    cases back with
    | nil => simp
    | cons e more => simp [hpoint]
  · by_cases hc : c = '.'
    · simp [hc, hdigit]
    · simp [hc]
  · by_cases hc : c = '.'
    · simp [hc, digitsTail_stop hdigit hscore]
    · simp [hc]

/-- The characters that begin a quoted text and a comment. -/
def IsMark (x : Char) : Prop := x = '"' ∨ x = '#'

section
variable {x : Char}

theorem IsMark.inName (hx : IsMark x) : inName x = false := by
  rcases hx with rfl | rfl <;> decide

theorem IsMark.isNameStart (hx : IsMark x) : isNameStart x = false := by
  rcases hx with rfl | rfl <;> decide

/-- A simple name ends at a mark. -/
theorem nameTail_stop (hx : IsMark x) (front back : Line) :
    nameTail (front ++ x :: back) = nameTail front := by
  have hne : x ≠ '-' ∧ x ≠ ':' := by rcases hx with rfl | rfl <;> decide
  exact joinedTail_stop hx.inName hx.isNameStart rfl hne.1 hne.2 front back

/-- A qualified name ends at a mark. -/
theorem qualifiedTail_stop (hx : IsMark x) (front back : Line) :
    qualifiedTail (front ++ x :: back) = qualifiedTail front := by
  have hne : x ≠ '-' ∧ x ≠ ':' := by rcases hx with rfl | rfl <;> decide
  exact joinedTail_stop hx.inName hx.isNameStart hx.isNameStart hne.1 hne.2 front back

/-- A variable ends at a mark. -/
theorem variableTail?_stop (hx : IsMark x) (sigil : Char) (front back : Line) :
    variableTail? sigil (front ++ x :: back) = variableTail? sigil front := by
  have htwigil : isCodeTwigil x = false := by rcases hx with rfl | rfl <;> decide
  have hspecial : "/!¢".toList.contains x = false := by rcases hx with rfl | rfl <;> decide
  have hstarts : ∀ cs : Line, startsName (cs ++ x :: back) = startsName cs :=
    fun cs => headIs_stop hx.isNameStart cs back
  unfold variableTail?
  rw [hstarts, nameTail_stop hx]
  cases front with
  | nil =>
    simp only [List.nil_append, htwigil, hspecial, Bool.false_and, Bool.and_false,
      Bool.false_eq_true, if_false]
  | cons c rest => simp only [List.cons_append, hstarts, nameTail_stop hx]

/-! ## Operators -/

/-- Adverbs end where neither a colon nor a letter follows. -/
theorem adverbs_stop (hlower : x.isLower = false) (hcolon : x ≠ ':') (front back : Line) :
    adverbs (front ++ x :: back) = adverbs front := by
  fun_induction adverbs front with
  | case1 cs hnone =>
    rw [List.cons_append, adverbs, takeWhile_stop hlower, if_pos hnone]
  | case2 cs hsome ih =>
    rw [List.cons_append, adverbs, takeWhile_stop hlower, if_neg hsome, dropWhile_stop hlower, ih]
  | case3 front hfront =>
    rw [adverbs.eq_def]
    cases front with
    | nil => simp [hcolon]
    | cons c more =>
      have hc : c ≠ ':' := by
        rintro rfl
        exact hfront more rfl
      simp [hc]

/-- An operator sees the first character that goes on with none of its words,
since that is where its delimiter stands, and nothing behind it. -/
theorem operator?_stop (halpha : x.isAlpha = false) (hcolon : x ≠ ':') (front back : Line) :
    operator? (front ++ x :: back) = operator? (front ++ [x]) := by
  have hlower : x.isLower = false := by
    have hcase : (x.isUpper || x.isLower) = false := halpha
    exact (Bool.or_eq_false_iff.1 hcase).2
  have hword : (front.takeWhile Char.isAlpha).length ≤ front.length :=
    (List.takeWhile_sublist _).length_le
  -- the word and its adverbs end in front of the character
  have hadverbs : ∀ tail : Line, adverbs ((front ++ x :: tail).drop
      (front.takeWhile Char.isAlpha).length) =
      adverbs (front.drop (front.takeWhile Char.isAlpha).length) := by
    intro tail
    rw [List.drop_append_of_le_length hword, adverbs_stop hlower hcolon]
  have hlen := adverbsLen_adverbs_le (front.drop (front.takeWhile Char.isAlpha).length)
  rw [List.length_drop] at hlen
  have hdrop : ∀ tail : Line, (front ++ x :: tail).drop ((front.takeWhile Char.isAlpha).length +
      adverbsLen (adverbs (front.drop (front.takeWhile Char.isAlpha).length))) =
      front.drop ((front.takeWhile Char.isAlpha).length +
        adverbsLen (adverbs (front.drop (front.takeWhile Char.isAlpha).length))) ++ x :: tail := by
    intro tail
    exact List.drop_append_of_le_length (by omega)
  unfold operator?
  simp only [takeWhile_stop halpha, hadverbs, hdrop]
  -- what stands at the place of the delimiter is the same in both
  cases front.drop ((front.takeWhile Char.isAlpha).length +
      adverbsLen (adverbs (front.drop (front.takeWhile Char.isAlpha).length))) with
  | nil => rfl
  | cons d rest => rfl

/-! ## Tokens -/

theorem Token.readWord_stop (hx : IsMark x) (c : Char) (front back : Line) :
    Token.readWord c (front ++ x :: back) = Token.readWord c (front ++ [x]) := by
  have halpha : x.isAlpha = false := by rcases hx with rfl | rfl <;> decide
  have hcolon : x ≠ ':' := by rcases hx with rfl | rfl <;> decide
  have hoperator : operator? (c :: (front ++ x :: back)) = operator? (c :: (front ++ [x])) :=
    operator?_stop halpha hcolon (c :: front) back
  have htail : ∀ tail : Line, qualifiedTail (front ++ x :: tail) = qualifiedTail front :=
    qualifiedTail_stop hx front
  -- the word itself stands in front of the mark
  have htake : ∀ tail : Line, (front ++ x :: tail).take (qualifiedTail front) =
      front.take (qualifiedTail front) := by
    intro tail
    exact List.take_append_of_le_length (joinedTail_le ..)
  unfold Token.readWord
  rw [hoperator]
  simp only [htail, htake]

/-- No token looks past a mark. -/
theorem Token.read_stop (hx : IsMark x) (c : Char) (front back : Line) :
    Token.read c (front ++ x :: back) = Token.read c (front ++ [x]) := by
  have hdigit : x.isDigit = false := by rcases hx with rfl | rfl <;> decide
  have hne : x ≠ '_' ∧ x ≠ '.' := by rcases hx with rfl | rfl <;> decide
  have hnumber : ∀ tail : Line, numberTail (front ++ x :: tail) = numberTail front :=
    numberTail_stop hdigit hne.1 hne.2 front
  have hvariable : ∀ tail : Line, variableTail? c (front ++ x :: tail) = variableTail? c front :=
    variableTail?_stop hx c front
  unfold Token.read
  rw [head?_stop, hnumber, hnumber, hvariable, hvariable, Token.readWord_stop hx]

/-- What a token opens shows in front of a mark. -/
theorem opened?_stop (hx : IsMark x) (before : Before) (token : Token) (front back : Line) :
    opened? before token (front ++ x :: back) = opened? before token (front ++ [x]) := by
  have hcomment : bracketComment? (front ++ x :: back) = bracketComment? (front ++ [x]) := by
    -- a mark is neither the sign of a bracketed comment nor its bracket
    rcases front with _ | ⟨sign, _ | ⟨bracket, more⟩⟩
    · have hsign : (x = '`' || x = '|' || x = '=') = false := by rcases hx with rfl | rfl <;> decide
      cases back with
      | nil => rfl
      | cons d rest =>
        simp only [List.nil_append, bracketComment?, hsign, Bool.false_and, Bool.false_eq_true,
          if_false]
    · rfl
    · rfl
  have hslash : before.opensPattern (front ++ x :: back) = before.opensPattern (front ++ [x]) := by
    cases before with
    | word spaced => simp only [Before.opensPattern, head?_stop x front back]
    | _ => rfl
  cases token with
  | hash => rw [opened?, opened?, hcomment]
  | slash => rw [opened?, opened?, hslash]
  | _ => rfl

end

/-- Tokens that end in a delimiter: what opens a string, a pattern or a
heredoc. -/
def Token.isDelimited : Token → Bool
  | .opening _ | .heredoc _ => true
  | _ => false

/-- The delimiters of operators are neither letters nor colons. -/
theorem QuoteWord.of_takes {op : QuoteWord} {delimiter : Char} (h : op.takes delimiter) :
    delimiter.isAlpha = false ∧ delimiter ≠ ':' := by
  have hall : ['/', '|', '!', '{', '[', '<', '«', '\'', '"'].all
      (fun d => d.isAlpha = false ∧ d ≠ ':') := by decide
  exact of_decide_eq_true (List.all_eq_true.1 hall delimiter (mem_of_takes h))

/-- What opens with an operator ends in the delimiter of the operator. -/
theorem exists_delimiter_of_operator? {cs : Line} {token : Token} {len : Nat}
    (h : operator? cs = some (token, len)) (htoken : token.isDelimited) :
    ∃ front delimiter back, cs = front ++ delimiter :: back ∧ len = front.length + 1 ∧
      delimiter.isAlpha = false ∧ delimiter ≠ ':' := by
  unfold operator? at h
  simp only [Option.bind_eq_bind, Option.bind_eq_some_iff] at h
  rcases h with ⟨op, -, h⟩
  split at h
  · next delimiter more hdrop =>
    split at h
    · next htakes =>
      rcases Prod.mk.inj (Option.some.inj h) with ⟨-, hlen⟩
      rcases QuoteWord.of_takes htakes with ⟨halpha, hcolon⟩
      have hlength := congrArg List.length hdrop
      rw [List.length_drop, List.length_cons] at hlength
      refine ⟨cs.take (len - 1), delimiter, more, ?_, ?_, halpha, hcolon⟩
      · rw [← hlen, Nat.add_sub_cancel, ← hdrop, List.take_append_drop]
      · rw [List.length_take]
        omega
    · split at h
      · cases h
      · rcases Prod.mk.inj (Option.some.inj h) with ⟨rfl, -⟩
        cases htoken
  · split at h
    · cases h
    · rcases Prod.mk.inj (Option.some.inj h) with ⟨rfl, -⟩
      cases htoken

/-- An operator with its delimiter is the same whatever follows. -/
theorem operator?_of_delimited {cs rest : Line} {token : Token} {len : Nat}
    (h : operator? (cs ++ rest) = some (token, len)) (hlen : len ≤ cs.length)
    (htoken : token.isDelimited) (rest' : Line) : operator? (cs ++ rest') = some (token, len) := by
  rcases exists_delimiter_of_operator? h htoken with
    ⟨front, delimiter, back, hcs, hfront, halpha, hcolon⟩
  -- the delimiter is one of the characters that stay
  obtain ⟨more, rfl⟩ : ∃ more, cs = front ++ delimiter :: more := by
    have htake := congrArg (List.take len) hcs
    rw [List.take_append_of_le_length hlen, hfront, List.take_length_add_append] at htake
    refine ⟨cs.drop (front.length + 1), ?_⟩
    rw [List.append_cons, ← List.take_append_drop (front.length + 1) cs, htake]
    simp
  rw [List.append_assoc, List.cons_append, operator?_stop halpha hcolon] at h ⊢
  exact h

theorem Token.readWord_of_delimited {c : Char} {text rest : Line} {token : Token}
    (h : Token.readWord c (text ++ rest) = (token, text.length)) (htoken : token.isDelimited)
    (rest' : Line) : Token.readWord c (text ++ rest') = (token, text.length) := by
  unfold Token.readWord at h
  split at h
  · next token' len hoperator =>
    rcases Prod.mk.inj h with ⟨rfl, hlen⟩
    have hle : len ≤ (c :: text).length := by
      rw [List.length_cons]
      omega
    rw [← List.cons_append] at hoperator
    have hagain := operator?_of_delimited hoperator hle htoken rest'
    unfold Token.readWord
    rw [← List.cons_append, hagain, ← hlen]
  · rcases Prod.mk.inj h with ⟨rfl, -⟩
    cases htoken

/-- A choice gives the same answer again if each of its two sides does. -/
theorem ite_eq_imp {α : Type} {p : Prop} [Decidable p] {a b a' b' r : α}
    (h : (if p then a else b) = r) (ha : a = r → a' = r) (hb : b = r → b' = r) :
    (if p then a' else b') = r := by
  by_cases hp : p
  · rw [if_pos hp] at h ⊢
    exact ha h
  · rw [if_neg hp] at h ⊢
    exact hb h

/-- A token with its delimiter is the same whatever follows. -/
theorem Token.read_of_delimited {c : Char} {text rest : Line} {token : Token}
    (h : Token.read c (text ++ rest) = (token, text.length)) (htoken : token.isDelimited)
    (rest' : Line) : Token.read c (text ++ rest') = (token, text.length) := by
  have hother : ∀ {found : Token} {len : Nat}, found.isDelimited = false →
      (found, len) ≠ (token, text.length) := by
    intro found len hfound heq
    rw [← (Prod.mk.inj heq).1, hfound] at htoken
    cases htoken
  unfold Token.read at h ⊢
  -- one line for each kind of token: most do not look at what follows, and the others
  -- have no delimiter
  refine ite_eq_imp h id fun h => ?_
  refine ite_eq_imp h id fun h => ?_
  refine ite_eq_imp h id fun h => ?_
  refine ite_eq_imp h id fun h => ?_
  refine ite_eq_imp h (fun hslash => ?_) fun h => ?_
  · split at hslash
    · exact absurd hslash (hother rfl)
    · exact absurd hslash (hother rfl)
  refine ite_eq_imp h id fun h => ?_
  refine ite_eq_imp h id fun h => ?_
  refine ite_eq_imp h (fun hnumber => absurd hnumber (hother rfl)) fun h => ?_
  refine ite_eq_imp h (fun hvariable => ?_) fun h => ?_
  · split at hvariable
    · exact absurd hvariable (hother rfl)
    · exact absurd hvariable (hother rfl)
  exact ite_eq_imp h (fun hword => Token.readWord_of_delimited hword htoken rest') id

/-! ## Quoted constructs -/

/-- Whether another part follows shows at the first character that is not
blank. -/
theorem Quote.opensNext_stop {x : Char} (hx : isBlank x = false) (bracket : Char)
    (front back : Line) :
    Quote.opensNext bracket (front ++ x :: back) = Quote.opensNext bracket (front ++ [x]) := by
  rw [Quote.opensNext, Quote.opensNext, dropWhile_stop hx, dropWhile_stop hx, head?_stop]

/-- A scan that closes before a character that is not blank closes there
whatever stands behind the character. -/
theorem Quote.scan_stop {q : Quote} {phase : Phase} {x : Char} {front back : Line} {count : Nat}
    (hx : isBlank x = false) (h : q.scan phase (front ++ x :: back) = .closed count)
    (hcount : count ≤ front.length) (back' : Line) :
    q.scan phase (front ++ x :: back') = .closed count := by
  induction front generalizing q phase count with
  | nil =>
    have hpos := (Quote.scan_closed h).1
    simp only [List.length_nil] at hcount
    omega
  | cons c more ih =>
    -- a scan that goes on closes one character later
    have hsucc : ∀ {q : Quote} {phase : Phase},
        (q.scan phase (more ++ x :: back)).succ = .closed count →
        (q.scan phase (more ++ x :: back')).succ = .closed count := by
      intro q phase hscan
      cases hrest : q.scan phase (more ++ x :: back) with
      | closed n =>
        rw [hrest] at hscan
        cases hscan
        have hle : n ≤ more.length := by
          rw [List.length_cons] at hcount
          omega
        rw [ih hrest hle]
        rfl
      | unclosed quote =>
        rw [hrest] at hscan
        cases hscan
    have hnext : ∀ bracket, Quote.opensNext bracket (more ++ x :: back') =
        Quote.opensNext bracket (more ++ x :: back) := by
      intro bracket
      rw [Quote.opensNext_stop hx, Quote.opensNext_stop hx bracket more back]
    rw [List.cons_append, Quote.scan.eq_def] at h ⊢
    cases phase with
    | escaped => exact hsucc h
    | gap => exact hsucc h
    | body =>
      -- a backslash, an opening bracket, another character, a nested closer
      refine ite_eq_imp h hsucc fun h => ?_
      refine ite_eq_imp h hsucc fun h => ?_
      refine ite_eq_imp h hsucc fun h => ?_
      refine ite_eq_imp h hsucc fun h => ?_
      -- the closer of the last part, or of one that another part may follow
      refine ite_eq_imp h id fun h => ?_
      cases hopener : q.opener with
      | none =>
        rw [hopener] at h
        exact hsucc h
      | some bracket =>
        rw [hopener] at h
        simp only [hnext]
        exact ite_eq_imp h hsucc id

/-- A terminator is the same whatever stands behind its closing delimiter. -/
theorem terminator?_append {delimiter : Char} {front back name : Line} {count : Nat}
    (h : terminator? delimiter (front ++ back) = some (name, count))
    (hcount : count ≤ front.length) (back' : Line) :
    terminator? delimiter (front ++ back') = some (name, count) := by
  simp only [terminator?] at h ⊢
  generalize (closing? delimiter).getD delimiter = closer at h ⊢
  have hcloser : closer ∈ front := by
    by_contra hnot
    split at h
    · rcases Prod.mk.inj (Option.some.inj h) with ⟨-, hlen⟩
      -- otherwise all of the front comes before the closing delimiter
      have hall : ∀ c ∈ front, decide (c ≠ closer) = true := by
        intro c hc
        rw [decide_eq_true_eq]
        rintro rfl
        exact hnot hc
      rw [List.takeWhile_append_of_pos hall, List.length_append] at hlen
      omega
    · cases h
  rcases List.append_of_mem hcloser with ⟨inner, more, rfl⟩
  have hstops : decide (closer ≠ closer) = false := by simp
  rw [List.append_assoc, List.cons_append, takeWhile_stop hstops] at h ⊢
  rw [if_pos (by simp)] at h ⊢
  exact h

end RakuAtlas.Lexical
