import RakuAtlas.Lexical.Classify

/-!
# RakuAtlas.Proofs.Lexical.Openings — what opens in code

Code opens a construct with a token of its own, with the hash of a bracketed comment or with the
slash of a pattern (`opened?_cases`). What it opens is one of four kinds (`Quote.Opens`):

* `Token.opens_read`: what a token opens is one of them;
* `opens_of_opened?`: and so is all that opens in code.
-/

namespace RakuAtlas.Lexical

open Text (Line)

/-- The characters that open a construct. -/
def delimiters : List Char := ['/', '|', '!', '{', '[', '<', '«', '\'', '"', '｢', '(']

/-- A construct as it opens in code. -/
inductive Quote.Opens : Quote → Prop where
  | string {delimiter : Char} (h : delimiter ∈ delimiters) : Opens (opened .string delimiter)
  | verbatim {delimiter : Char} (h : delimiter ∈ delimiters) :
      Opens (opened .string delimiter).verbatim
  | comment {bracket : Char} (h : bracket ∈ delimiters) : Opens (opened .comment bracket).verbatim
  /-- A pattern has one part or two. -/
  | pattern {delimiter : Char} {parts : Nat} (h : delimiter ∈ delimiters) (hone : 1 ≤ parts)
      (htwo : parts ≤ 2) : Opens ((opened .pattern delimiter).withParts parts)

theorem mem_delimiters_of_closing? {bracket : Char} (h : (closing? bracket).isSome) :
    bracket ∈ delimiters := by
  unfold closing? at h
  split at h
  case h_7 => cases h
  all_goals decide

theorem QuoteWord.mem_of_takes {op : QuoteWord} {delimiter : Char} (h : op.takes delimiter) :
    delimiter ∈ ['/', '|', '!', '{', '[', '<', '«', '\'', '"'] := by
  cases op with
  | string raw => exact List.contains_iff_mem.1 h
  | pattern parts =>
    have hfew : delimiter ∈ ['/', '|', '!', '{', '[', '<', '«'] := List.contains_iff_mem.1 h
    exact List.mem_append_left ['\'', '"'] hfew

/-- The operators that open patterns have one part or two. -/
theorem QuoteWord.parts_of_ofWord? {word : String} {parts : Nat}
    (h : QuoteWord.ofWord? word = some (.pattern parts)) : 1 ≤ parts ∧ parts ≤ 2 := by
  unfold QuoteWord.ofWord? at h
  split at h
  · cases h
  · split at h
    · cases h
    · split at h
      · cases h
        exact ⟨Nat.le_refl 1, Nat.le_succ 1⟩
      · split at h
        · cases h
          exact ⟨Nat.le_succ 1, Nat.le_refl 2⟩
        · cases h

/-! ## Tokens -/

/-- What the token opens is a construct of code, if it opens something. -/
def Token.Opens : Token → Prop
  | .opening quote => quote.Opens
  | _ => True

theorem Token.opens_operator? {cs : Line} {token : Token} {len : Nat}
    (h : operator? cs = some (token, len)) : token.Opens := by
  unfold operator? at h
  simp only [Option.bind_eq_bind, Option.bind_eq_some_iff] at h
  obtain ⟨op, hop, h⟩ := h
  have htoken : ∀ names delimiter, op.takes delimiter → (op.token names delimiter).Opens := by
    intro names delimiter htakes
    have hmem : delimiter ∈ delimiters :=
      List.mem_append_left ['｢', '('] (QuoteWord.mem_of_takes htakes)
    cases op with
    | string raw =>
      simp only [QuoteWord.token]
      split
      · trivial
      · split
        · exact .verbatim hmem
        · exact .string hmem
    | pattern parts =>
      have hparts := QuoteWord.parts_of_ofWord? hop
      exact .pattern hmem hparts.1 hparts.2
  split at h
  · split at h
    · next htakes =>
      obtain ⟨rfl, -⟩ := Prod.mk.inj (Option.some.inj h)
      exact htoken _ _ htakes
    · split at h
      · cases h
      · obtain ⟨rfl, -⟩ := Prod.mk.inj (Option.some.inj h)
        trivial
  · split at h
    · cases h
    · obtain ⟨rfl, -⟩ := Prod.mk.inj (Option.some.inj h)
      trivial

theorem Token.opens_ite {p : Prop} [Decidable p] {a b : Token × Nat} (ha : p → a.1.Opens)
    (hb : b.1.Opens) : (if p then a else b).1.Opens := by
  split
  · next hp => exact ha hp
  · exact hb

/-- What a token opens is a construct of code. -/
theorem Token.opens_read (c : Char) (cs : Line) : (Token.read c cs).1.Opens := by
  have hword : (Token.readWord c cs).1.Opens := by
    unfold Token.readWord
    split
    · next token len hoperator => exact Token.opens_operator? hoperator
    · trivial
  -- one line for each kind of token, in the order in which they are tried
  unfold Token.read
  refine opens_ite (fun _ => trivial) ?_
  refine opens_ite (fun _ => trivial) ?_
  refine opens_ite (fun hquote => ?_) ?_
  · rw [Bool.or_eq_true, decide_eq_true_eq, decide_eq_true_eq] at hquote
    rcases hquote with rfl | rfl
    · exact Quote.Opens.string (by decide)
    · exact Quote.Opens.string (by decide)
  refine opens_ite (fun hcorner => ?_) ?_
  · subst hcorner
    exact Quote.Opens.verbatim (by decide)
  refine opens_ite (fun _ => opens_ite (fun _ => trivial) trivial) ?_
  refine opens_ite (fun _ => trivial) ?_
  refine opens_ite (fun _ => trivial) ?_
  refine opens_ite (fun _ => trivial) ?_
  refine opens_ite (fun _ => ?_) (opens_ite (fun _ => hword) trivial)
  cases variableTail? c cs with
  | some len => trivial
  | none => trivial

/-! ## Code -/

/-- All that opens a quoted construct: a token of its own, the hash of a bracketed comment or the
slash of a pattern. -/
theorem opened?_cases {before : Before} {token : Token} {cs : Line} {quote : Quote} {head : Nat}
    (h : opened? before token cs = some (quote, head)) :
    token = .opening quote ∨
      (token = .hash ∧ ∃ bracket ∈ delimiters, quote = (Quote.opened .comment bracket).verbatim) ∨
      (token = .slash ∧ quote = Quote.opened .pattern '/') := by
  cases token with
  | opening quote' =>
    cases h
    exact Or.inl rfl
  | hash =>
    obtain ⟨comment, hcomment, heq⟩ := Option.map_eq_some_iff.1 h
    obtain ⟨rfl, -⟩ := Prod.mk.inj heq
    unfold bracketComment? at hcomment
    split at hcomment
    · next mark bracket more =>
      split at hcomment
      · next hmark =>
        have hmem := mem_delimiters_of_closing? (Bool.and_eq_true_iff.1 hmark).2
        exact Or.inr (Or.inl ⟨rfl, bracket, hmem, (Option.some.inj hcomment).symm⟩)
      · cases hcomment
    · cases hcomment
  | slash =>
    simp only [opened?] at h
    split at h
    · cases h
      exact Or.inr (Or.inr ⟨rfl, rfl⟩)
    · cases h
  | _ => cases h

/-- What opens in code is one of its constructs. -/
theorem opens_of_opened? {before : Before} {token : Token} {cs : Line} {quote : Quote} {head : Nat}
    (htoken : token.Opens) (h : opened? before token cs = some (quote, head)) : quote.Opens := by
  rcases opened?_cases h with rfl | ⟨-, bracket, hmem, rfl⟩ | ⟨-, rfl⟩
  · exact htoken
  · exact .comment hmem
  · exact @Quote.Opens.pattern '/' 1 (by decide) (Nat.le_refl 1) (Nat.le_succ 1)

end RakuAtlas.Lexical
