import RakuAtlas.Lexical.Classify
import Mathlib.Data.List.TakeWhile

/-!
# RakuAtlas.Proofs.Lexical.Reach — readers stay inside the line

The readers of a line say how many characters they take, and the line is then
cut there. None of them ever takes more characters than there are:

* `Token.read_le` for tokens;
* `opened?_le` for the opening of a bracketed comment;
* `Quote.scan_closed` for the body of a quoted construct, which takes at least
  one character when it closes;
* `terminator?_le` for the terminator of a heredoc.
-/

namespace RakuAtlas.Lexical

open Text (Line headIs joinedTail)

/-! ## Names, variables and numbers -/

/-- A name goes on inside the line. -/
theorem joinedTail_le (part hyphenated nested : Char → Bool) (cs : Line) :
    joinedTail part hyphenated nested cs ≤ cs.length := by
  fun_induction joinedTail part hyphenated nested cs with
  | case1 => simp
  | case2 c cs _ ih =>
    simp only [List.length_cons]
    omega
  | case3 c cs _ _ ih =>
    simp only [List.length_cons]
    omega
  | case4 c d rest _ _ _ ih =>
    simp only [List.length_cons]
    omega
  | case5 => simp
  | case6 => simp

theorem digitsTail_le (cs : Line) : digitsTail cs ≤ cs.length :=
  (List.takeWhile_sublist _).length_le

/-- A number goes on inside the line. -/
theorem numberTail_le (cs : Line) : numberTail cs ≤ cs.length := by
  have hwhole := digitsTail_le cs
  simp only [numberTail]
  split
  · next d rest hdrop =>
    have hlength := congrArg List.length hdrop
    have hrest := digitsTail_le rest
    simp only [List.length_drop, List.length_cons] at hlength
    split <;> omega
  · exact hwhole

/-- A variable goes on inside the line. -/
theorem variableTail?_le {sigil : Char} {cs : Line} {len : Nat}
    (h : variableTail? sigil cs = some len) : len ≤ cs.length := by
  unfold variableTail? at h
  split at h
  · cases h
    exact joinedTail_le ..
  · cases cs with
    | nil => cases h
    | cons c rest =>
      have hname : nameTail rest ≤ rest.length := joinedTail_le ..
      simp only at h
      split at h
      · cases h
        rw [List.length_cons]
        omega
      · split at h
        · cases h
          rw [List.length_cons]
          omega
        · cases h

/-! ## Operators -/

/-- Adverbs end inside the line. -/
theorem adverbsLen_adverbs_le (cs : Line) : adverbsLen (adverbs cs) ≤ cs.length := by
  fun_induction adverbs cs with
  | case1 => simp [adverbsLen]
  | case2 cs _ ih =>
    have hsplit := congrArg List.length (List.takeWhile_append_dropWhile (p := Char.isLower) (l := cs))
    rw [List.length_append] at hsplit
    simp only [adverbsLen, total_cons, List.length_cons] at ih ⊢
    omega
  | case3 => simp [adverbsLen]

/-- An operator with its adverbs and its delimiter ends inside the line. -/
theorem operator?_le {cs : Line} {token : Token} {len : Nat}
    (h : operator? cs = some (token, len)) : len ≤ cs.length := by
  unfold operator? at h
  simp only [Option.bind_eq_bind, Option.bind_eq_some_iff] at h
  rcases h with ⟨op, -, h⟩
  have hword : (cs.takeWhile Char.isAlpha).length ≤ cs.length := (List.takeWhile_sublist _).length_le
  have hadverbs := adverbsLen_adverbs_le (cs.drop (cs.takeWhile Char.isAlpha).length)
  rw [List.length_drop] at hadverbs
  split at h
  · next delimiter more hdrop =>
    -- the delimiter is a character of the line
    have hlength := congrArg List.length hdrop
    rw [List.length_drop, List.length_cons] at hlength
    split at h
    · cases h
      omega
    · split at h
      · cases h
      · cases h
        omega
  · split at h
    · cases h
    · cases h
      omega

/-! ## Tokens -/

/-- Of two tokens that end inside the line either may be chosen. -/
theorem ite_snd_le {p : Prop} [Decidable p] {a b : Token × Nat} {n : Nat} (ha : a.2 ≤ n)
    (hb : b.2 ≤ n) : (if p then a else b).2 ≤ n := by
  by_cases hp : p
  · rw [if_pos hp]
    exact ha
  · rw [if_neg hp]
    exact hb

theorem Token.readWord_le (c : Char) (cs : Line) : (Token.readWord c cs).2 ≤ cs.length := by
  unfold Token.readWord
  split
  · next token len hoperator =>
    have hlen := operator?_le hoperator
    rw [List.length_cons] at hlen
    show len - 1 ≤ cs.length
    omega
  · exact joinedTail_le ..

/-- A token ends inside the line. -/
theorem Token.read_le (c : Char) (cs : Line) : (Token.read c cs).2 ≤ cs.length := by
  have hnone : ∀ token : Token, (token, 0).2 ≤ cs.length := fun _ => Nat.zero_le _
  have hslash : (if cs.head? = some '/' then (Token.operator, 1) else (Token.slash, 0)).2 ≤
      cs.length := by
    cases cs with
    | nil => exact Nat.zero_le _
    | cons d more => exact ite_snd_le (by rw [List.length_cons]; omega) (Nat.zero_le _)
  -- one line for each kind of token, in the order in which they are tried
  unfold Token.read
  refine ite_snd_le (hnone .blank) ?_
  refine ite_snd_le (hnone .hash) ?_
  refine ite_snd_le (hnone _) ?_
  refine ite_snd_le (hnone _) ?_
  refine ite_snd_le hslash ?_
  refine ite_snd_le (hnone .term) ?_
  refine ite_snd_le (hnone .dot) ?_
  refine ite_snd_le (numberTail_le cs) ?_
  refine ite_snd_le ?_ (ite_snd_le (Token.readWord_le c cs) (hnone .operator))
  cases hlen : variableTail? c cs with
  | none => exact Nat.zero_le _
  | some len => exact variableTail?_le hlen

/-! ## Quoted constructs -/

/-- The opening of a bracketed comment is inside the line. -/
theorem opened?_le {before : Before} {token : Token} {cs : Line} {quote : Quote} {head : Nat}
    (h : opened? before token cs = some (quote, head)) : head ≤ cs.length := by
  cases token with
  | opening quote' =>
    cases h
    exact Nat.zero_le _
  | hash =>
    rcases Option.map_eq_some_iff.1 h with ⟨comment, hcomment, heq⟩
    cases heq
    -- the mark and the bracket are there
    match cs, hcomment with
    | mark :: bracket :: more, _ => simp
  | slash =>
    simp only [opened?] at h
    split at h
    · cases h
      exact Nat.zero_le _
    · cases h
  | _ => cases h

/-- A scan of one character more closes one character later. -/
theorem Scan.succ_closed {s : Scan} {bound count : Nat}
    (hs : ∀ n, s = .closed n → 0 < n ∧ n ≤ bound) (h : s.succ = .closed count) :
    0 < count ∧ count ≤ bound + 1 := by
  cases s with
  | closed n =>
    cases h
    have hn := hs n rfl
    omega
  | unclosed quote => cases h

/-- A construct that closes takes a character, and closes inside the line. -/
theorem Quote.scan_closed {q : Quote} {phase : Phase} {cs : Line} {count : Nat}
    (h : q.scan phase cs = .closed count) : 0 < count ∧ count ≤ cs.length := by
  fun_induction Quote.scan q phase cs generalizing count with
  | case1 => cases h
  | case2 q c cs ih => exact Scan.succ_closed (fun _ => ih) h
  | case3 q c cs ih => exact Scan.succ_closed (fun _ => ih) h
  -- in the body: a backslash, an opening bracket, another character, a nested closer
  | case4 q c cs _ ih => exact Scan.succ_closed (fun _ => ih) h
  | case5 q c cs _ _ ih => exact Scan.succ_closed (fun _ => ih) h
  | case6 q c cs _ _ _ ih => exact Scan.succ_closed (fun _ => ih) h
  | case7 q c cs _ _ _ _ ih => exact Scan.succ_closed (fun _ => ih) h
  | case8 =>
    cases h
    simp
  -- the closer of a part that another part follows
  | case9 q c cs _ _ _ _ _ _ ih => exact Scan.succ_closed (fun _ => ih) h
  | case10 q c cs _ _ _ _ _ _ _ _ ih => exact Scan.succ_closed (fun _ => ih) h
  | case11 =>
    cases h
    simp

/-- The terminator of a heredoc and its closing delimiter are inside the
line. -/
theorem terminator?_le {delimiter : Char} {cs name : Line} {count : Nat}
    (h : terminator? delimiter cs = some (name, count)) : count ≤ cs.length := by
  simp only [terminator?] at h
  generalize (closing? delimiter).getD delimiter = closer at h
  split at h
  · next hcontains =>
    cases h
    -- what stands before the closing delimiter is shorter than the whole
    have hmem : closer ∈ cs := List.contains_iff_mem.1 hcontains
    have hsplit := congrArg List.length
      (List.takeWhile_append_dropWhile (p := (· ≠ closer)) (l := cs))
    have hdrop : cs.dropWhile (· ≠ closer) ≠ [] := by
      intro hnil
      have hall := List.dropWhile_eq_nil_iff.1 hnil closer hmem
      simp at hall
    have hpos := List.length_pos_iff.2 hdrop
    rw [List.length_append] at hsplit
    omega
  · cases h

end RakuAtlas.Lexical
