import Mathlib.Data.List.Basic
import RakuAtlas.Symbol.Name
import RakuAtlas.Text.Name

/-!
# RakuAtlas.Proofs.Text.Joined — names made of joined parts

How far a name goes on is decided from one character to the next. So it does not
matter where in the name one starts to look:

* `joinedTail_append`: a whole name goes on with what follows it;
* `joinedTail_split`: from the middle of a name one comes to the same end.

`IsName` is a whole name that starts as names do. If it is qualified, what is
behind its last `::` is a name too, and has no colon in it
(`isName_of_splitLast?`).
-/

namespace RakuAtlas.Text

open Unicode (isWord)

/-! ## Heads -/

theorem headIs_append {p : Char → Bool} {cs : Line} (h : headIs p cs) (rest : Line) :
    headIs p (cs ++ rest) := by
  cases cs with
  | nil => cases h
  | cons c cs => exact h

theorem headIs_imp {p q : Char → Bool} (hpq : ∀ c, p c → q c) {cs : Line} (h : headIs p cs) :
    headIs q cs := by
  cases cs with
  | nil => cases h
  | cons c cs => exact hpq c h

/-! ## How far a name goes on -/

section
variable {part hyphenated nested : Char → Bool}

theorem joinedTail_part {c : Char} (hc : part c) (cs : Line) :
    joinedTail part hyphenated nested (c :: cs) = 1 + joinedTail part hyphenated nested cs := by
  rw [joinedTail.eq_def]
  exact if_pos hc

theorem joinedTail_hyphen (hpart : ¬part '-') {cs : Line} (hcs : headIs hyphenated cs) :
    joinedTail part hyphenated nested ('-' :: cs) = 1 + joinedTail part hyphenated nested cs := by
  rw [joinedTail.eq_def]
  simp only [if_neg hpart]
  exact if_pos (by simp [hcs])

theorem joinedTail_colons (hpart : ¬part ':') {cs : Line} (hcs : headIs nested cs) :
    joinedTail part hyphenated nested (':' :: ':' :: cs) =
      2 + joinedTail part hyphenated nested cs := by
  rw [joinedTail, if_neg hpart, if_neg (by simp), if_pos (by simp [hcs])]

theorem joinedTail_le_length (cs : Line) : joinedTail part hyphenated nested cs ≤ cs.length := by
  fun_induction joinedTail part hyphenated nested cs <;> grind

/-- All of a name is taken, whatever follows it. -/
theorem joinedTail_append {w : Line} (hw : joinedTail part hyphenated nested w = w.length)
    (rest : Line) :
    joinedTail part hyphenated nested (w ++ rest) =
      w.length + joinedTail part hyphenated nested rest := by
  fun_induction joinedTail part hyphenated nested w with
  | case1 => simp
  | case2 c cs hpart ih =>
    rw [List.length_cons] at hw ⊢
    rw [List.cons_append, joinedTail_part hpart, ih (by omega)]
    omega
  | case3 c cs hpart hhyphen ih =>
    rw [Bool.and_eq_true, decide_eq_true_eq] at hhyphen
    rcases hhyphen with ⟨rfl, hhead⟩
    rw [List.length_cons] at hw ⊢
    rw [List.cons_append, joinedTail_hyphen hpart (headIs_append hhead rest), ih (by omega)]
    omega
  | case4 c hpart d more hcolons _ ih =>
    simp only [Bool.and_eq_true, decide_eq_true_eq] at hcolons
    rcases hcolons with ⟨⟨rfl, rfl⟩, hhead⟩
    rw [List.length_cons, List.length_cons] at hw ⊢
    rw [List.cons_append, List.cons_append, joinedTail_colons hpart (headIs_append hhead rest),
      ih (by omega)]
    omega
  | case5 => simp at hw
  | case6 => simp at hw

/-- From a character in the middle of a name on, one comes to the same end. -/
theorem joinedTail_split {cs inner rest : Line} (hcs : cs = inner ++ rest)
    (hinner : inner.length ≤ joinedTail part hyphenated nested cs) (hrest : headIs part rest) :
    joinedTail part hyphenated nested cs =
      inner.length + joinedTail part hyphenated nested rest := by
  fun_induction joinedTail part hyphenated nested cs generalizing inner with
  | case1 =>
    rcases List.nil_eq_append_iff.1 hcs with ⟨rfl, rfl⟩
    cases hrest
  | case2 c cs hpart ih =>
    cases inner with
    | nil =>
      rw [List.nil_append] at hcs
      rw [← hcs, joinedTail_part hpart, List.length_nil, Nat.zero_add]
    | cons d inner =>
      rw [List.cons_append, List.cons.injEq] at hcs
      rw [List.length_cons] at hinner ⊢
      rw [ih hcs.2 (by omega)]
      omega
  | case3 c cs hpart _ ih =>
    cases inner with
    | nil =>
      rw [List.nil_append] at hcs
      rw [← hcs] at hrest
      exact absurd hrest hpart
    | cons d inner =>
      rw [List.cons_append, List.cons.injEq] at hcs
      rw [List.length_cons] at hinner ⊢
      rw [ih hcs.2 (by omega)]
      omega
  | case4 c hpart d more hcolons _ ih =>
    simp only [Bool.and_eq_true, decide_eq_true_eq] at hcolons
    rcases hcolons with ⟨⟨rfl, rfl⟩, -⟩
    -- neither of the two colons is a character of the class
    rcases inner with _ | ⟨first, _ | ⟨second, inner⟩⟩
    · rw [List.nil_append] at hcs
      rw [← hcs] at hrest
      exact absurd hrest hpart
    · rw [List.cons_append, List.cons.injEq, List.nil_append] at hcs
      rw [← hcs.2] at hrest
      exact absurd hrest hpart
    · rw [List.cons_append, List.cons.injEq, List.cons_append, List.cons.injEq] at hcs
      rw [List.length_cons, List.length_cons] at hinner ⊢
      rw [ih hcs.2.2 (by omega)]
      omega
  | case5 c hpart d more _ _ =>
    have hnil : inner = [] := List.length_eq_zero_iff.1 (Nat.le_zero.1 hinner)
    rw [hnil, List.nil_append] at hcs
    rw [← hcs] at hrest
    exact absurd hrest hpart
  | case6 c hpart _ =>
    have hnil : inner = [] := List.length_eq_zero_iff.1 (Nat.le_zero.1 hinner)
    rw [hnil, List.nil_append] at hcs
    rw [← hcs] at hrest
    exact absurd hrest hpart

/-- What is taken is a whole name. The classes of what may follow hyphens and
colons must be part of the class, so that the name does not end with one. -/
theorem joinedTail_take (hhyphenated : ∀ c, hyphenated c → part c)
    (hnested : ∀ c, nested c → part c) (cs : Line) :
    joinedTail part hyphenated nested (cs.take (joinedTail part hyphenated nested cs)) =
      joinedTail part hyphenated nested cs := by
  have hhead : ∀ {p : Char → Bool} {cs : Line}, (∀ c, p c → part c) → headIs p cs →
      headIs p (cs.take (joinedTail part hyphenated nested cs)) := by
    intro p cs hp hcs
    cases cs with
    | nil => cases hcs
    | cons c cs =>
      rw [joinedTail_part (hp c hcs), Nat.add_comm, List.take_succ_cons]
      exact hcs
  fun_induction joinedTail part hyphenated nested cs with
  | case1 => rfl
  | case2 c cs hpart ih =>
    rw [Nat.add_comm, List.take_succ_cons, joinedTail_part hpart, ih, Nat.add_comm]
  | case3 c cs hpart hhyphen ih =>
    rw [Bool.and_eq_true, decide_eq_true_eq] at hhyphen
    rcases hhyphen with ⟨rfl, hcs⟩
    rw [Nat.add_comm, List.take_succ_cons, joinedTail_hyphen hpart (hhead hhyphenated hcs), ih,
      Nat.add_comm]
  | case4 c hpart d more hcolons _ ih =>
    simp only [Bool.and_eq_true, decide_eq_true_eq] at hcolons
    rcases hcolons with ⟨⟨rfl, rfl⟩, hmore⟩
    rw [Nat.add_comm, List.take_succ_cons, List.take_succ_cons,
      joinedTail_colons hpart (hhead hnested hmore), ih, Nat.add_comm]
  | case5 => rfl
  | case6 => rfl

end

/-! ## Whole names -/

/-- The characters are a whole name: parts joined by hyphens and `::`. -/
def IsName (w : Line) : Prop :=
  headIs isNameStart w ∧ joinedTail isWord isNameStart isNameStart w = w.length

theorem isWord_of_isNameStart (c : Char) (h : isNameStart c) : isWord c := by
  simp only [isNameStart, Bool.or_eq_true, beq_iff_eq] at h
  rcases h with hletter | rfl
  · simp [isWord, hletter]
  · decide

/-- What is taken where a name starts is a whole name. -/
theorem isName_take {cs : Line} (h : headIs isNameStart cs) :
    IsName (cs.take (joinedTail isWord isNameStart isNameStart cs)) := by
  constructor
  · cases cs with
    | nil => cases h
    | cons c cs =>
      rw [joinedTail_part (isWord_of_isNameStart c h), Nat.add_comm, List.take_succ_cons]
      exact h
  · have hle := @joinedTail_le_length isWord isNameStart isNameStart cs
    rw [joinedTail_take isWord_of_isNameStart isWord_of_isNameStart, List.length_take]
    omega

theorem IsName.ne_nil {w : Line} (h : IsName w) : w ≠ [] := by
  rintro rfl
  cases h.1

/-! ## Qualified names -/

open RakuAtlas.Symbol.SymbolName.splitQualified? (splitLast?)

/-- If no later place can be cut, neither can the rest. -/
theorem splitLast?_eq_none_of_cons {c : Char} {cs : Line} (h : splitLast? (c :: cs) = none) :
    splitLast? cs = none := by
  rw [splitLast?] at h
  split at h
  · cases h
  · next hnone => exact hnone

/-- A name is cut at its last `::`. -/
theorem append_of_splitLast? {cs front back : Line} (h : splitLast? cs = some (front, back)) :
    cs = front ++ ':' :: ':' :: back ∧ splitLast? back = none := by
  induction cs generalizing front with
  | nil => cases h
  | cons c cs ih =>
    rw [splitLast?] at h
    split at h
    · next hlater =>
      cases h
      rcases ih hlater with ⟨hcs, hback⟩
      exact ⟨by rw [hcs]; rfl, hback⟩
    · next hnone =>
      rcases Option.bind_eq_some_iff.1 h with ⟨rest, hrest, hhere⟩
      have hcs : ':' :: rest = cs := List.append_eq_of_isPrefixOf?_eq_some hrest
      split at hhere
      · next hc =>
        cases hhere
        rw [← hcs] at hnone
        exact ⟨by rw [hc, ← hcs]; rfl, splitLast?_eq_none_of_cons hnone⟩
      · cases hhere

/-- Two colons can be cut, here or later. -/
theorem splitLast?_colons_ne_none (cs : Line) : splitLast? (':' :: ':' :: cs) ≠ none := by
  intro h
  have hnone := splitLast?_eq_none_of_cons h
  rw [splitLast?, hnone] at h
  simp at h

/-- A text that has no colon behind a `::` is cut there. -/
theorem splitLast?_append {back : Line} (hback : ':' ∉ back) (front : Line) :
    splitLast? (front ++ ':' :: ':' :: back) = some (front, back) := by
  have hnone : splitLast? (':' :: back) = none := by
    cases hsplit : splitLast? (':' :: back) with
    | none => rfl
    | some cut =>
      -- one of the two colons would be behind the first character
      rcases append_of_splitLast? hsplit with ⟨hcut, -⟩
      rcases hfront : cut.1 with _ | ⟨c, front⟩
      · rw [hfront, List.nil_append, List.cons.injEq] at hcut
        rw [hcut.2] at hback
        exact absurd (List.mem_cons_self ..) hback
      · rw [hfront, List.cons_append, List.cons.injEq] at hcut
        rw [hcut.2] at hback
        exact absurd (by simp) hback
  induction front with
  | nil =>
    rw [List.nil_append, splitLast?, hnone]
    simp [List.isPrefixOf?]
  | cons c front ih => rw [List.cons_append, splitLast?, ih]

/-- A name that cannot be cut has no colon. -/
theorem colon_not_mem_of_splitLast? {w : Line}
    (hw : joinedTail isWord isNameStart isNameStart w = w.length) (h : splitLast? w = none) :
    ':' ∉ w := by
  fun_induction joinedTail isWord isNameStart isNameStart w with
  | case1 => simp
  | case2 c cs hpart ih =>
    rw [List.length_cons] at hw
    have hcolon : ':' ≠ c := by
      rintro rfl
      exact absurd hpart (by decide)
    rw [List.mem_cons, not_or]
    exact ⟨hcolon, ih (by omega) (splitLast?_eq_none_of_cons h)⟩
  | case3 c cs _ hhyphen ih =>
    rw [List.length_cons] at hw
    rw [Bool.and_eq_true, decide_eq_true_eq] at hhyphen
    rw [List.mem_cons, not_or, hhyphen.1]
    exact ⟨by decide, ih (by omega) (splitLast?_eq_none_of_cons h)⟩
  | case4 c _ d more hcolons _ _ =>
    simp only [Bool.and_eq_true, decide_eq_true_eq] at hcolons
    rw [hcolons.1.1, hcolons.1.2] at h
    exact absurd h (splitLast?_colons_ne_none more)
  | case5 => simp at hw
  | case6 => simp at hw

/-- Behind any `::` of a name a name starts, and it goes on to the same end. -/
theorem isName_of_colons {w front back : Line}
    (hw : joinedTail isWord isNameStart isNameStart w = w.length)
    (h : w = front ++ ':' :: ':' :: back) : IsName back := by
  fun_induction joinedTail isWord isNameStart isNameStart w generalizing front with
  | case1 => simp at h
  | case2 c cs hpart ih =>
    rw [List.length_cons] at hw
    cases front with
    | nil =>
      rw [List.nil_append, List.cons.injEq] at h
      rw [h.1] at hpart
      exact absurd hpart (by decide)
    | cons d front =>
      rw [List.cons_append, List.cons.injEq] at h
      exact ih (by omega) h.2
  | case3 c cs _ hhyphen ih =>
    rw [List.length_cons] at hw
    rw [Bool.and_eq_true, decide_eq_true_eq] at hhyphen
    cases front with
    | nil =>
      rw [List.nil_append, List.cons.injEq, hhyphen.1] at h
      exact absurd h.1 (by decide)
    | cons d front =>
      rw [List.cons_append, List.cons.injEq] at h
      exact ih (by omega) h.2
  | case4 c _ d more hcolons _ ih =>
    simp only [Bool.and_eq_true, decide_eq_true_eq] at hcolons
    rw [List.length_cons, List.length_cons] at hw
    rcases front with _ | ⟨first, _ | ⟨second, front⟩⟩
    · -- the two colons are these
      simp only [List.nil_append, List.cons.injEq] at h
      rw [← h.2.2]
      exact ⟨hcolons.2, by omega⟩
    · -- no name starts with a colon
      simp only [List.cons_append, List.nil_append, List.cons.injEq] at h
      have hno : ¬isNameStart ':' := by decide
      rw [h.2.2] at hcolons
      exact absurd hcolons.2 hno
    · simp only [List.cons_append, List.cons.injEq] at h
      exact ih (by omega) h.2.2
  | case5 => simp at hw
  | case6 => simp at hw

/-- The last part of a qualified name is a name, and has no colon. -/
theorem isName_of_splitLast? {w front back : Line} (hw : IsName w)
    (h : splitLast? w = some (front, back)) : IsName back ∧ ':' ∉ back := by
  rcases append_of_splitLast? h with ⟨hcut, hlast⟩
  have hback := isName_of_colons hw.2 hcut
  exact ⟨hback, colon_not_mem_of_splitLast? hback.2 hlast⟩

end RakuAtlas.Text
