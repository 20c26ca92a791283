import RakuAtlas.Declaration.Header
import RakuAtlas.Proofs.Text.Joined
import RakuAtlas.Proofs.Text.Stops

/-!
# RakuAtlas.Proofs.Headers — the header of a line and what stands behind it

The header of a scope or of a callable ends in front of a sigil or a brace: what is
recognized does not depend on what stands from there on (`scope?_stop`), and it is handed
on as it is (`callable?_stop`).
-/

namespace RakuAtlas.Header

open Unicode (isBlank isWord)
open Text
open Lexical (takeWhile_stop dropWhile_stop headIs_stop)

/-- The character is in no header of a scope or of a callable. -/
structure IsStop (x : Char) : Prop where
  blank : isBlank x = false
  part : isNamePart x = false
  colon : x ≠ ':'
  mark : x ≠ '!'

instance (x : Char) : Decidable (IsStop x) :=
  decidable_of_iff (isBlank x = false ∧ isNamePart x = false ∧ x ≠ ':' ∧ x ≠ '!')
    ⟨fun ⟨h₁, h₂, h₃, h₄⟩ => ⟨h₁, h₂, h₃, h₄⟩, fun ⟨h₁, h₂, h₃, h₄⟩ => ⟨h₁, h₂, h₃, h₄⟩⟩

section
variable {x : Char} (hx : IsStop x)
include hx

theorem IsStop.not_isWord : isWord x = false := by
  have hpart := hx.part
  rw [isNamePart, Bool.or_eq_false_iff] at hpart
  exact hpart.1

/-- Keywords are made of name characters. -/
theorem IsStop.not_mem {words : List String}
    (hwords : ∀ word ∈ words, word.toList.all isNamePart) :
    ∀ word ∈ words, x ∉ word.toList := by
  intro word hword hmem
  have hpart := List.all_eq_true.1 (hwords word hword) x hmem
  rw [hx.part] at hpart
  cases hpart

theorem keyword_stop {words : List String}
    (hwords : ∀ word ∈ words, word.toList.all isNamePart) (front back : Line) :
    afterOneOf? words (front ++ x :: back) =
      (afterOneOf? words front).map fun found => (found.1, found.2 ++ x :: back) :=
  afterOneOf?_stop hx.blank (hx.not_mem hwords) front back

theorem skipKeyword_stop {words : List String}
    (hwords : ∀ word ∈ words, word.toList.all isNamePart) (front back : Line) :
    skipOneOf words (front ++ x :: back) = skipOneOf words front ++ x :: back :=
  skipOneOf_stop hx.blank (hx.not_mem hwords) front back

/-! ## Scopes -/

theorem packageName?_stop (front back : Line) :
    (packageName? (front ++ x :: back)).map Prod.fst = (packageName? front).map Prod.fst := by
  cases front with
  | nil => simp [packageName?, hx.not_isWord]
  | cons c more =>
    have hlen := packageTail_le more
    by_cases hc : isWord c
    · simp [packageName?, hc, packageTail_stop hx.part hx.colon, List.take_append_of_le_length hlen]
    · simp [packageName?, hc]

/-- A scope is read in front of the stop. -/
theorem scope?_stop (front back : Line) : scope? (front ++ x :: back) = scope? front := by
  unfold scope? scopeKeyword?
  rw [skipKeyword_stop hx (by decide), skipKeyword_stop hx (by decide), keyword_stop hx (by decide)]
  cases afterOneOf? scopeKeywords
    (skipOneOf ["proto"] (skipOneOf ["my", "our", "unit"] front)) with
  | none => rfl
  | some found =>
    have hname := packageName?_stop hx found.2 back
    simp only [Option.map_some, Option.bind_eq_bind, Option.bind_some]
    cases hwhole : packageName? (found.2 ++ x :: back) <;>
      cases hfront : packageName? found.2 <;>
      simp_all

/-! ## Callables -/

theorem name?_stop (front back : Line) :
    name? (front ++ x :: back) =
      (name? front).map fun found => (found.1, found.2 ++ x :: back) := by
  have hstart : isNameStart x = false :=
    Bool.eq_false_iff.2 fun h => Bool.eq_false_iff.1 hx.not_isWord (isWord_of_isNameStart x h)
  unfold name?
  rw [headIs_stop hstart, takeWhile_stop hx.part, dropWhile_stop hx.part]
  split
  · rfl
  · rfl

theorem callableName?_stop (front back : Line) :
    callableName? (front ++ x :: back) =
      if isOneLine (x :: back) then
        (callableName? front).map fun found => (found.1, found.2 ++ x :: back)
      else none := by
  unfold callableName?
  rw [skipChar_stop hx.mark, name?_stop hx]
  cases name? ((afterChar? '!' front).getD front) with
  | none => simp
  | some found =>
    by_cases hline : isOneLine (x :: back)
    · simp [isOneLine_append, hline]
    · simp [isOneLine_append, hline]

theorem routine?_stop (front back : Line) :
    routine? (front ++ x :: back) =
      if isOneLine (x :: back) then
        (routine? front).map fun found => (found.1, found.2.1, found.2.2 ++ x :: back)
      else none := by
  unfold routine?
  rw [skipKeyword_stop hx (by decide), skipKeyword_stop hx (by decide), keyword_stop hx (by decide)]
  cases afterOneOf? ["sub", "method", "submethod"]
    (skipOneOf ["multi", "proto", "only"] (skipOneOf ["my", "our"] front)) with
  | none => simp
  | some found =>
    simp only [Option.map_some, Option.bind_eq_bind, Option.bind_some, callableName?_stop hx]
    by_cases hline : isOneLine (x :: back)
    · rw [if_pos hline, if_pos hline]
      cases callableName? found.2 with
      | none => rfl
      | some name => rfl
    · rw [if_neg hline, if_neg hline]
      rfl

theorem candidate?_stop (front back : Line) :
    candidate? (front ++ x :: back) =
      if isOneLine (x :: back) then
        (candidate? front).map fun found => (found.1, found.2 ++ x :: back)
      else none := by
  unfold candidate?
  rw [skipKeyword_stop hx (by decide), keyword_stop hx (by decide)]
  cases afterOneOf? ["multi", "proto", "only"] (skipOneOf ["my", "our"] front) with
  | none => simp
  | some found =>
    simp only [Option.map_some, Option.bind_eq_bind, Option.bind_some, callableName?_stop hx]
    by_cases hline : isOneLine (x :: back)
    · rw [if_pos hline, if_pos hline]
      cases callableName? found.2 with
      | none => rfl
      | some name =>
        simp only [Option.map_some, Option.bind_some]
        split
        · rfl
        · rfl
    · rw [if_neg hline, if_neg hline]
      rfl

/-- A callable is read in front of the stop, on a line without a newline. -/
theorem callable?_stop (front back : Line) :
    callable? (front ++ x :: back) =
      if isOneLine (x :: back) then
        (callable? front).map fun found => (found.1, found.2.1, found.2.2 ++ x :: back)
      else none := by
  unfold callable?
  rw [routine?_stop hx, candidate?_stop hx]
  by_cases hline : isOneLine (x :: back)
  · rw [if_pos hline, if_pos hline, if_pos hline]
    cases routine? front with
    | some found => rfl
    | none =>
      cases candidate? front with
      | some found => rfl
      | none => rfl
  · rw [if_neg hline, if_neg hline, if_neg hline]
    rfl

end

/-! ## What follows the name of a callable -/

theorem suffix_of_callableName? {cs name rest : Line} (h : callableName? cs = some (name, rest)) :
    rest <:+ cs := by
  simp only [callableName?, Option.bind_eq_bind, Option.bind_eq_some_iff] at h
  obtain ⟨⟨name', rest'⟩, hname, hline⟩ := h
  dsimp only at hline
  split at hline
  · cases hline
    unfold name? at hname
    split at hname
    · cases hname
      exact (List.dropWhile_suffix _).trans (suffix_skipChar '!' cs)
    · cases hname
  · cases hline

theorem suffix_of_callable? {cs rest : Line} {kind : CallableKind} {name : String}
    (h : callable? cs = some (kind, name, rest)) : rest <:+ cs := by
  unfold callable? at h
  split at h
  · next hroutine =>
    cases h
    simp only [routine?, Option.bind_eq_bind, Option.bind_eq_some_iff] at hroutine
    obtain ⟨found, hkeyword, read, hname, heq⟩ := hroutine
    cases heq
    have hbehind := (suffix_of_callableName? hname).trans (suffix_of_afterOneOf? hkeyword)
    exact hbehind.trans ((suffix_skipOneOf ..).trans (suffix_skipOneOf ..))
  · obtain ⟨⟨name', rest'⟩, hcandidate, heq⟩ := Option.map_eq_some_iff.1 h
    cases heq
    simp only [candidate?, Option.bind_eq_bind, Option.bind_eq_some_iff] at hcandidate
    obtain ⟨found, hkeyword, read, hname, hrest⟩ := hcandidate
    split at hrest
    · cases hrest
    · cases hrest
      have hbehind := (suffix_of_callableName? hname).trans (suffix_of_afterOneOf? hkeyword)
      exact hbehind.trans (suffix_skipOneOf ..)

/-- A stop that is on the line is behind the name. -/
theorem mem_of_callable? {x : Char} {cs rest : Line} {kind : CallableKind} {name : String}
    (hx : IsStop x) (h : callable? cs = some (kind, name, rest)) : x ∈ rest ↔ x ∈ cs := by
  constructor
  · intro hmem
    exact (suffix_of_callable? h).mem hmem
  · intro hmem
    obtain ⟨front, back, rfl⟩ := List.append_of_mem hmem
    rw [callable?_stop hx] at h
    split at h
    · obtain ⟨found, -, heq⟩ := Option.map_eq_some_iff.1 h
      cases heq
      simp
    · cases h

end RakuAtlas.Header
