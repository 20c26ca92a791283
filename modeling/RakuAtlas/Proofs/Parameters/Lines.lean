import RakuAtlas.Proofs.Parameters.Arguments

/-!
# RakuAtlas.Proofs.Parameters.Lines — an empty hash on the lines of a callable

A line with an empty hash ends the search for the rest of a signature, though it lists its
own parameters as if the hash were not there. So the hash hides what is listed behind it:

* `signatureParams_takeWhile`: on the header line, up to the next brace;
* `gains_paramsOver`: on the lines that follow, while the signature is open. Each line is
  a step: what it lists and takes itself is the same, and what it leaves open decides about
  the next.

`gains_params` puts the two together.
-/

namespace RakuAtlas

open Unicode (isBlank)
open Text
open Lexical (takeWhile_stop)

namespace Variable

/-! ## Where a signature ends -/

/-- A closing brace behind other characters than an opening one is the same for all of them. -/
theorem closesBlock_congr {before before' : Option Char} (h : before ≠ some '\x7b')
    (h' : before' ≠ some '\x7b') (cs : Line) : closesBlock before cs = closesBlock before' cs := by
  cases cs with
  | nil => rfl
  | cons c more => simp [closesBlock, h, h']

theorem closesBlock_append (before : Option Char) (front back : Line) (c : Char) :
    closesBlock before (front ++ c :: back) =
      (closesBlock before (front ++ [c]) || closesBlock (some c) back) := by
  induction front generalizing before with
  | nil => simp [closesBlock]
  | cons d more ih =>
    rw [List.cons_append, List.cons_append, closesBlock, closesBlock, ih, Bool.or_assoc]

/-- The empty hash of a default value closes no block. -/
theorem closesBlock_emptyDefault {front : Line} (hfront : EndsInWord front) (back : Line) :
    closesBlock none (front ++ (Block.emptyDefault ++ back)) =
      closesBlock none (front ++ back) := by
  obtain ⟨inner, c, rfl, hc⟩ : ∃ inner c, front = inner ++ [c] ∧ c ≠ '\x7b' := by
    rcases hfront with ⟨inner, w, blanks, rfl, hw, hblanks⟩
    rcases List.eq_nil_or_concat blanks with rfl | ⟨more, b, rfl⟩
    · exact ⟨inner, w, rfl, ne_of_isWord hw (by decide)⟩
    · refine ⟨inner ++ w :: more, b, by simp, ?_⟩
      exact ne_of_isBlank (hblanks b (by simp)) (by decide)
  have hdefault : closesBlock (some c) (Block.emptyDefault ++ back) =
      closesBlock (some '\x7d') back := rfl
  have hsame : closesBlock (some '\x7d') back = closesBlock (some c) back :=
    closesBlock_congr (by decide) (by simpa using hc) back
  rw [← List.append_cons, ← List.append_cons, closesBlock_append, closesBlock_append _ _ back,
    hdefault, hsame]

theorem mem_of_closesBlock {before : Option Char} {cs : Line} (h : closesBlock before cs) :
    '\x7d' ∈ cs := by
  induction cs generalizing before with
  | nil => cases h
  | cons c more ih =>
    rw [closesBlock, Bool.or_eq_true] at h
    rcases h with hhere | hlater
    · rw [Bool.and_eq_true, decide_eq_true_iff] at hhere
      rw [hhere.1]
      exact List.mem_cons_self ..
    · exact List.mem_cons_of_mem c (ih hlater)

theorem endsSignature_of_mem {cs : Line} {c : Char} (hmem : c ∈ cs)
    (hc : c ∈ [')', '\x7d', '\x7b']) : endsSignature cs := by
  rw [endsSignature, Bool.or_eq_true, List.any_eq_true]
  exact .inr ⟨c, hmem, by simpa [or_assoc] using hc⟩

/-- A line that closes the body ends the signature. -/
theorem not_closesBlock {cs : Line} (h : ¬endsSignature cs) : ¬closesBlock none cs :=
  fun hcloses => h (endsSignature_of_mem (mem_of_closesBlock hcloses) (by decide))

/-- A line with the empty hash of a default value ends the signature, as far as the lines that
follow are concerned. -/
theorem endsSignature_emptyDefault (front back : Line) :
    endsSignature (front ++ (Block.emptyDefault ++ back)) := by
  apply endsSignature_of_mem (c := '\x7b')
  · rw [Block.emptyDefault]
    simp
  · decide

/-! ## What is gained -/

/-- The second list of parameters has some more than the first. -/
structure Gains (more params params' : List String) : Prop where
  mem_iff : ∀ param, param ∈ params' ↔ param ∈ params ∨ param ∈ more
  eq_of_nil : more = [] → params' = params

namespace Gains

variable {more params params' : List String}

theorem refl (params : List String) : Gains [] params params := by
  constructor
  · intro param
    simp
  · intro _
    rfl

theorem append (h : Gains more params params') (listed taken : List String) :
    Gains (listed ++ more) (taken ++ params) (listed ++ taken ++ params') := by
  constructor
  · intro param
    simp only [List.mem_append, h.mem_iff]
    tauto
  · intro hnil
    rw [List.append_eq_nil_iff] at hnil
    rw [hnil.1, h.eq_of_nil hnil.2, List.nil_append]

/-- Both lists may start with the same parameters. -/
theorem append_left (h : Gains more params params') (listed : List String) :
    Gains more (listed ++ params) (listed ++ params') := by
  simpa using h.append [] listed

end Gains

/-- The parameters that lines list until the signature ends. -/
def listedOver : List Line → List String
  | [] => []
  | cs :: more =>
    signatureParams (beforeBody cs) ++ if endsSignature cs then [] else listedOver more

/-- While the signature is open, lines have the parameters that they list besides those that
they take from the arguments. -/
theorem gains_listedOver (lines : List Line) :
    Gains (listedOver lines) (paramsOver false false lines) (paramsOver false true lines) := by
  induction lines with
  | nil => exact .refl []
  | cons cs more ih =>
    have hlater : Gains (if endsSignature cs then [] else listedOver more)
        (if closesBlock none cs then [] else paramsOver false false more)
        (if closesBlock none cs then [] else paramsOver false (!endsSignature cs) more) := by
      by_cases hends : endsSignature cs
      · rw [hends]
        exact .refl _
      · have hcloses := not_closesBlock hends
        rw [if_neg hends, if_neg hcloses, if_neg hcloses, Bool.eq_false_iff.2 hends]
        exact ih
    exact hlater.append (signatureParams (beforeBody cs)) (takenParams cs)

/-- The parameters on the lines behind those on which the signature is still open. -/
def listedBehind (lines below : List Line) : List String :=
  if lines.any endsSignature then [] else listedOver below

theorem paramsOver_cons (isHeader inSignature : Bool) (cs : Line) (more : List Line) :
    paramsOver isHeader inSignature (cs :: more) =
      (if inSignature && !isHeader then signatureParams (beforeBody cs) else []) ++
        takenParams cs ++ if closesBlock none cs then []
          else paramsOver false (inSignature && !endsSignature cs) more := rfl

section
variable {front back : Line} (hfront : EndsInWord front) (hback : EndsParameter back)
include hfront hback

/-- Where no signature is open, an empty hash hides nothing. -/
theorem paramsOver_false_emptyDefault (isHeader : Bool) (pre below : List Line) :
    paramsOver isHeader false (pre ++ (front ++ (Block.emptyDefault ++ back)) :: below) =
      paramsOver isHeader false (pre ++ (front ++ back) :: below) := by
  induction pre generalizing isHeader with
  | nil =>
    rw [List.nil_append, List.nil_append, paramsOver_cons, paramsOver_cons,
      takenParams_emptyDefault hfront hback, closesBlock_emptyDefault hfront]
    rfl
  | cons cs more ih =>
    rw [List.cons_append, List.cons_append, paramsOver_cons, paramsOver_cons, Bool.false_and,
      Bool.false_and, ih]

/-- Where a signature is open, an empty hash hides the parameters that are listed behind its
line, and no others. -/
theorem gains_paramsOver (isHeader : Bool) (pre below : List Line) :
    Gains (listedBehind (pre ++ [front ++ back]) below)
      (paramsOver isHeader true (pre ++ (front ++ (Block.emptyDefault ++ back)) :: below))
      (paramsOver isHeader true (pre ++ (front ++ back) :: below)) := by
  induction pre generalizing isHeader with
  | nil =>
    rw [List.nil_append, List.nil_append, List.nil_append, paramsOver_cons, paramsOver_cons,
      signatureParams_beforeBody_emptyDefault hfront, takenParams_emptyDefault hfront hback,
      closesBlock_emptyDefault hfront, endsSignature_emptyDefault]
    apply Gains.append_left
    by_cases hends : endsSignature (front ++ back)
    · simp only [listedBehind, List.any_cons, hends, Bool.true_or, if_true]
      exact .refl _
    · have hcloses := not_closesBlock hends
      rw [if_neg hcloses, if_neg hcloses, Bool.eq_false_iff.2 hends]
      simp only [listedBehind, List.any_cons, List.any_nil, hends, Bool.or_false]
      exact gains_listedOver below
  | cons cs more ih =>
    rw [List.cons_append, List.cons_append, List.cons_append, paramsOver_cons, paramsOver_cons]
    apply Gains.append_left
    by_cases hends : endsSignature cs
    · simp only [listedBehind, List.any_cons, hends, Bool.true_or, if_true, Bool.not_true,
        Bool.and_false, paramsOver_false_emptyDefault hfront hback]
      exact .refl _
    · have hcloses := not_closesBlock hends
      rw [if_neg hcloses, if_neg hcloses, Bool.eq_false_iff.2 hends]
      simp only [listedBehind, List.any_cons, hends, Bool.false_or]
      exact ih false

end

/-! ## The parameters of a callable -/

/-- Parameters that show up again are not repeated. -/
theorem mem_foldl_params {later found : List String} {param : String} :
    param ∈ later.foldl
        (fun found param => if found.contains param then found else found ++ [param]) found ↔
      param ∈ found ∨ param ∈ later := by
  induction later generalizing found with
  | nil => simp
  | cons first more ih =>
    rw [List.foldl_cons, ih, List.mem_cons]
    by_cases hfirst : found.contains first
    · rw [if_pos hfirst]
      rw [List.contains_iff_mem] at hfirst
      constructor
      · tauto
      · rintro (hfound | rfl | hmore)
        · exact .inl hfound
        · exact .inl hfirst
        · exact .inr hmore
    · rw [if_neg hfirst, List.mem_append, List.mem_singleton]
      tauto

/-- A callable gains the parameters that its signature gains on the header line and behind it. -/
theorem gains_params {afterName afterName' header header' : Line} {following following' : List Line}
    {listed later : List String}
    (hlisted : signatureParams (afterName'.takeWhile (· ≠ '\x7b')) =
      signatureParams (afterName.takeWhile (· ≠ '\x7b')) ++ listed)
    (hlater : Gains later (laterParams header following) (laterParams header' following')) :
    Gains (listed ++ later) (params afterName header following)
      (params afterName' header' following') := by
  constructor
  · intro param
    rw [params, params, mem_foldl_params, mem_foldl_params, hlisted, List.mem_append,
      hlater.mem_iff, List.mem_append]
    tauto
  · intro hnil
    rw [List.append_eq_nil_iff] at hnil
    rw [params, params, hlisted, hnil.1, List.append_nil, hlater.eq_of_nil hnil.2]

/-- The parameters that a header line lists behind its front. -/
def listedAfter (front back : Line) : List String :=
  if '\x7b' ∈ front then [] else signatureParams (back.takeWhile (· ≠ '\x7b'))

/-- Of the front, only its braces matter. -/
theorem listedAfter_congr {front front' : Line} (h : '\x7b' ∈ front ↔ '\x7b' ∈ front')
    (back : Line) : listedAfter front back = listedAfter front' back := by
  simp only [listedAfter, h]

/-- A parameter also ends where its line is cut behind it. -/
theorem AtParameterEnd.takeWhile {back : Line} (h : AtParameterEnd back) :
    AtParameterEnd (back.takeWhile (· ≠ '\x7b')) := by
  have hblanks : ∀ b ∈ back.takeWhile isBlank, isBlank b := fun b hb => List.mem_takeWhile_imp hb
  have hkept : ∀ b ∈ back.takeWhile isBlank, decide (b ≠ '\x7b') = true :=
    fun b hb => decide_eq_true (ne_of_isBlank (hblanks b hb) (by decide))
  have hsplit : back.takeWhile (· ≠ '\x7b') =
      back.takeWhile isBlank ++ (trimStart back).takeWhile (· ≠ '\x7b') := by
    rw [← List.takeWhile_append_of_pos hkept, trimStart, List.takeWhile_append_dropWhile]
  intro c hc
  rw [hsplit, trimStart, List.dropWhile_append_of_pos hblanks] at hc
  cases hnext : trimStart back with
  | nil =>
    rw [hnext] at hc
    cases hc
  | cons d more =>
    rw [hnext] at hc
    rcases h d (by rw [hnext]; rfl) with rfl | rfl
    · exact .inl (Option.some.inj hc).symm
    · exact .inr (Option.some.inj hc).symm

section
variable {front back : Line} (hfront : EndsInWord front) (hback : EndsParameter back)
include hfront hback

omit hback in
/-- A default value without a text names no parameter. -/
theorem signatureParams_equals :
    signatureParams (front ++ ['=', ' ']) = signatureParams front := by
  have hhashes : Block.dropEmptyHashes ['=', ' '] = ['=', ' '] := rfl
  obtain ⟨inside, happend⟩ := exists_eraseHits_append (Block.dropEmptyHashes front)
  rw [signatureParams, Block.dropEmptyHashes_append hfront, hhashes, happend]
  cases inside with
  | true => exact congrArg variablesIn (List.append_nil _)
  | false => exact congrArg variablesIn (List.append_nil _)

/-- On the header line, an empty hash hides the parameters behind it, up to the next brace. -/
theorem signatureParams_takeWhile :
    signatureParams ((front ++ back).takeWhile (· ≠ '\x7b')) =
      signatureParams ((front ++ (Block.emptyDefault ++ back)).takeWhile (· ≠ '\x7b')) ++
        listedAfter front back := by
  unfold listedAfter
  by_cases hbrace : '\x7b' ∈ front
  · -- both lines are cut at the same brace
    obtain ⟨before, behind, rfl⟩ := List.append_of_mem hbrace
    have hcut : ∀ cs, (before ++ '\x7b' :: behind ++ cs).takeWhile (· ≠ '\x7b') =
        before.takeWhile (· ≠ '\x7b') := by
      intro cs
      rw [List.append_assoc]
      exact takeWhile_stop (by decide) before _
    rw [if_pos hbrace, hcut, hcut, List.append_nil]
  · -- the line is cut in the hash, if it is there
    have hpart : ∀ c ∈ front, decide (c ≠ '\x7b') = true := by
      intro c hc
      rw [decide_eq_true_iff]
      rintro rfl
      exact hbrace hc
    have hcut : (Block.emptyDefault ++ back).takeWhile (· ≠ '\x7b') = ['=', ' '] := rfl
    rw [if_neg hbrace, List.takeWhile_append_of_pos hpart, List.takeWhile_append_of_pos hpart, hcut,
      signatureParams_append hfront hback.atEnd.takeWhile, signatureParams_equals hfront]

/-- Behind the header line, an empty hash hides the parameters on the lines behind it. -/
theorem gains_laterParams (pre below : List Line) {header header' : Line}
    {following following' : List Line}
    (hlines : header :: following = pre ++ (front ++ (Block.emptyDefault ++ back)) :: below)
    (hlines' : header' :: following' = pre ++ (front ++ back) :: below) :
    Gains (listedBehind (pre ++ [front ++ back]) (below.take (lookahead - pre.length)))
      (laterParams header following) (laterParams header' following') := by
  have hcut : ∀ line : Line, (pre ++ line :: below).take (lookahead + 1) =
      if pre.length ≤ lookahead then pre ++ line :: below.take (lookahead - pre.length)
      else pre.take (lookahead + 1) := by
    intro line
    rw [List.take_append]
    split
    · next hpre =>
      rw [List.take_of_length_le (Nat.le_succ_of_le hpre), Nat.succ_sub hpre, List.take_succ_cons]
    · next hpre =>
      rw [Nat.sub_eq_zero_of_le (Nat.lt_of_not_le hpre), List.take_zero, List.append_nil]
  rw [laterParams, laterParams, ← List.take_succ_cons, ← List.take_succ_cons, hlines, hlines',
    hcut, hcut]
  by_cases hpre : pre.length ≤ lookahead
  · rw [if_pos hpre, if_pos hpre]
    exact gains_paramsOver hfront hback true pre _
  · have hnone : lookahead - pre.length = 0 := Nat.sub_eq_zero_of_le (Nat.le_of_not_le hpre)
    rw [if_neg hpre, if_neg hpre, hnone, List.take_zero, listedBehind, listedOver, ite_self]
    exact .refl _

end

end Variable

end RakuAtlas
