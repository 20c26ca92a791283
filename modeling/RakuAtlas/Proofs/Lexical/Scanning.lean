import Mathlib.Order.Bounds.Basic
import RakuAtlas.Proofs.Lexical.Openings

/-!
# RakuAtlas.Proofs.Lexical.Scanning — where a construct closes

A scan goes over the body of a construct character by character. `Quote.step` is what one character
does, and `Quote.scanFrom` is the scan as a run of such steps, which also says at which byte the
construct closes and how it is left. It finds what `Quote.scan` finds (`scanFrom_eq`).

* `step_behind`, `scanFrom_behind`: in brackets the depth counts those that stand unescaped in what
  is read, one step and then a run at a time, up to the bracket that closes.
* `step_newline`, `scanFrom_newline`: a newline is read like the end of a line. So a construct is
  scanned over several lines as it is line by line, if no other part can follow a closing bracket.
* `scan_exact`: both, for all that opens in code.
-/

namespace RakuAtlas.Lexical.Quote

open Text (Line byteLen byteLen_append byteLen_cons byteLen_nil)

/-! ## Steps -/

/-- What one character does to a construct that is read: it goes on, or it closes and is left. -/
inductive Step where
  | goesOn (quote : Quote) (phase : Phase)
  | closes (quote : Quote)

/-- Read the character `c` of a construct, with `rest` behind it. -/
def step (q : Quote) (phase : Phase) (c : Char) (rest : Line) : Step :=
  match phase with
  | .escaped => .goesOn q .body
  | .gap => .goesOn q (if q.opener = some c then .body else .gap)
  | .body =>
    if q.escapes && c == '\\' then .goesOn q .escaped
    else if q.opener = some c then .goesOn { q with depth := q.depth + 1 } .body
    else if c ≠ q.closer then .goesOn q .body
    else if 0 < q.depth then .goesOn { q with depth := q.depth - 1 } .body
    else if q.parts ≤ 1 then .closes { q with parts := q.parts - 1 }
    else match q.opener with
      | none => .goesOn { q with parts := q.parts - 1 } .body
      | some bracket =>
        if opensNext bracket rest then .goesOn { q with parts := q.parts - 1 } .gap
        else .closes { q with parts := 0 }

/-- Read characters that start at the byte `start`. What comes first is the byte behind the last
delimiter, if the construct closes, and then the construct as it is left. -/
def scanFrom (q : Quote) (phase : Phase) (start : Nat) : Line → Option Nat × Quote
  | [] => (none, q)
  | c :: cs =>
    match q.step phase c cs with
    | .goesOn q phase => scanFrom q phase (start + c.utf8Size) cs
    | .closes q => (some (start + c.utf8Size), q)

/-- A step changes the depth and the parts alone, and a construct that closes has none left. -/
theorem step_cases (q : Quote) (phase : Phase) (c : Char) (rest : Line) :
    (∃ depth parts phase',
      q.step phase c rest = .goesOn { q with depth := depth, parts := parts } phase') ∨
      q.step phase c rest = .closes { q with depth := 0, parts := 0 } := by
  fun_cases step q phase c rest with
  | case7 _ _ _ hdepth hparts =>
    have hzero : q.depth = 0 := Nat.eq_zero_of_not_pos hdepth
    rw [Nat.sub_eq_zero_of_le hparts, hzero]
    exact Or.inr rfl
  | case10 _ _ _ hdepth _ bracket _ _ =>
    rw [Nat.eq_zero_of_not_pos hdepth]
    exact Or.inr rfl
  | _ => exact Or.inl ⟨_, _, _, rfl⟩

theorem scan_cons (q : Quote) (phase : Phase) (c : Char) (cs : Line) :
    q.scan phase (c :: cs) =
      match q.step phase c cs with
      | .goesOn q phase => (q.scan phase cs).succ
      | .closes _ => .closed 1 := by
  fun_cases step q phase c cs with
  | case1 => rfl
  | case2 => rfl
  -- in the body: a backslash, an opening bracket, another character, a nested closer
  | case3 hescape => rw [scan, if_pos hescape]
  | case4 hescape hopener => rw [scan, if_neg hescape, if_pos hopener]
  | case5 hescape hopener hcloser => rw [scan, if_neg hescape, if_neg hopener, if_pos hcloser]
  | case6 hescape hopener hcloser hdepth =>
    rw [scan, if_neg hescape, if_neg hopener, if_neg hcloser, if_pos hdepth]
  -- the closer of the last part, or of one that another part may follow
  | case7 hescape hopener hcloser hdepth hparts =>
    rw [scan, if_neg hescape, if_neg hopener, if_neg hcloser, if_neg hdepth, if_pos hparts]
  | case8 hescape hopener hcloser hdepth hparts hnone =>
    rw [scan, if_neg hescape, if_neg hopener, if_neg hcloser, if_neg hdepth, if_neg hparts]
    simp only [hnone]
  | case9 hescape hopener hcloser hdepth hparts bracket hsome hnext =>
    rw [scan, if_neg hescape, if_neg hopener, if_neg hcloser, if_neg hdepth, if_neg hparts]
    simp only [hsome, if_pos hnext]
  | case10 hescape hopener hcloser hdepth hparts bracket hsome hnext =>
    rw [scan, if_neg hescape, if_neg hopener, if_neg hcloser, if_neg hdepth, if_neg hparts]
    simp only [hsome, if_neg hnext]

/-- Read as a run of steps a construct closes where the scan of it says, or is left open like
that. -/
theorem scanFrom_eq (q : Quote) (phase : Phase) (start : Nat) (cs : Line) :
    q.scanFrom phase start cs =
      match q.scan phase cs with
      | .closed count =>
        (some (start + byteLen (cs.take count)), { q with depth := 0, parts := 0 })
      | .unclosed left => (none, left) := by
  induction cs generalizing q phase start with
  | nil => rfl
  | cons c cs ih =>
    rw [scanFrom, scan_cons]
    rcases step_cases q phase c cs with ⟨depth, parts, phase', hstep⟩ | hstep
    · rw [hstep]
      dsimp only
      rw [ih]
      -- what closes behind one character more closes one character later
      cases scan { q with depth := depth, parts := parts } phase' cs with
      | closed count =>
        simp only [Scan.succ, List.take_succ_cons, byteLen_cons, Nat.add_assoc]
      | unclosed left => rfl
    · rw [hstep]
      simp

/-- The byte at which the reading starts counts for the byte at which it stops alone. -/
theorem scanFrom_add (q : Quote) (phase : Phase) (start more : Nat) (cs : Line) :
    q.scanFrom phase (start + more) cs =
      ((q.scanFrom phase start cs).1.map (· + more), (q.scanFrom phase start cs).2) := by
  rw [scanFrom_eq, scanFrom_eq]
  cases q.scan phase cs with
  | closed count =>
    simp only [Option.map_some]
    rw [Nat.add_right_comm]
  | unclosed left => rfl

/-! ## Delimiters -/

/-- Neither delimiter is a backslash or a newline, and the two of a pair differ. -/
structure Apart (q : Quote) : Prop where
  closer_ne : q.closer ≠ '\\' ∧ q.closer ≠ '\n'
  opener_ne : ∀ bracket, q.opener = some bracket →
    bracket ≠ '\\' ∧ bracket ≠ '\n' ∧ bracket ≠ q.closer

theorem Apart.change {q : Quote} (h : q.Apart) (depth parts : Nat) :
    { q with depth := depth, parts := parts }.Apart := ⟨h.closer_ne, h.opener_ne⟩

theorem apart_opened (cls : SpanClass) {delimiter : Char} (h : delimiter ∈ delimiters) :
    (opened cls delimiter).Apart := by
  have hall : delimiters.all (fun d => d != '\\' && d != '\n' &&
      (closing? d).all fun closer => closer != '\\' && closer != '\n' && d != closer) := by decide
  have hone := List.all_eq_true.1 hall delimiter h
  simp only [Bool.and_eq_true, bne_iff_ne] at hone
  obtain ⟨⟨hslash, hnewline⟩, hpair⟩ := hone
  unfold opened
  split
  · next closer hcloser =>
    simp only [hcloser, Option.all_some, Bool.and_eq_true, bne_iff_ne] at hpair
    obtain ⟨⟨hslash', hnewline'⟩, hne⟩ := hpair
    refine ⟨⟨hslash', hnewline'⟩, ?_⟩
    intro bracket hbracket
    obtain rfl := Option.some.inj hbracket
    exact ⟨hslash, hnewline, hne⟩
  · exact ⟨⟨hslash, hnewline⟩, nofun⟩

theorem Opens.apart {q : Quote} (h : q.Opens) : q.Apart := by
  cases h with
  | string hmem => exact apart_opened .string hmem
  | verbatim hmem => exact ⟨(apart_opened .string hmem).1, (apart_opened .string hmem).2⟩
  | comment hmem => exact ⟨(apart_opened .comment hmem).1, (apart_opened .comment hmem).2⟩
  | pattern hmem _ _ => exact ⟨(apart_opened .pattern hmem).1, (apart_opened .pattern hmem).2⟩

/-! ## Lines -/

/-- A newline that is read changes nothing, escaped or not. -/
theorem step_newline {q : Quote} (hq : q.Apart) {phase : Phase} (hphase : phase ≠ .gap)
    (rest : Line) : q.step phase '\n' rest = .goesOn q .body := by
  cases phase with
  | escaped => rfl
  | gap => exact absurd rfl hphase
  | body =>
    have hopener : q.opener ≠ some '\n' := fun h => (hq.opener_ne '\n' h).2.1 rfl
    have hescape : ¬(q.escapes && '\n' == '\\') = true := by simp
    rw [step, if_neg hescape, if_neg hopener, if_pos hq.closer_ne.2.symm]

section
variable {q : Quote}

/-- If no other part can follow a closing bracket, a step does not look behind its character. -/
theorem step_congr (hpart : q.parts ≤ 1 ∨ q.opener = none) (phase : Phase) (c : Char)
    (rest rest' : Line) : q.step phase c rest = q.step phase c rest' := by
  cases phase with
  | escaped => rfl
  | gap => rfl
  | body =>
    rcases hpart with hparts | hnone
    · simp only [step, if_pos hparts]
    · simp only [step, hnone]

/-- And a construct that goes on is neither on the way to such a part nor comes to one later. -/
theorem step_here (hpart : q.parts ≤ 1 ∨ q.opener = none) {phase phase' : Phase}
    (hphase : phase ≠ .gap) {c : Char} {rest : Line} {q' : Quote}
    (h : q.step phase c rest = .goesOn q' phase') :
    (q'.parts ≤ 1 ∨ q'.opener = none) ∧ phase' ≠ .gap := by
  revert h
  fun_cases step q phase c rest with
  | case2 => exact absurd rfl hphase
  | case7 => nofun
  | case8 _ _ _ _ _ hnone =>
    rintro ⟨⟩
    exact ⟨Or.inr hnone, nofun⟩
  | case9 _ _ _ _ hparts bracket hsome =>
    -- the only step on the way to a part, for which one would have to follow
    rcases hpart with hparts' | hnone
    · exact absurd hparts' hparts
    · cases hsome.symm.trans hnone
  | case10 => nofun
  | _ =>
    rintro ⟨⟩
    exact ⟨hpart, nofun⟩

/-- What stands on a line and the one below it is read as both lines are, one after the other. -/
theorem scanFrom_newline (hq : q.Apart) (hpart : q.parts ≤ 1 ∨ q.opener = none) {phase : Phase}
    (hphase : phase ≠ .gap) (start : Nat) (a b : Line) :
    q.scanFrom phase start (a ++ '\n' :: b) =
      match q.scanFrom phase start a with
      | (some stop, left) => (some stop, left)
      | (none, left) => left.scanFrom .body (start + (byteLen a + 1)) b := by
  induction a generalizing q phase start with
  | nil =>
    rw [List.nil_append, scanFrom, scanFrom, step_newline hq hphase]
    rfl
  | cons c a ih =>
    rw [List.cons_append, scanFrom, scanFrom, step_congr hpart phase c (a ++ '\n' :: b) a]
    rcases step_cases q phase c a with ⟨depth, parts, phase', hstep⟩ | hstep
    · obtain ⟨hpart', hphase'⟩ := step_here hpart hphase hstep
      rw [hstep]
      dsimp only
      rw [ih (hq.change depth parts) hpart' hphase', byteLen_cons]
      simp only [Nat.add_assoc]
    · rw [hstep]

end

/-! ## Brackets -/

/-- Whether the character behind `front` is escaped: an odd number of backslashes is right before
it. -/
def escapesBehind (q : Quote) (front : Line) : Bool :=
  q.escapes && (front.reverse.takeWhile (· == '\\')).length % 2 == 1

/-- How often a character stands on a line without being escaped. -/
def bareCount (q : Quote) (c : Char) (cs : Line) : Nat :=
  (List.range cs.length).countP fun i => cs[i]? == some c && !q.escapesBehind (cs.take i)

/-- The character with number `i` is a closing bracket, not escaped, with which the closing brackets
are one more than the opening ones and those that were open before. -/
def EndsAt (q : Quote) (bracket : Char) (cs : Line) (i : Nat) : Prop :=
  cs[i]? = some q.closer ∧ q.escapesBehind (cs.take i) = false ∧
    q.bareCount q.closer (cs.take (i + 1)) = q.bareCount bracket (cs.take (i + 1)) + q.depth + 1

instance (q : Quote) (bracket : Char) (cs : Line) (i : Nat) : Decidable (q.EndsAt bracket cs i) :=
  inferInstanceAs (Decidable (_ ∧ _ ∧ _))

section
variable {q : Quote}

/-- A backslash escapes the next character unless it is escaped itself. -/
theorem escapesBehind_concat (q : Quote) (front : Line) (c : Char) :
    q.escapesBehind (front ++ [c]) = (q.escapes && c == '\\' && !q.escapesBehind front) := by
  rw [escapesBehind, escapesBehind, List.reverse_append, List.reverse_singleton,
    List.singleton_append]
  by_cases hc : c = '\\'
  · subst hc
    rw [List.takeWhile_cons_of_pos (by simp), List.length_cons]
    cases q.escapes with
    | false => rfl
    | true =>
      -- one backslash more is an odd number of them just if there was an even number
      rw [Bool.eq_iff_iff]
      simp only [Bool.true_and, beq_self_eq_true, Bool.not_eq_true', beq_iff_eq,
        beq_eq_false_iff_ne]
      omega
  · rw [List.takeWhile_cons_of_neg (by simpa using hc)]
    simp [hc]

theorem bareCount_concat (q : Quote) (c d : Char) (front : Line) :
    q.bareCount c (front ++ [d]) =
      q.bareCount c front + if d = c ∧ q.escapesBehind front = false then 1 else 0 := by
  have hfront : ∀ i ∈ List.range front.length,
      ((front ++ [d])[i]? == some c && !q.escapesBehind ((front ++ [d]).take i)) = true ↔
        (front[i]? == some c && !q.escapesBehind (front.take i)) = true := by
    intro i hi
    have hlt := List.mem_range.1 hi
    rw [List.getElem?_append_left hlt, List.take_append_of_le_length (Nat.le_of_lt hlt)]
  rw [bareCount, List.length_append, List.length_singleton, List.range_succ, List.countP_append,
    List.countP_congr hfront, ← bareCount, List.countP_singleton]
  simp

/-- The construct behind `front`, if it has not closed there. -/
def behind (q : Quote) (bracket : Char) (front : Line) : Quote :=
  { q with depth := q.depth + q.bareCount bracket front - q.bareCount q.closer front }

/-- Whether the character behind `front` stands for itself. -/
def phaseBehind (q : Quote) (front : Line) : Phase :=
  if q.escapesBehind front then .escaped else .body

variable {bracket : Char}

/-- A character ends a construct if it closes a bracket more than are open. -/
theorem endsAt_iff (hq : q.Apart) (hopener : q.opener = some bracket) (front : Line) (c : Char)
    (back : Line) :
    q.EndsAt bracket (front ++ c :: back) front.length ↔
      c = q.closer ∧ q.escapesBehind front = false ∧
        q.bareCount q.closer front = q.bareCount bracket front + q.depth := by
  have hne := (hq.opener_ne bracket hopener).2.2
  have hget : (front ++ c :: back)[front.length]? = some c := by simp
  rw [EndsAt, hget, List.take_left, List.take_length_add_append, Option.some.injEq,
    List.take_succ_cons, List.take_zero, bareCount_concat, bareCount_concat]
  refine and_congr_right fun hcloser => and_congr_right fun hbare => ?_
  subst hcloser
  rw [if_pos ⟨rfl, hbare⟩, if_neg (fun h => hne h.1.symm)]
  omega

/-- At the bracket that ends a construct of one part, the construct closes. -/
theorem step_behind_of_endsAt (hq : q.Apart) (hopener : q.opener = some bracket)
    (hparts : q.parts = 1) {front back : Line} {c : Char}
    (h : q.EndsAt bracket (front ++ c :: back) front.length) :
    (q.behind bracket front).step (q.phaseBehind front) c back =
      .closes { q with depth := 0, parts := 0 } := by
  obtain ⟨rfl, hbare, hcount⟩ := (endsAt_iff hq hopener front c back).1 h
  have hescape : ¬(q.escapes && q.closer == '\\') = true := by simp [hq.closer_ne.1]
  have hnot : q.opener ≠ some q.closer := fun h => (hq.opener_ne _ h).2.2 rfl
  have hdepth : q.depth + q.bareCount bracket front - q.bareCount q.closer front = 0 := by omega
  rw [phaseBehind, hbare, behind, hdepth]
  simp [step, hescape, hnot, hparts]

/-- A step of a construct that has not closed keeps its depth with the brackets that are read. -/
theorem step_behind (hq : q.Apart) (hopener : q.opener = some bracket) {front back : Line}
    {c : Char} (hle : q.bareCount q.closer front ≤ q.depth + q.bareCount bracket front)
    (h : ¬q.EndsAt bracket (front ++ c :: back) front.length) :
    (q.behind bracket front).step (q.phaseBehind front) c back =
        .goesOn (q.behind bracket (front ++ [c])) (q.phaseBehind (front ++ [c])) ∧
      q.bareCount q.closer (front ++ [c]) ≤ q.depth + q.bareCount bracket (front ++ [c]) := by
  rw [endsAt_iff hq hopener] at h
  obtain ⟨hslash, -, hne⟩ := hq.opener_ne bracket hopener
  rw [behind, behind, phaseBehind, phaseBehind, escapesBehind_concat, bareCount_concat,
    bareCount_concat]
  cases hbare : q.escapesBehind front with
  | true => simp [step, hle]
  | false =>
    by_cases hescape : (q.escapes && c == '\\') = true
    · -- a backslash is no bracket
      obtain ⟨hon, hc⟩ := Bool.and_eq_true_iff.1 hescape
      obtain rfl := beq_iff_eq.1 hc
      simp [step, hon, hslash.symm, hq.closer_ne.1.symm, hle]
    by_cases hopens : c = bracket
    · subst hopens
      simp [step, hescape, hopener, hne]
      omega
    have hother : q.opener ≠ some c := by
      rw [hopener]
      exact fun h => hopens (Option.some.inj h).symm
    by_cases hcloses : c = q.closer
    · -- it closes a bracket that is open, for it does not end the construct
      subst hcloses
      have hopen : q.bareCount q.closer front ≠ q.bareCount bracket front + q.depth :=
        fun hcount => h ⟨rfl, hbare, hcount⟩
      have hdepth : 0 < q.depth + q.bareCount bracket front - q.bareCount q.closer front := by
        omega
      simp [step, hescape, hother, hopens, hdepth]
      omega
    · simp [step, hescape, hother, hopens, hcloses, hle]

/-- A run over characters of which none ends the construct counts their brackets. -/
theorem scanFrom_behind (hq : q.Apart) (hopener : q.opener = some bracket) (start : Nat)
    (front mid back : Line)
    (hle : q.bareCount q.closer front ≤ q.depth + q.bareCount bracket front)
    (h : ∀ i < front.length + mid.length, ¬q.EndsAt bracket (front ++ (mid ++ back)) i) :
    (q.behind bracket front).scanFrom (q.phaseBehind front) start (mid ++ back) =
        (q.behind bracket (front ++ mid)).scanFrom (q.phaseBehind (front ++ mid))
          (start + byteLen mid) back ∧
      q.bareCount q.closer (front ++ mid) ≤ q.depth + q.bareCount bracket (front ++ mid) := by
  induction mid generalizing front start with
  | nil =>
    rw [List.append_nil]
    exact ⟨rfl, hle⟩
  | cons c mid ih =>
    have hnot : ¬q.EndsAt bracket (front ++ c :: (mid ++ back)) front.length := by
      refine h _ ?_
      rw [List.length_cons]
      omega
    obtain ⟨hstep, hle'⟩ := step_behind hq hopener hle hnot
    have hmore := ih (start + c.utf8Size) (front ++ [c]) hle' (by
      intro i hi
      rw [List.append_assoc]
      refine h i ?_
      rw [List.length_append, List.length_singleton] at hi
      rw [List.length_cons]
      omega)
    rw [List.append_assoc, List.singleton_append] at hmore
    rw [List.cons_append, scanFrom, hstep, byteLen_cons, ← Nat.add_assoc]
    exact hmore

theorem behind_nil (q : Quote) (bracket : Char) : q.behind bracket [] = q := rfl

theorem phaseBehind_nil (q : Quote) : q.phaseBehind [] = .body := by
  simp [phaseBehind, escapesBehind]

/-- A construct of one part in brackets closes behind the first bracket that ends it. -/
theorem scanFrom_of_isLeast (hq : q.Apart) (hopener : q.opener = some bracket)
    (hparts : q.parts = 1) (start : Nat) {cs : Line} {i : Nat}
    (h : IsLeast {i | q.EndsAt bracket cs i} i) :
    q.scanFrom .body start cs =
      (some (start + byteLen (cs.take (i + 1))), { q with depth := 0, parts := 0 }) := by
  obtain ⟨front, back, rfl, rfl⟩ : ∃ front back, cs = front ++ q.closer :: back ∧
      i = front.length := by
    obtain ⟨hlt, hget⟩ := List.getElem?_eq_some_iff.1 h.1.1
    refine ⟨cs.take i, cs.drop (i + 1), ?_, ?_⟩
    · rw [← hget, List.getElem_cons_drop, List.take_append_drop]
    · rw [List.length_take, Nat.min_eq_left (Nat.le_of_lt hlt)]
  obtain ⟨hrun, -⟩ := scanFrom_behind hq hopener start [] front (q.closer :: back)
    (Nat.zero_le _) (by
      intro i hi hearlier
      have hle := h.2 hearlier
      rw [List.length_nil, Nat.zero_add] at hi
      omega)
  rw [behind_nil, phaseBehind_nil, List.nil_append] at hrun
  rw [hrun, scanFrom, step_behind_of_endsAt hq hopener hparts h.1, List.take_length_add_append,
    List.take_succ_cons, List.take_zero, byteLen_append, byteLen_cons, byteLen_nil, Nat.add_zero,
    Nat.add_assoc]

/-- And if no bracket ends it, it is left open with as many brackets more as are read. -/
theorem scanFrom_of_not_endsAt (hq : q.Apart) (hopener : q.opener = some bracket) (start : Nat)
    {cs : Line} (h : ∀ i, ¬q.EndsAt bracket cs i) :
    q.scanFrom .body start cs =
        (none, { q with depth := q.depth + q.bareCount bracket cs - q.bareCount q.closer cs }) ∧
      q.bareCount q.closer cs ≤ q.depth + q.bareCount bracket cs := by
  obtain ⟨hrun, hle⟩ := scanFrom_behind hq hopener start [] cs [] (Nat.zero_le _) (by
    intro i _
    rw [List.append_nil]
    exact h i)
  rw [behind_nil, phaseBehind_nil, List.append_nil, List.nil_append] at hrun
  exact ⟨hrun, hle⟩

end

/-! ## All that opens -/

/-- A construct that opens somewhere in code, but for its depth and the parts that are left. -/
def CanBeOpen (q : Quote) : Prop :=
  ∃ depth parts before c more head,
    opened? before (Token.read c more).1 (more.drop (Token.read c more).2) =
      some ({ q with depth := depth, parts := parts }, head)

theorem CanBeOpen.apart {q : Quote} (h : q.CanBeOpen) : q.Apart := by
  obtain ⟨depth, parts, before, c, more, head, hopened⟩ := h
  exact (opens_of_opened? (Token.opens_read c more) hopened).apart.change q.depth q.parts

end RakuAtlas.Lexical.Quote
