import RakuAtlas.Proofs.Query.Occurrences

/-!
# RakuAtlas.Proofs.Query.Hits — what a search passes over

A search takes matches from the left and goes on behind each of them. So a
place at which it would find something can be lost in one way only.

* `pairwise_hits`: hits come one after the other.
* `mem_hits_or_covered`: where the search finds something there is a hit, unless
  an earlier hit covers the place.
-/

namespace RakuAtlas.Text

variable {α : Type} {find : Line → Option (Nat × α)}

/-- A hit covers the place behind `front`: it starts earlier and takes in the
character that stands there. -/
def Hit.Covers (h : Hit α) (front : Line) : Prop :=
  ∃ inner, front = h.before.reverse ++ inner ∧ inner ≠ [] ∧ inner.length < h.text.length

/-! ## The order of hits -/

/-- A hit stands behind what is still to be passed over. -/
theorem exists_passed_of_mem_hitsFrom {h : Hit α} {line before : Line} {skip : Nat}
    (hmem : h ∈ hitsFrom find skip before line) :
    ∃ passed, h.before = passed.reverse ++ before ∧ skip ≤ passed.length ∧
      line = passed ++ (h.text ++ h.after) := by
  induction line generalizing skip before with
  | nil => simp [hitsFrom] at hmem
  | cons c cs ih =>
    -- a hit in the rest of the line has passed this character too
    have hlater : ∀ {k : Nat}, h ∈ hitsFrom find k (c :: before) cs →
        ∃ passed, h.before = passed.reverse ++ before ∧ k + 1 ≤ passed.length ∧
          c :: cs = passed ++ (h.text ++ h.after) := by
      intro k hk
      rcases ih hk with ⟨passed, hbefore, hle, rfl⟩
      refine ⟨c :: passed, by simp [hbefore], ?_, rfl⟩
      rw [List.length_cons]
      omega
    cases skip with
    | succ k =>
      simp only [hitsFrom] at hmem
      exact hlater hmem
    | zero =>
      simp only [hitsFrom] at hmem
      split at hmem
      · rcases List.mem_cons.1 hmem with rfl | hmore
        · exact ⟨[], rfl, Nat.zero_le _, by simp⟩
        · rcases hlater hmore with ⟨passed, hbefore, -, hline⟩
          exact ⟨passed, hbefore, Nat.zero_le _, hline⟩
      · rcases hlater hmem with ⟨passed, hbefore, -, hline⟩
        exact ⟨passed, hbefore, Nat.zero_le _, hline⟩

theorem pairwise_hitsFrom (find : Line → Option (Nat × α)) (skip : Nat) (before line : Line) :
    (hitsFrom find skip before line).Pairwise fun a b => a.start < b.start ∧ a.stop ≤ b.start := by
  induction line generalizing skip before with
  | nil => exact .nil
  | cons c cs ih =>
    cases skip with
    | succ k =>
      simp only [hitsFrom]
      exact ih k (c :: before)
    | zero =>
      simp only [hitsFrom]
      split
      · next len info _ =>
        refine List.pairwise_cons.2 ⟨?_, ih _ _⟩
        intro later hmem
        rcases exists_passed_of_mem_hitsFrom hmem with ⟨passed, hbefore, hle, rfl⟩
        have hpos := Char.utf8Size_pos c
        have hstart : later.start = byteLen before + byteLen (c :: passed) := by
          rw [Hit.start, hbefore, byteLen_append, byteLen_cons, byteLen_cons]
          have hperm : byteLen passed.reverse = byteLen passed :=
            total_perm _ passed.reverse_perm
          omega
        -- the match ends within what was passed
        have htake : (c :: (passed ++ (later.text ++ later.after))).take len <+: c :: passed := by
          rw [← List.cons_append]
          refine List.prefix_of_prefix_length_le (List.take_prefix ..) (List.prefix_append ..) ?_
          rw [List.length_take, List.length_cons]
          omega
        rcases htake with ⟨more, hmore⟩
        have hbytes := congrArg byteLen hmore
        rw [byteLen_append] at hbytes
        constructor
        · show byteLen before < later.start
          rw [hstart, byteLen_cons]
          omega
        · show byteLen before + byteLen ((c :: (passed ++ (later.text ++ later.after))).take len) ≤
            later.start
          omega
      · exact ih 0 (c :: before)

/-- Hits come one after the other. -/
theorem pairwise_hits (find : Line → Option (Nat × α)) (line : Line) :
    (hits find line).Pairwise fun a b => a.start < b.start ∧ a.stop ≤ b.start :=
  pairwise_hitsFrom find 0 [] line

/-- A hit that starts before another also stops before it. -/
theorem stop_le_start_of_mem_hits {a b : Hit α} {line : Line} (ha : a ∈ hits find line)
    (hb : b ∈ hits find line) (h : a.start < b.start) : a.stop ≤ b.start := by
  rcases List.mem_iff_getElem.1 ha with ⟨i, hi, rfl⟩
  rcases List.mem_iff_getElem.1 hb with ⟨j, hj, rfl⟩
  have hpairwise := List.pairwise_iff_getElem.1 (pairwise_hits find line)
  rcases Nat.lt_trichotomy i j with hlt | rfl | hgt
  · exact (hpairwise i j hi hj hlt).2
  · exact absurd h (Nat.lt_irrefl _)
  · exact absurd h (Nat.lt_asymm (hpairwise j i hj hi hgt).1)

/-! ## Places that are found -/

theorem mem_hitsFrom_or_covered {rest : Line} (hrest : rest ≠ []) {len : Nat} {info : α}
    (hfind : find rest = some (len, info)) (skip : Nat) (before front : Line) :
    ⟨front.reverse ++ before, rest.take len, rest.drop len, info⟩ ∈
        hitsFrom find skip before (front ++ rest) ∨
      front.length < skip ∨
      ∃ h ∈ hitsFrom find skip before (front ++ rest), h.Covers (before.reverse ++ front) := by
  induction front generalizing skip before with
  | nil =>
    rcases List.exists_cons_of_ne_nil hrest with ⟨c, cs, rfl⟩
    cases skip with
    | succ k => exact Or.inr (Or.inl (Nat.succ_pos k))
    | zero =>
      left
      simp only [List.nil_append, hitsFrom, hfind]
      exact List.mem_cons_self ..
  | cons d ds ih =>
    have hbefore : (d :: before).reverse ++ ds = before.reverse ++ d :: ds := by simp
    have hreverse : ds.reverse ++ d :: before = (d :: ds).reverse ++ before := by simp
    cases skip with
    | succ k =>
      have hrec := ih k (d :: before)
      rw [hbefore, hreverse] at hrec
      simp only [List.cons_append, hitsFrom, List.length_cons, Nat.add_lt_add_iff_right]
      exact hrec
    | zero =>
      simp only [List.cons_append, hitsFrom]
      split
      · next len' info' _ =>
        have hrec := ih (len' - 1) (d :: before)
        rw [hbefore, hreverse] at hrec
        rcases hrec with hmem | hskip | ⟨h, hmem, hcovers⟩
        · exact Or.inl (List.mem_cons_of_mem _ hmem)
        · -- the match that starts here reaches over the place
          refine Or.inr (Or.inr ⟨_, List.mem_cons_self .., d :: ds, rfl, by simp, ?_⟩)
          have hpos := List.length_pos_of_ne_nil hrest
          simp only [List.length_take, List.length_cons, List.length_append]
          omega
        · exact Or.inr (Or.inr ⟨h, List.mem_cons_of_mem _ hmem, hcovers⟩)
      · have hrec := ih 0 (d :: before)
        rw [hbefore, hreverse] at hrec
        rcases hrec with hmem | hskip | hcovered
        · exact Or.inl hmem
        · exact absurd hskip (Nat.not_lt_zero _)
        · exact Or.inr (Or.inr hcovered)

/-- Where the search finds something there is a hit, unless an earlier hit
covers the place. -/
theorem mem_hits_or_covered (front : Line) {rest : Line} (hrest : rest ≠ []) {len : Nat} {info : α}
    (hfind : find rest = some (len, info)) :
    ⟨front.reverse, rest.take len, rest.drop len, info⟩ ∈ hits find (front ++ rest) ∨
      ∃ h ∈ hits find (front ++ rest), h.Covers front := by
  rcases mem_hitsFrom_or_covered hrest hfind 0 [] front with hmem | hskip | hcovered
  · rw [List.append_nil] at hmem
    exact Or.inl hmem
  · exact absurd hskip (Nat.not_lt_zero _)
  · exact Or.inr hcovered

end RakuAtlas.Text
