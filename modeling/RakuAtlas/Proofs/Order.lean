import Mathlib.Data.List.Induction
import Mathlib.Data.List.Perm.Basic
import Mathlib.Order.Bounds.Basic

/-!
# RakuAtlas.Proofs.Order — lists in a canonical order

Answers are ordered lists, while the state behind them is built up in the
order of events. The lemmas here say when the order of events does not show:

* `mergeSort_eq_of_perm`: sorting forgets the order, if no two members are
  tied;
* `perm_flatMap_filter`: grouping by a key only reorders;
* `eq_of_pairwise`: in a strict order the members decide the list.

In a list that is in the order of a number, the first find is the one with the least
(`find?_map_eq_some_iff_isLeast`).
-/

namespace RakuAtlas.Order

variable {α β : Type}

/-- A list of at most one member is in every order. -/
theorem pairwise_of_length_le_one {R : α → α → Prop} {xs : List α} (h : xs.length ≤ 1) :
    xs.Pairwise R :=
  match xs, h with
  | [], _ => .nil
  | [a], _ => List.pairwise_singleton R a

/-- Removing duplicates leaves none. -/
theorem nodup_eraseDups [BEq α] [LawfulBEq α] (xs : List α) : xs.eraseDups.Nodup := by
  generalize hn : xs.length = n
  induction n using Nat.strongRecOn generalizing xs with
  | ind n ih =>
    cases xs with
    | nil => simp
    | cons x more =>
      rw [List.eraseDups_cons, List.nodup_cons]
      have hle : (more.filter fun y => !y == x).length ≤ more.length := List.length_filter_le ..
      refine ⟨?_, ih _ (by rw [← hn, List.length_cons]; omega) _ rfl⟩
      intro hmem
      simp [List.mem_eraseDups] at hmem

/-- What comes again adds nothing once duplicates are removed. -/
theorem eraseDups_concat_of_mem [BEq α] [LawfulBEq α] {xs : List α} {x : α} (h : x ∈ xs) :
    (xs ++ [x]).eraseDups = xs.eraseDups := by
  simp [List.eraseDups_append, List.removeAll, h]

/-- What is new comes last. -/
theorem eraseDups_concat_of_not_mem [BEq α] [LawfulBEq α] {xs : List α} {x : α} (h : x ∉ xs) :
    (xs ++ [x]).eraseDups = xs.eraseDups ++ [x] := by
  simp [List.eraseDups_append, List.removeAll, h, List.eraseDups_cons]

/-- Removing duplicates keeps the order. -/
theorem eraseDups_sublist [BEq α] [LawfulBEq α] (xs : List α) : xs.eraseDups.Sublist xs := by
  induction xs using List.reverseRecOn with
  | nil => exact List.Sublist.refl _
  | append_singleton xs x ih =>
    by_cases hx : x ∈ xs
    · rw [eraseDups_concat_of_mem hx]
      exact ih.trans (List.sublist_append_left ..)
    · rw [eraseDups_concat_of_not_mem hx]
      exact ih.append_right [x]

/-- Lists with the same members have them in some order once duplicates are
removed. -/
theorem perm_eraseDups [BEq α] [LawfulBEq α] {xs ys : List α} (h : xs.Perm ys) :
    xs.eraseDups.Perm ys.eraseDups := by
  rw [List.perm_ext_iff_of_nodup (nodup_eraseDups xs) (nodup_eraseDups ys)]
  intro a
  rw [List.mem_eraseDups, List.mem_eraseDups]
  exact h.mem_iff

/-- Duplicates can be removed before or behind a function that keeps the members apart. -/
theorem eraseDups_map [BEq α] [LawfulBEq α] [BEq β] [LawfulBEq β] {f : α → β} {xs : List α}
    (hf : ∀ a ∈ xs, ∀ b ∈ xs, f a = f b → a = b) : (xs.map f).eraseDups = xs.eraseDups.map f := by
  induction xs using List.reverseRecOn with
  | nil => rfl
  | append_singleton xs x ih =>
    have hfront := ih fun a ha b hb =>
      hf a (List.mem_append_left _ ha) b (List.mem_append_left _ hb)
    rw [List.map_append, List.map_singleton]
    by_cases hx : x ∈ xs
    · rw [eraseDups_concat_of_mem hx, eraseDups_concat_of_mem (List.mem_map_of_mem hx), hfront]
    · have hfx : f x ∉ xs.map f := by
        intro hmem
        obtain ⟨a, ha, heq⟩ := List.mem_map.1 hmem
        exact hx (hf a (List.mem_append_left _ ha) x (List.mem_append_right _ (by simp)) heq ▸ ha)
      rw [eraseDups_concat_of_not_mem hx, eraseDups_concat_of_not_mem hfx, hfront, List.map_append,
        List.map_singleton]

/-- A member with its key, where the list has the member first. -/
def IsFirst (xs : List (β × α)) (x : β × α) : Prop :=
  ∃ before after, xs = before ++ x :: after ∧ x.2 ∉ before.map Prod.snd

theorem IsFirst.concat {xs : List (β × α)} {x : β × α} (h : IsFirst xs x) (y : β × α) :
    IsFirst (xs ++ [y]) x := by
  obtain ⟨before, after, rfl, hx⟩ := h
  exact ⟨before, after ++ [y], by simp, hx⟩

/-- What is left of members with keys once duplicates are removed is in the order in which each
comes first. -/
theorem pairwise_eraseDups_of_keyed [BEq α] [LawfulBEq α] {R : β × α → β × α → Prop}
    {xs : List (β × α)} (h : xs.Pairwise R) :
    (∀ a ∈ (xs.map Prod.snd).eraseDups, ∃ k, IsFirst xs (k, a)) ∧
      (xs.map Prod.snd).eraseDups.Pairwise fun a b =>
        ∃ k l, IsFirst xs (k, a) ∧ IsFirst xs (l, b) ∧ R (k, a) (l, b) := by
  induction xs using List.reverseRecOn with
  | nil => simp
  | append_singleton xs x ih =>
    obtain ⟨hxs, -, hlast⟩ := List.pairwise_append.1 h
    obtain ⟨hfirst, hpairwise⟩ := ih hxs
    have hpairwise' := hpairwise.imp fun ⟨k, l, ha, hb, hR⟩ =>
      (⟨k, l, ha.concat x, hb.concat x, hR⟩ : ∃ k l, IsFirst (xs ++ [x]) (k, _) ∧
        IsFirst (xs ++ [x]) (l, _) ∧ R (k, _) (l, _))
    rw [List.map_append, List.map_singleton]
    by_cases hx : x.2 ∈ xs.map Prod.snd
    · rw [eraseDups_concat_of_mem hx]
      exact ⟨fun a ha => (hfirst a ha).imp fun k hk => hk.concat x, hpairwise'⟩
    · -- what is new comes first where it is, behind all others
      have hnew : IsFirst (xs ++ [x]) (x.1, x.2) := ⟨xs, [], rfl, hx⟩
      rw [eraseDups_concat_of_not_mem hx]
      constructor
      · intro a ha
        obtain hold | hlast := List.mem_append.1 ha
        · exact (hfirst a hold).imp fun k hk => hk.concat x
        · obtain rfl := List.mem_singleton.1 hlast
          exact ⟨x.1, hnew⟩
      · refine List.pairwise_append.2 ⟨hpairwise', List.pairwise_singleton _ _, ?_⟩
        intro a ha b hb
        obtain rfl := List.mem_singleton.1 hb
        obtain ⟨k, before, after, hcut, hk⟩ := hfirst a ha
        refine ⟨k, x.1, IsFirst.concat ⟨before, after, hcut, hk⟩ x, hnew, ?_⟩
        exact hlast (k, a) (by rw [hcut]; simp) x (List.mem_singleton_self x)

/-- Sorting by a number puts the list in the order of that number. -/
theorem pairwise_mergeSort_key (key : α → Nat) (xs : List α) :
    (xs.mergeSort fun a b => key a ≤ key b).Pairwise (key · ≤ key ·) := by
  have hsorted := @List.pairwise_mergeSort α (fun a b => decide (key a ≤ key b))
    (fun a b c hab hbc => by simp only [decide_eq_true_eq] at *; omega)
    (fun a b => by simp only [Bool.or_eq_true, decide_eq_true_eq]; omega) xs
  exact hsorted.imp fun hab => of_decide_eq_true hab

/-- In a list that is in the order of a number, the first member with a property is
the one with the least number. -/
theorem find?_map_eq_some_iff_isLeast {key : α → Nat} {p : α → Bool} {xs : List α}
    (hsorted : xs.Pairwise (key · < key ·)) {n : Nat} :
    (xs.find? p).map key = some n ↔ IsLeast {k | ∃ a ∈ xs, p a ∧ key a = k} n := by
  have hleast : ∀ {a}, xs.find? p = some a → IsLeast {k | ∃ a ∈ xs, p a ∧ key a = k} (key a) := by
    intro a ha
    refine ⟨⟨a, List.mem_of_find?_eq_some ha, List.find?_some ha, rfl⟩, ?_⟩
    obtain ⟨-, before, after, rfl, hbefore⟩ := List.find?_eq_some_iff_append.1 ha
    rintro k ⟨b, hb, hpb, rfl⟩
    rcases List.mem_append.1 hb with hb | hb
    · have hnot := hbefore b hb
      rw [hpb] at hnot
      cases hnot
    · rcases List.mem_cons.1 hb with rfl | hb
      · exact Nat.le_refl _
      · exact Nat.le_of_lt (List.rel_of_pairwise_cons (List.pairwise_append.1 hsorted).2.1 hb)
  constructor
  · intro h
    obtain ⟨a, ha, rfl⟩ := Option.map_eq_some_iff.1 h
    exact hleast ha
  · intro h
    obtain ⟨a, ha, hpa, -⟩ := h.1
    obtain ⟨first, hfirst⟩ := Option.isSome_iff_exists.1 (List.find?_isSome.2 ⟨a, ha, hpa⟩)
    rw [hfirst, Option.map_some, (hleast hfirst).unique h]

/-- A list in a strict order is determined by its members. -/
theorem eq_of_pairwise {R : α → α → Prop} (hasymm : ∀ {a b}, R a b → ¬R b a) {xs ys : List α}
    (hxs : xs.Pairwise R) (hys : ys.Pairwise R) (h : ∀ a, a ∈ xs ↔ a ∈ ys) : xs = ys := by
  have hnodup : ∀ {zs : List α}, zs.Pairwise R → zs.Nodup := by
    intro zs hzs
    refine hzs.imp ?_
    rintro a b hab rfl
    exact hasymm hab hab
  have hperm := (List.perm_ext_iff_of_nodup (hnodup hxs) (hnodup hys)).2 h
  refine hperm.eq_of_pairwise ?_ hxs hys
  intro a b _ _ hab hba
  exact absurd hba (hasymm hab)

/-- Sorting gives the same list for every order of the input, if members that
come both ways round are equal. -/
theorem mergeSort_eq_of_perm {le : α → α → Bool} {xs ys : List α}
    (htrans : ∀ a b c, le a b → le b c → le a c) (htotal : ∀ a b, le a b || le b a)
    (hanti : ∀ a b, a ∈ xs → b ∈ xs → le a b → le b a → a = b) (h : xs.Perm ys) :
    xs.mergeSort le = ys.mergeSort le := by
  have hperm : (xs.mergeSort le).Perm (ys.mergeSort le) :=
    (List.mergeSort_perm xs le).trans (h.trans (List.mergeSort_perm ys le).symm)
  refine hperm.eq_of_pairwise ?_ (List.pairwise_mergeSort htrans htotal xs)
    (List.pairwise_mergeSort htrans htotal ys)
  intro a b ha hb hab hba
  rw [List.mem_mergeSort] at ha hb
  exact hanti a b ha (h.mem_iff.2 hb) hab hba

/-- The groups of a list by a key, put one behind the other, are the list in
another order. -/
theorem perm_flatMap_filter [BEq β] [LawfulBEq β] (key : α → β) {groups : List β} {xs : List α}
    (hnodup : groups.Nodup) (hmem : ∀ a ∈ xs, key a ∈ groups) :
    (groups.flatMap fun k => xs.filter fun a => key a == k).Perm xs := by
  induction groups generalizing xs with
  | nil =>
    have hnil : xs = [] := List.eq_nil_iff_forall_not_mem.2 fun a ha => by simpa using hmem a ha
    simp [hnil]
  | cons k more ih =>
    rw [List.nodup_cons] at hnodup
    -- what is not in the first group falls into the others
    let rest := xs.filter fun a => !(key a == k)
    have hrest : ∀ a ∈ rest, key a ∈ more := by
      intro a ha
      rcases List.mem_filter.1 ha with ⟨hxs, hne⟩
      rcases List.mem_cons.1 (hmem a hxs) with heq | hmore
      · simp [heq] at hne
      · exact hmore
    have hsame : ∀ k' ∈ more,
        (xs.filter fun a => key a == k') = rest.filter fun a => key a == k' := by
      intro k' hk'
      rw [List.filter_filter]
      apply List.filter_congr
      intro a _
      by_cases heq : key a = k'
      · have hne : k' ≠ k := fun h => hnodup.1 (h ▸ hk')
        simp [heq, hne]
      · simp [heq]
    rw [List.flatMap_cons, List.flatMap_congr hsame]
    exact ((ih hnodup.2 hrest).append_left _).trans (List.filter_append_perm _ xs)

end RakuAtlas.Order
