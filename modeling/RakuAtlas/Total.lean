/-!
# RakuAtlas.Total — sums over lists

Sizes of lists of things: bytes of characters, symbols of tables, edits of
files.
-/

namespace RakuAtlas

/-- The sum of a measure over a list. -/
def total {α : Type} (measure : α → Nat) : List α → Nat
  | [] => 0
  | a :: more => measure a + total measure more

@[simp] theorem total_nil {α : Type} (measure : α → Nat) : total measure [] = 0 := rfl

@[simp] theorem total_cons {α : Type} (measure : α → Nat) (a : α) (more : List α) :
    total measure (a :: more) = measure a + total measure more := rfl

/-- Sums add up over parts of a list. -/
@[simp] theorem total_append {α : Type} (measure : α → Nat) (xs ys : List α) :
    total measure (xs ++ ys) = total measure xs + total measure ys := by
  induction xs with
  | nil => simp
  | cons a more ih => simp [ih, Nat.add_assoc]

/-- No part is more than the sum. -/
theorem le_total_of_mem {α : Type} (measure : α → Nat) {a : α} {xs : List α} (h : a ∈ xs) :
    measure a ≤ total measure xs := by
  obtain ⟨before, after, rfl⟩ := List.append_of_mem h
  simp only [total_append, total_cons]
  omega

/-- A sum does not depend on the order. -/
theorem total_perm {α : Type} (measure : α → Nat) {xs ys : List α} (h : xs.Perm ys) :
    total measure xs = total measure ys := by
  induction h with
  | nil => rfl
  | cons a _ ih => simp [ih]
  | swap a b more => simp only [total_cons]; omega
  | trans _ _ ih₁ ih₂ => exact ih₁.trans ih₂

end RakuAtlas
