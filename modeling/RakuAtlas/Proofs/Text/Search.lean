import RakuAtlas.Text.Search

/-!
# RakuAtlas.Proofs.Text.Search — what a search finds

A hit is what the search function said at its place (`exists_of_mem_hits`), so a
fact about that function is one about all hits.
-/

namespace RakuAtlas.Text

/-- The first answer is what the search says of some rest of the line. -/
theorem exists_of_firstAt? {α : Type} {find : Line → Option α} {line : Line} {a : α}
    (h : firstAt? find line = some a) : ∃ rest, rest <:+ line ∧ find rest = some a := by
  induction line with
  | nil => exact ⟨[], List.suffix_rfl, h⟩
  | cons c cs ih =>
    rw [firstAt?, Option.or_eq_some_iff] at h
    rcases h with hhere | ⟨-, hlater⟩
    · exact ⟨c :: cs, List.suffix_rfl, hhere⟩
    · obtain ⟨rest, hrest, hfind⟩ := ih hlater
      exact ⟨rest, hrest.trans (List.suffix_cons c cs), hfind⟩

variable {α : Type} {find : Line → Option (Nat × α)} {h : Hit α}

/-- A hit is what the search found at its place. -/
theorem find_of_mem_hitsFrom {line before : Line} {skip : Nat}
    (hmem : h ∈ hitsFrom find skip before line) :
    ∃ len, find (h.text ++ h.after) = some (len, h.info) ∧
      h.text = (h.text ++ h.after).take len := by
  induction line generalizing skip before with
  | nil => simp [hitsFrom] at hmem
  | cons c cs ih =>
    cases skip with
    | succ k =>
      simp only [hitsFrom] at hmem
      exact ih hmem
    | zero =>
      simp only [hitsFrom] at hmem
      split at hmem
      · next len info hfound =>
        rcases List.mem_cons.1 hmem with rfl | hlater
        · refine ⟨len, ?_, ?_⟩
          · rw [List.take_append_drop]
            exact hfound
          · rw [List.take_append_drop]
        · exact ih hlater
      · exact ih hmem

theorem Hit.start_eq (h : Hit α) : h.start = byteLen h.before.reverse :=
  total_perm _ h.before.reverse_perm.symm

/-- A hit stands on the line behind as many bytes as its start says, and is
what the search found there. -/
theorem exists_of_mem_hits {line : Line} (hmem : h ∈ hits find line) :
    ∃ front len, line = front ++ (h.text ++ h.after) ∧ h.start = byteLen front ∧
      find (h.text ++ h.after) = some (len, h.info) ∧ h.text = (h.text ++ h.after).take len := by
  have hline := line_of_mem_hitsFrom hmem
  rcases find_of_mem_hitsFrom hmem with ⟨len, hfind, htake⟩
  refine ⟨h.before.reverse, len, ?_, h.start_eq, hfind, htake⟩
  rw [← List.append_assoc, hline]
  rfl

end RakuAtlas.Text
