import RakuAtlas.Proofs.Order
import RakuAtlas.Symbol.Index

/-!
# RakuAtlas.Proofs.Index.Keys — the symbols under keys

The index keeps its symbols in a list of keys. A list of keys is `WellKeyed`
if each key is in it once and has a symbol. Adding and dropping symbols keep
it so, and their effect is said once and for all in terms of `symbolsUnder`
and of the number of symbols:

* `symbolsUnder_pushUnder`, `sizeOf_pushUnder` for adding one symbol;
* `symbolsUnder_dropKeys`, `sizeOf_dropKeys` for dropping a file under several
  keys. The second says that what is counted as dropped was there.
-/

namespace RakuAtlas.Index

/-- Each key is there once, and has a symbol. -/
structure WellKeyed (byKey : List (String × List Symbol)) : Prop where
  nodup : (byKey.map Prod.fst).Nodup
  ne_nil : ∀ entry ∈ byKey, entry.2 ≠ []

/-- The number of symbols under all keys. -/
def sizeOf (byKey : List (String × List Symbol)) : Nat := total (·.2.length) byKey

@[simp] theorem sizeOf_nil : sizeOf [] = 0 := rfl

@[simp] theorem sizeOf_cons (entry : String × List Symbol) (more : List (String × List Symbol)) :
    sizeOf (entry :: more) = entry.2.length + sizeOf more := rfl

@[simp] theorem symbolsUnder_nil (key : String) : symbolsUnder [] key = [] := rfl

theorem symbolsUnder_cons (other : String) (symbols : List Symbol)
    (more : List (String × List Symbol)) (key : String) :
    symbolsUnder ((other, symbols) :: more) key =
      if key = other then symbols else symbolsUnder more key := by
  unfold symbolsUnder
  rw [List.lookup_cons]
  by_cases h : key = other
  · simp [h]
  · rw [if_neg h, beq_false_of_ne h]

/-- A key that is not there has no symbols. -/
theorem symbolsUnder_eq_nil {byKey : List (String × List Symbol)} {key : String}
    (h : key ∉ byKey.map Prod.fst) : symbolsUnder byKey key = [] := by
  induction byKey with
  | nil => rfl
  | cons entry more ih =>
    rcases entry with ⟨other, symbols⟩
    rw [List.map_cons, List.mem_cons, not_or] at h
    rw [symbolsUnder_cons, if_neg h.1]
    exact ih h.2

theorem symbolsUnder_of_mem {byKey : List (String × List Symbol)} (h : WellKeyed byKey)
    {key : String} {symbols : List Symbol} (hmem : (key, symbols) ∈ byKey) :
    symbolsUnder byKey key = symbols := by
  rcases h with ⟨hnodup, -⟩
  induction byKey with
  | nil => simp at hmem
  | cons entry more ih =>
    rcases entry with ⟨other, others⟩
    rw [List.map_cons, List.nodup_cons] at hnodup
    rw [symbolsUnder_cons]
    rcases List.mem_cons.1 hmem with heq | hmore
    · rcases Prod.mk.inj heq with ⟨rfl, rfl⟩
      rw [if_pos rfl]
    · have hkey : key ∈ more.map Prod.fst := List.mem_map_of_mem hmore
      have hne : key ≠ other := fun heq => hnodup.1 (heq ▸ hkey)
      rw [if_neg hne]
      exact ih hmore hnodup.2

/-- The keys are those that have symbols. -/
theorem mem_keys_iff {byKey : List (String × List Symbol)} (h : WellKeyed byKey) (key : String) :
    key ∈ byKey.map Prod.fst ↔ symbolsUnder byKey key ≠ [] := by
  constructor
  · intro hkey
    rcases List.mem_map.1 hkey with ⟨⟨other, symbols⟩, hmem, rfl⟩
    rw [symbolsUnder_of_mem h hmem]
    exact h.ne_nil _ hmem
  · intro hne
    by_contra hkey
    exact hne (symbolsUnder_eq_nil hkey)

/-- The size is what the keys have, added up. -/
theorem sizeOf_eq_total {byKey : List (String × List Symbol)} (h : WellKeyed byKey) :
    sizeOf byKey = total (fun key => (symbolsUnder byKey key).length) (byKey.map Prod.fst) := by
  -- every key is looked up in the whole list, so the induction is on a part of it
  suffices ∀ part, part ⊆ byKey → sizeOf part =
      total (fun key => (symbolsUnder byKey key).length) (part.map Prod.fst) from
    this byKey (List.Subset.refl _)
  intro part hpart
  induction part with
  | nil => rfl
  | cons entry more ih =>
    rcases entry with ⟨key, symbols⟩
    rw [List.cons_subset] at hpart
    rw [sizeOf_cons, List.map_cons, total_cons, symbolsUnder_of_mem h hpart.1, ih hpart.2]

/-! ## Adding a symbol -/

/-- A symbol is added under its key, and the other keys are left alone. -/
theorem symbolsUnder_pushUnder (key : String) (s : Symbol) (byKey : List (String × List Symbol))
    (k : String) :
    symbolsUnder (pushUnder key s byKey) k =
      symbolsUnder byKey k ++ if k = key then [s] else [] := by
  induction byKey with
  | nil =>
    rw [pushUnder, symbolsUnder_cons]
    simp
  | cons entry more ih =>
    rcases entry with ⟨other, symbols⟩
    rw [pushUnder]
    by_cases hother : other = key
    · rw [if_pos hother, symbolsUnder_cons, symbolsUnder_cons]
      by_cases hk : k = other
      · rw [if_pos hk, if_pos hk, if_pos (hk.trans hother)]
      · rw [if_neg hk, if_neg hk, if_neg (fun h => hk (h.trans hother.symm)), List.append_nil]
    · rw [if_neg hother, symbolsUnder_cons, symbolsUnder_cons, ih]
      by_cases hk : k = other
      · rw [if_pos hk, if_pos hk, if_neg (fun h => hother (hk.symm.trans h)), List.append_nil]
      · rw [if_neg hk, if_neg hk]

theorem sizeOf_pushUnder (key : String) (s : Symbol) (byKey : List (String × List Symbol)) :
    sizeOf (pushUnder key s byKey) = sizeOf byKey + 1 := by
  induction byKey with
  | nil => rfl
  | cons entry more ih =>
    rcases entry with ⟨other, symbols⟩
    rw [pushUnder]
    split
    · simp only [sizeOf_cons, List.length_append, List.length_singleton]
      omega
    · simp only [sizeOf_cons, ih]
      omega

theorem keys_pushUnder (key : String) (s : Symbol) (byKey : List (String × List Symbol)) :
    (pushUnder key s byKey).map Prod.fst =
      if key ∈ byKey.map Prod.fst then byKey.map Prod.fst else byKey.map Prod.fst ++ [key] := by
  induction byKey with
  | nil => rfl
  | cons entry more ih =>
    rcases entry with ⟨other, symbols⟩
    rw [pushUnder]
    by_cases hother : other = key
    · simp [hother]
    · rw [if_neg hother, List.map_cons, ih]
      by_cases hkey : key ∈ more.map Prod.fst
      · have hmem : key ∈ ((other, symbols) :: more).map Prod.fst := List.mem_cons_of_mem _ hkey
        rw [if_pos hkey, if_pos hmem, List.map_cons]
      · have hnot : key ∉ ((other, symbols) :: more).map Prod.fst := by
          rw [List.map_cons, List.mem_cons, not_or]
          exact ⟨fun h => hother h.symm, hkey⟩
        rw [if_neg hkey, if_neg hnot, List.map_cons, List.cons_append]

theorem WellKeyed.pushUnder {byKey : List (String × List Symbol)} (h : WellKeyed byKey)
    (key : String) (s : Symbol) : WellKeyed (pushUnder key s byKey) where
  nodup := by
    rw [keys_pushUnder]
    split
    · exact h.nodup
    · next hkey =>
      exact List.nodup_append.2 ⟨h.nodup, by simp, by
        intro a ha b hb hab
        rw [List.mem_singleton] at hb
        exact hkey (hb ▸ hab ▸ ha)⟩
  ne_nil := by
    rcases h with ⟨-, hne⟩
    induction byKey with
    | nil => simp [Index.pushUnder]
    | cons entry more ih =>
      rcases entry with ⟨other, symbols⟩
      rw [Index.pushUnder]
      have hmore : ∀ entry ∈ more, entry.2 ≠ [] := fun e he => hne e (List.mem_cons_of_mem _ he)
      split
      · intro e he
        rcases List.mem_cons.1 he with rfl | he
        · simp
        · exact hmore e he
      · intro e he
        rcases List.mem_cons.1 he with rfl | he
        · exact hne _ (List.mem_cons_self ..)
        · exact ih hmore e he

/-! ## Dropping a file -/

theorem keys_dropUnder_sublist (file : FileId) (key : String)
    (byKey : List (String × List Symbol)) :
    ((dropUnder file key byKey).map Prod.fst).Sublist (byKey.map Prod.fst) := by
  induction byKey with
  | nil => exact List.Sublist.refl _
  | cons entry more ih =>
    rcases entry with ⟨other, symbols⟩
    rw [dropUnder]
    split
    · split
      · exact List.sublist_cons_self ..
      · exact List.Sublist.refl _
    · exact ih.cons_cons other

/-- Under the key the symbols of the file are gone, and the other keys are left
alone. This needs each key to be there once: a key that is emptied would
otherwise uncover another. -/
theorem symbolsUnder_dropUnder {byKey : List (String × List Symbol)} (h : WellKeyed byKey)
    (file : FileId) (key k : String) :
    symbolsUnder (dropUnder file key byKey) k =
      if k = key then (symbolsUnder byKey k).filter (·.file != file) else symbolsUnder byKey k := by
  rcases h with ⟨hnodup, -⟩
  induction byKey with
  | nil => simp [dropUnder]
  | cons entry more ih =>
    rcases entry with ⟨other, symbols⟩
    rw [List.map_cons, List.nodup_cons] at hnodup
    rw [dropUnder, symbolsUnder_cons]
    by_cases hother : other = key
    · rw [if_pos hother]
      split
      · next hempty =>
        by_cases hk : k = key
        · -- the key goes, and no later entry has it
          have hgone : symbolsUnder more k = [] := by
            apply symbolsUnder_eq_nil
            rw [hk, ← hother]
            exact hnodup.1
          rw [if_pos hk, if_pos (hk.trans hother.symm), hgone, hempty]
        · rw [if_neg hk, if_neg (fun h => hk (h.trans hother))]
      · rw [symbolsUnder_cons]
        by_cases hk : k = key
        · rw [if_pos hk, if_pos (hk.trans hother.symm), if_pos (hk.trans hother.symm)]
        · rw [if_neg hk, if_neg (fun h => hk (h.trans hother)),
            if_neg (fun h => hk (h.trans hother))]
    · rw [if_neg hother, symbolsUnder_cons, ih hnodup.2]
      by_cases hk : k = other
      · rw [if_pos hk, if_pos hk, if_neg (fun h => hother (hk.symm.trans h))]
      · rw [if_neg hk, if_neg hk]

theorem WellKeyed.dropUnder {byKey : List (String × List Symbol)} (h : WellKeyed byKey)
    (file : FileId) (key : String) : WellKeyed (dropUnder file key byKey) where
  nodup := (keys_dropUnder_sublist file key byKey).nodup h.nodup
  ne_nil := by
    rcases h with ⟨-, hne⟩
    induction byKey with
    | nil => simp [Index.dropUnder]
    | cons entry more ih =>
      rcases entry with ⟨other, symbols⟩
      rw [Index.dropUnder]
      have hmore : ∀ entry ∈ more, entry.2 ≠ [] := fun e he => hne e (List.mem_cons_of_mem _ he)
      split
      · split
        · exact hmore
        · next hkept =>
          intro e he
          rcases List.mem_cons.1 he with rfl | he
          · exact hkept
          · exact hmore e he
      · intro e he
        rcases List.mem_cons.1 he with rfl | he
        · exact hne _ (List.mem_cons_self ..)
        · exact ih hmore e he

/-- What is counted as dropped was there. -/
theorem sizeOf_dropUnder (file : FileId) (key : String) (byKey : List (String × List Symbol)) :
    sizeOf (dropUnder file key byKey) +
      ((symbolsUnder byKey key).length -
        ((symbolsUnder byKey key).filter (·.file != file)).length) = sizeOf byKey := by
  induction byKey with
  | nil => rfl
  | cons entry more ih =>
    rcases entry with ⟨other, symbols⟩
    rw [dropUnder, symbolsUnder_cons]
    by_cases hother : other = key
    · rw [if_pos hother, if_pos hother.symm]
      have hle := List.length_filter_le (fun s : Symbol => s.file != file) symbols
      split
      · next hempty =>
        simp only [hempty, sizeOf_cons, List.length_nil]
        omega
      · simp only [sizeOf_cons]
        omega
    · rw [if_neg hother, if_neg (fun h => hother h.symm)]
      simp only [sizeOf_cons]
      omega

theorem WellKeyed.dropKeys {byKey : List (String × List Symbol)} (h : WellKeyed byKey)
    (file : FileId) (keys : List String) : WellKeyed (dropKeys file byKey keys).1 := by
  induction keys generalizing byKey with
  | nil => exact h
  | cons key more ih => exact ih (h.dropUnder file key)

/-- Under the given keys the symbols of the file are gone, and the other keys
are left alone. -/
theorem symbolsUnder_dropKeys {byKey : List (String × List Symbol)} (h : WellKeyed byKey)
    (file : FileId) (keys : List String) (k : String) :
    symbolsUnder (dropKeys file byKey keys).1 k =
      if k ∈ keys then (symbolsUnder byKey k).filter (·.file != file) else symbolsUnder byKey k := by
  induction keys generalizing byKey with
  | nil => rfl
  | cons key more ih =>
    rw [show (dropKeys file byKey (key :: more)).1 =
      (dropKeys file (dropUnder file key byKey) more).1 from rfl, ih (h.dropUnder file key),
      symbolsUnder_dropUnder h]
    by_cases hkey : k = key
    · -- a key that comes twice is emptied of the file once
      simp [hkey]
    · simp [hkey]

theorem sizeOf_dropKeys (file : FileId) (byKey : List (String × List Symbol))
    (keys : List String) :
    sizeOf (dropKeys file byKey keys).1 + (dropKeys file byKey keys).2 = sizeOf byKey := by
  induction keys generalizing byKey with
  | nil => rfl
  | cons key more ih =>
    have hmore := ih (dropUnder file key byKey)
    have hhere := sizeOf_dropUnder file key byKey
    simp only [dropKeys]
    omega

end RakuAtlas.Index
