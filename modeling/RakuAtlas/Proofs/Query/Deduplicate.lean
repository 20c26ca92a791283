import RakuAtlas.Proofs.Order
import RakuAtlas.Query.Occurrence

/-!
# RakuAtlas.Proofs.Query.Deduplicate — what is left of overlapping places

Deduplication orders places by location and collapses those that overlap.
What is left is in order, and any two places in one file are apart, not only
neighbours (`pairwise_deduplicate`). The reason is that a place which does not
clash with the one kept before it starts where that one has stopped, and all
later places start no earlier. Where no two places clash, none is lost
(`deduplicate_perm`).

So what is left is a normal form (`deduplicate_normalForm`): it stays as it is
when it is deduplicated again, and the order of what came in does not show.
-/

namespace RakuAtlas

/-! ## The order of places -/

theorem Pos.isLE_compare_iff (a b : Pos) :
    (compare a b).isLE ↔ a.line < b.line ∨ a.line = b.line ∧ a.col ≤ b.col := by
  show ((compare a.line b.line).then (compare a.col b.col)).isLE ↔ _
  rw [Ordering.isLE_then_iff_or, Nat.compare_eq_lt, Nat.compare_eq_eq, Nat.isLE_compare]

theorem Pos.compare_eq_lt_iff (a b : Pos) :
    compare a b = .lt ↔ a.line < b.line ∨ a.line = b.line ∧ a.col < b.col := by
  show (compare a.line b.line).then (compare a.col b.col) = .lt ↔ _
  rw [Ordering.then_eq_lt, Nat.compare_eq_lt, Nat.compare_eq_eq, Nat.compare_eq_lt]

theorem Pos.compare_eq_eq_iff (a b : Pos) :
    compare a b = .eq ↔ a.line = b.line ∧ a.col = b.col := by
  show (compare a.line b.line).then (compare a.col b.col) = .eq ↔ _
  rw [Ordering.then_eq_eq, Nat.compare_eq_eq, Nat.compare_eq_eq]

/-- Places are in the order of file, start and stop. -/
theorem Location.isLE_compare_iff (a b : Location) :
    (compare a b).isLE ↔ a.file.index < b.file.index ∨ a.file.index = b.file.index ∧
      ((a.range.start.line < b.range.start.line ∨ a.range.start.line = b.range.start.line ∧
          a.range.start.col < b.range.start.col) ∨
        (a.range.start.line = b.range.start.line ∧ a.range.start.col = b.range.start.col) ∧
          (a.range.stop.line < b.range.stop.line ∨ a.range.stop.line = b.range.stop.line ∧
            a.range.stop.col ≤ b.range.stop.col)) := by
  show ((compare a.file.index b.file.index).then
    ((compare a.range.start b.range.start).then (compare a.range.stop b.range.stop))).isLE ↔ _
  rw [Ordering.isLE_then_iff_or, Ordering.isLE_then_iff_or, Nat.compare_eq_lt, Nat.compare_eq_eq,
    Pos.compare_eq_lt_iff, Pos.compare_eq_eq_iff, Pos.isLE_compare_iff]

namespace Location

/-- One place starts no later than another. -/
def StartsBy (a b : Location) : Prop :=
  a.file.index < b.file.index ∨ a.file = b.file ∧ a.range.start ≤ b.range.start

/-- One place comes before another: in an earlier file, or in the same file,
where it starts earlier and stops before the other starts. -/
def Precedes (a b : Location) : Prop :=
  a.file.index < b.file.index ∨
    a.file = b.file ∧ a.range.start < b.range.start ∧ a.range.stop ≤ b.range.start

theorem StartsBy.refl (a : Location) : a.StartsBy a := Or.inr ⟨rfl, Or.inr ⟨rfl, Nat.le_refl _⟩⟩

theorem startsBy_of_isLE {a b : Location} (h : (compare a b).isLE) : a.StartsBy b := by
  rw [isLE_compare_iff] at h
  rcases h with hlt | ⟨hfile, hrange⟩
  · exact Or.inl hlt
  · refine Or.inr ⟨FileId.ext hfile, ?_⟩
    rw [Pos.le_iff]
    omega

theorem isLE_compare_trans {a b c : Location} (hab : (compare a b).isLE)
    (hbc : (compare b c).isLE) : (compare a c).isLE := by
  rw [isLE_compare_iff] at *
  omega

theorem isLE_compare_total (a b : Location) : (compare a b).isLE || (compare b a).isLE := by
  rw [Bool.or_eq_true, isLE_compare_iff, isLE_compare_iff]
  omega

/-- Places that come both ways round are the same. -/
theorem eq_of_isLE_compare {a b : Location} (hab : (compare a b).isLE)
    (hba : (compare b a).isLE) : a = b := by
  rcases a with ⟨⟨file⟩, ⟨line, col⟩, ⟨line', col'⟩⟩
  rcases b with ⟨⟨file₂⟩, ⟨line₂, col₂⟩, ⟨line₂', col₂'⟩⟩
  rw [isLE_compare_iff] at hab hba
  simp only [Location.mk.injEq, FileId.mk.injEq, Range.mk.injEq, Pos.mk.injEq]
  dsimp only at hab hba
  omega

/-- What comes one after the other is in order. -/
theorem Precedes.isLE_compare {a b : Location} (h : a.Precedes b) : (compare a b).isLE := by
  rw [isLE_compare_iff]
  rcases h with hlt | ⟨hfile, hstart, -⟩
  · exact Or.inl hlt
  · rw [Pos.lt_iff] at hstart
    rw [hfile]
    omega

/-- No two places come both ways round. -/
theorem Precedes.asymm {a b : Location} (h : a.Precedes b) : ¬b.Precedes a := by
  intro h'
  rcases h with hlt | ⟨hfile, hstart, -⟩
  · rcases h' with hlt' | ⟨hfile', -⟩
    · exact Nat.lt_asymm hlt hlt'
    · exact absurd (congrArg FileId.index hfile') (Nat.ne_of_gt hlt)
  · rcases h' with hlt' | ⟨-, hstart', -⟩
    · exact absurd (congrArg FileId.index hfile) (Nat.ne_of_gt hlt')
    · rw [Pos.lt_iff] at hstart hstart'
      omega

/-- What comes after a place also comes after those before it. -/
theorem Precedes.trans_startsBy {a b c : Location} (h : a.Precedes b) (h' : b.StartsBy c) :
    a.Precedes c := by
  rcases h with hlt | ⟨hfile, hstart, hstop⟩
  · rcases h' with hlt' | ⟨hfile', -⟩
    · exact Or.inl (Nat.lt_trans hlt hlt')
    · exact Or.inl (hfile' ▸ hlt)
  · rcases h' with hlt' | ⟨hfile', hle⟩
    · exact Or.inl (hfile ▸ hlt')
    · refine Or.inr ⟨hfile.trans hfile', ?_, ?_⟩
      · rw [Pos.lt_iff] at hstart ⊢
        rw [Pos.le_iff] at hle
        omega
      · rw [Pos.le_iff] at hstop hle ⊢
        omega

end Location

namespace Query

/-- Of two places in order that do not clash, the first stops before the second
starts. -/
theorem precedes_of_not_clashes {a b : Location} (h : a.StartsBy b)
    (hb : b.range.start ≤ b.range.stop) (hclash : clashes a b = false) : a.Precedes b := by
  rcases h with hlt | ⟨hfile, hle⟩
  · exact Or.inl hlt
  · simp only [clashes, hfile, beq_self_eq_true, Bool.true_and, Bool.or_eq_false_iff,
      Range.overlaps, Bool.and_eq_false_iff, decide_eq_false_iff_not] at hclash
    rcases hclash with ⟨hstart, hoverlap⟩
    have hne : ¬(a.range.start.line = b.range.start.line ∧
        a.range.start.col = b.range.start.col) := by
      rintro ⟨hline, hcol⟩
      have heq : a.range.start = b.range.start := by
        cases hx : a.range.start
        cases hy : b.range.start
        simp_all
      simp [heq] at hstart
    rw [Pos.le_iff] at hle hb
    rw [Pos.lt_iff, Pos.lt_iff] at hoverlap
    refine Or.inr ⟨hfile, ?_, ?_⟩
    · rw [Pos.lt_iff]
      omega
    · rw [Pos.le_iff]
      omega

section
variable {α : Type} {locate : α → Location}

/-- Collapsing brings nothing in. -/
theorem mem_of_mem_collapseFrom {kept : α} {rest : List α} {x : α}
    (h : x ∈ collapseFrom locate kept rest) : x ∈ kept :: rest := by
  induction rest generalizing kept with
  | nil => exact h
  | cons item rest ih =>
    rw [collapseFrom] at h
    split at h
    · have hx := ih h
      split at hx
      · exact List.mem_cons_of_mem _ hx
      · rcases List.mem_cons.1 hx with rfl | hmem
        · exact List.mem_cons_self ..
        · exact List.mem_cons_of_mem _ (List.mem_cons_of_mem _ hmem)
    · rcases List.mem_cons.1 h with rfl | hmem
      · exact List.mem_cons_self ..
      · exact List.mem_cons_of_mem _ (ih hmem)

/-- Collapsing leaves places that come one after the other. -/
theorem pairwise_collapseFrom {kept : α} {rest : List α}
    (hsorted : (kept :: rest).Pairwise fun a b => (locate a).StartsBy (locate b))
    (hranges : ∀ x ∈ rest, (locate x).range.start ≤ (locate x).range.stop) :
    (collapseFrom locate kept rest).Pairwise fun a b => (locate a).Precedes (locate b) := by
  induction rest generalizing kept with
  | nil => exact List.pairwise_singleton _ kept
  | cons item rest ih =>
    rcases List.pairwise_cons.1 hsorted with ⟨hkept, hrest⟩
    have hmore := fun x hx => hranges x (List.mem_cons_of_mem _ hx)
    rw [collapseFrom]
    split
    · -- one of the two goes on, and the order is that of the list
      split
      · exact ih hrest hmore
      · refine ih (List.pairwise_cons.2 ⟨?_, (List.pairwise_cons.1 hrest).2⟩) hmore
        intro x hx
        exact hkept x (List.mem_cons_of_mem _ hx)
    · next hclash =>
      rw [Bool.not_eq_true] at hclash
      have hitem : item ∈ item :: rest := List.mem_cons_self ..
      have hfirst := precedes_of_not_clashes (hkept item hitem) (hranges item hitem) hclash
      refine List.pairwise_cons.2 ⟨?_, ih hrest hmore⟩
      -- what is left of the rest starts no earlier than its first item
      intro x hx
      refine hfirst.trans_startsBy ?_
      rcases List.mem_cons.1 (mem_of_mem_collapseFrom hx) with rfl | hmem
      · exact .refl _
      · exact (List.pairwise_cons.1 hrest).1 x hmem

/-- Sorting puts items in the order of their starts. -/
theorem pairwise_startsBy_mergeSort (items : List α) :
    (items.mergeSort fun a b => (compare (locate a) (locate b)).isLE).Pairwise
      fun a b => (locate a).StartsBy (locate b) := by
  refine (List.pairwise_mergeSort ?_ ?_ items).imp Location.startsBy_of_isLE
  · intro a b c
    exact Location.isLE_compare_trans
  · intro a b
    exact Location.isLE_compare_total (locate a) (locate b)

theorem mem_of_mem_deduplicate {items : List α} {x : α} (h : x ∈ deduplicate locate items) :
    x ∈ items := by
  unfold deduplicate at h
  split at h
  · simp at h
  · next first rest hsort =>
    have hmem := mem_of_mem_collapseFrom h
    rw [← hsort, List.mem_mergeSort] at hmem
    exact hmem

theorem clashes_comm (a b : Location) : clashes a b = clashes b a := by
  simp only [clashes, Range.overlaps, Bool.and_comm, BEq.comm (a := a.file),
    BEq.comm (a := a.range.start)]

theorem not_clashes_of_precedes {a b : Location} (h : a.Precedes b) : clashes a b = false := by
  rcases h with hlt | ⟨-, hstart, hstop⟩
  · have hne : a.file ≠ b.file := by
      intro heq
      rw [heq] at hlt
      exact Nat.lt_irrefl _ hlt
    simp [clashes, hne]
  · have hne : a.range.start ≠ b.range.start := by
      intro heq
      rw [heq, Pos.lt_iff] at hstart
      omega
    have hover : ¬b.range.start < a.range.stop := by
      rw [Pos.lt_iff]
      rw [Pos.le_iff] at hstop
      omega
    simp [clashes, Range.overlaps, hne, hover]

/-- Nothing collapses where nothing clashes. -/
theorem collapseFrom_eq {kept : α} {rest : List α}
    (h : (kept :: rest).Pairwise fun a b => clashes (locate a) (locate b) = false) :
    collapseFrom locate kept rest = kept :: rest := by
  induction rest generalizing kept with
  | nil => rfl
  | cons item rest ih =>
    rcases List.pairwise_cons.1 h with ⟨hkept, hrest⟩
    have hfirst := hkept item (List.mem_cons_self ..)
    simp only [collapseFrom, hfirst, Bool.false_eq_true, if_false, ih hrest]

/-- Where no two places clash all of them are left. -/
theorem deduplicate_perm {items : List α}
    (h : items.Pairwise fun a b => clashes (locate a) (locate b) = false) :
    (deduplicate locate items).Perm items := by
  have hsort := List.mergeSort_perm items fun a b => (compare (locate a) (locate b)).isLE
  have hsorted := (hsort.pairwise_iff (fun {a b} hab => by
    rw [clashes_comm]
    exact hab)).2 h
  unfold deduplicate
  split
  · next hnil =>
    rw [hnil] at hsort
    exact hsort
  · next first rest hcons =>
    rw [hcons] at hsort hsorted
    rw [collapseFrom_eq hsorted]
    exact hsort

/-- What is left comes one after the other: any two places in a file are apart
and in order. -/
theorem pairwise_deduplicate {items : List α}
    (hranges : ∀ x ∈ items, (locate x).range.start ≤ (locate x).range.stop) :
    (deduplicate locate items).Pairwise fun a b => (locate a).Precedes (locate b) := by
  have hsorted := @pairwise_startsBy_mergeSort α locate items
  unfold deduplicate
  split
  · exact .nil
  · next first rest hsort =>
    rw [hsort] at hsorted
    refine pairwise_collapseFrom hsorted ?_
    intro x hx
    have hmem : x ∈ first :: rest := List.mem_cons_of_mem _ hx
    rw [← hsort, List.mem_mergeSort] at hmem
    exact hranges x hmem

/-! ## A normal form -/

/-- Places that come one after the other stay as they are. -/
theorem deduplicate_of_precedes {items : List α}
    (h : items.Pairwise fun a b => (locate a).Precedes (locate b)) :
    deduplicate locate items = items := by
  have hsorted : items.mergeSort (fun a b => (compare (locate a) (locate b)).isLE) = items :=
    List.mergeSort_of_pairwise (h.imp fun hab => hab.isLE_compare)
  unfold deduplicate
  rw [hsorted]
  cases items with
  | nil => rfl
  | cons first rest => exact collapseFrom_eq (h.imp not_clashes_of_precedes)

/-- Only the places decide which items collapse. -/
theorem map_collapseFrom (kept : α) (rest : List α) :
    (collapseFrom locate kept rest).map locate =
      collapseFrom id (locate kept) (rest.map locate) := by
  induction rest generalizing kept with
  | nil => rfl
  | cons item rest ih =>
    simp only [List.map_cons, collapseFrom, id_eq]
    split
    · rw [ih, apply_ite locate]
    · rw [List.map_cons, ih]

/-- The places of what is left are what is left of the places. -/
theorem map_deduplicate (items : List α) :
    (deduplicate locate items).map locate = deduplicate id (items.map locate) := by
  have hsort : (items.mergeSort fun a b => (compare (locate a) (locate b)).isLE).map locate =
      (items.map locate).mergeSort fun a b => (compare (id a) (id b)).isLE :=
    List.map_mergeSort fun _ _ _ _ => rfl
  unfold deduplicate
  rw [← hsort]
  cases items.mergeSort fun a b => (compare (locate a) (locate b)).isLE with
  | nil => rfl
  | cons first rest => exact map_collapseFrom first rest

/-- Places in another order leave the same. -/
theorem deduplicate_eq_of_perm {places places' : List Location} (h : places.Perm places') :
    deduplicate id places = deduplicate id places' := by
  have hsort := @Order.mergeSort_eq_of_perm Location (fun a b => (compare (id a) (id b)).isLE)
    places places' (fun _ _ _ => Location.isLE_compare_trans) Location.isLE_compare_total
    (fun _ _ _ _ => Location.eq_of_isLE_compare) h
  unfold deduplicate
  rw [hsort]

end

/-- In one file, the two places start at different positions and do not
overlap. -/
def Apart (a b : Location) : Prop :=
  a.file = b.file → a.range.start ≠ b.range.start ∧ a.range.overlaps b.range = false

theorem clashes_eq_false_iff (a b : Location) : clashes a b = false ↔ Apart a b := by
  simp only [clashes, Apart, Bool.and_eq_false_iff, beq_eq_false_iff_ne, Bool.or_eq_false_iff]
  exact imp_iff_not_or.symm

/-- What is left of items with places is a normal form: strictly in the order of
file and start, apart, and made of what came in. Deduplicating it again changes
nothing, items in another order leave the same places, and items that are apart
are all left. -/
theorem deduplicate_normalForm {α : Type} (locate : α → Location) {items : List α}
    (hranges : ∀ x ∈ items, (locate x).range.start ≤ (locate x).range.stop) :
    ((deduplicate locate items).Pairwise fun a b =>
        (locate a).file.index < (locate b).file.index ∨
          (locate a).file = (locate b).file ∧
            (locate a).range.start < (locate b).range.start) ∧
      ((deduplicate locate items).Pairwise fun a b => Apart (locate a) (locate b)) ∧
      (∀ x ∈ deduplicate locate items, x ∈ items) ∧
      deduplicate locate (deduplicate locate items) = deduplicate locate items ∧
      (∀ items', items.Perm items' →
        (deduplicate locate items').map locate = (deduplicate locate items).map locate) ∧
      ((items.Pairwise fun a b => Apart (locate a) (locate b)) →
        (deduplicate locate items).Perm items) := by
  have hprecedes := pairwise_deduplicate hranges
  refine ⟨?_, ?_, ?_, ?_, ?_, ?_⟩
  · apply hprecedes.imp
    intro a b hab
    exact hab.imp id fun hsame => ⟨hsame.1, hsame.2.1⟩
  · apply hprecedes.imp
    intro a b hab
    exact (clashes_eq_false_iff _ _).1 (not_clashes_of_precedes hab)
  · intro x
    exact mem_of_mem_deduplicate
  · exact deduplicate_of_precedes hprecedes
  · intro items' hperm
    rw [map_deduplicate, map_deduplicate]
    exact deduplicate_eq_of_perm (hperm.symm.map locate)
  · intro hapart
    exact deduplicate_perm (hapart.imp fun hab => (clashes_eq_false_iff _ _).2 hab)

/-! Places in two files, out of order, some of them empty and one over several
lines. -/

def scatteredPlaces : List Location :=
  [⟨⟨1⟩, .onLine 0 5 5⟩, ⟨⟨0⟩, .onLine 3 0 9⟩, ⟨⟨0⟩, ⟨⟨2, 0⟩, ⟨4, 1⟩⟩⟩, ⟨⟨0⟩, .onLine 2 0 0⟩,
    ⟨⟨0⟩, .onLine 1 2 9⟩, ⟨⟨0⟩, .onLine 1 0 4⟩, ⟨⟨0⟩, .onLine 1 9 9⟩]

def placesInOrder : List Location :=
  [⟨⟨0⟩, .onLine 1 0 4⟩, ⟨⟨0⟩, .onLine 1 2 9⟩, ⟨⟨0⟩, .onLine 1 9 9⟩, ⟨⟨0⟩, .onLine 2 0 0⟩,
    ⟨⟨0⟩, ⟨⟨2, 0⟩, ⟨4, 1⟩⟩⟩, ⟨⟨0⟩, .onLine 3 0 9⟩, ⟨⟨1⟩, .onLine 0 5 5⟩]

def placesLeft : List Location :=
  [⟨⟨0⟩, .onLine 1 2 9⟩, ⟨⟨0⟩, .onLine 1 9 9⟩, ⟨⟨0⟩, ⟨⟨2, 0⟩, ⟨4, 1⟩⟩⟩, ⟨⟨1⟩, .onLine 0 5 5⟩]

/-- Longer places take over from those kept before, and what only touches them
is left. -/
theorem deduplicate_normalForm_scattered :
    (∀ x ∈ scatteredPlaces, (id x).range.start ≤ (id x).range.stop) ∧
      deduplicate id scatteredPlaces = placesLeft ∧ deduplicate id placesLeft = placesLeft := by
  have hranges : ∀ x ∈ scatteredPlaces, (id x).range.start ≤ (id x).range.stop := by decide
  obtain ⟨-, -, -, hagain, horder, -⟩ := deduplicate_normalForm id hranges
  have hinOrder : deduplicate id placesInOrder = placesLeft := by
    rw [deduplicate, List.mergeSort_of_pairwise (by decide)]
    decide
  have hleft := horder placesInOrder (by decide)
  rw [List.map_id, List.map_id, hinOrder] at hleft
  rw [← hleft] at hagain
  exact ⟨hranges, hleft.symm, hagain⟩

end Query

end RakuAtlas
