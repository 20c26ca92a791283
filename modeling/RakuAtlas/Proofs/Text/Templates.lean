import Mathlib.Data.List.Basic
import RakuAtlas.Proofs.Text.Lines

/-!
# RakuAtlas.Proofs.Text.Templates — texts with slots

A template is a text with slots in it, and `fill` puts the same name into all of
them. Two texts that differ only in a name are one template filled twice.

* `exists_of_fill_eq_append`: where a place of the filled text is in the template.
* `exists_of_fill_eq_name`: what in the template became a given name.
* `eq_of_fill_eq`: what is filled in tells the fronts of a template apart.
* `SlotEnds`: the offsets at which slots end.
-/

namespace RakuAtlas.Text

/-- A text with slots in it. -/
abbrev Template := List (Option Char)

namespace Template

/-! ## Filling slots -/

/-- The text with a name in every slot. -/
def fill (name : List Char) (t : Template) : List Char :=
  t.flatMap fun
    | some c => [c]
    | none => name

section
variable (name : List Char)

@[simp] theorem fill_nil : fill name [] = [] := rfl

@[simp] theorem fill_some (c : Char) (t : Template) : fill name (some c :: t) = c :: fill name t :=
  rfl

@[simp] theorem fill_none (t : Template) : fill name (none :: t) = name ++ fill name t := rfl

@[simp] theorem fill_append (s t : Template) : fill name (s ++ t) = fill name s ++ fill name t :=
  List.flatMap_append

/-- Without slots nothing is filled in. -/
@[simp] theorem fill_map_some (cs : List Char) : fill name (cs.map some) = cs := by
  induction cs with
  | nil => rfl
  | cons c cs ih => rw [List.map_cons, fill_some, ih]

theorem fill_reverse (t : Template) : (fill name t).reverse = fill name.reverse t.reverse := by
  induction t with
  | nil => rfl
  | cons slot t ih => cases slot <;> simp [ih]

end

/-- A place of a filled text is between two parts of the template, or inside a
slot. -/
theorem exists_of_fill_eq_append {name front back : List Char} {t : Template}
    (h : fill name t = front ++ back) :
    (∃ s r, t = s ++ r ∧ front = fill name s ∧ back = fill name r) ∨
      ∃ s r inner outer, t = s ++ none :: r ∧ name = inner ++ outer ∧ inner ≠ [] ∧
        front = fill name s ++ inner := by
  induction t generalizing front with
  | nil =>
    rcases List.append_eq_nil_iff.1 h.symm with ⟨rfl, rfl⟩
    exact Or.inl ⟨[], [], rfl, rfl, rfl⟩
  | cons slot t ih =>
    rcases front with _ | ⟨c, front⟩
    · exact Or.inl ⟨[], slot :: t, rfl, rfl, h.symm⟩
    cases slot with
    | some d =>
      rcases List.cons.inj h with ⟨rfl, hrest⟩
      rcases ih hrest with ⟨s, r, rfl, rfl, rfl⟩ | ⟨s, r, inner, outer, rfl, hname, hne, rfl⟩
      · exact Or.inl ⟨some d :: s, r, rfl, rfl, rfl⟩
      · exact Or.inr ⟨some d :: s, r, inner, outer, rfl, hname, hne, rfl⟩
    | none =>
      rcases List.append_eq_append_iff.1 h with ⟨more, hfront, hrest⟩ | ⟨more, hname, -⟩
      · -- behind the slot
        rw [hfront]
        rcases ih hrest with ⟨s, r, rfl, rfl, rfl⟩ | ⟨s, r, inner, outer, rfl, hname, hne, rfl⟩
        · exact Or.inl ⟨none :: s, r, rfl, rfl, rfl⟩
        · exact Or.inr ⟨none :: s, r, inner, outer, rfl, hname, hne, by simp⟩
      · exact Or.inr ⟨[], t, c :: front, more, rfl, hname, List.cons_ne_nil c front, rfl⟩

/-- Where a filled text begins with some characters, the template has them, or a
slot comes before they end. -/
theorem exists_of_fill_eq_name {name cs back : List Char} {t : Template}
    (h : fill name t = cs ++ back) :
    (∃ r, t = cs.map some ++ r ∧ back = fill name r) ∨
      ∃ inner outer r, cs = inner ++ outer ∧ outer ≠ [] ∧ t = inner.map some ++ none :: r := by
  induction cs generalizing t with
  | nil => exact Or.inl ⟨t, rfl, h.symm⟩
  | cons c cs ih =>
    rcases t with _ | ⟨slot, t⟩
    · cases h
    cases slot with
    | none => exact Or.inr ⟨[], c :: cs, t, rfl, List.cons_ne_nil c cs, rfl⟩
    | some d =>
      rcases List.cons.inj h with ⟨rfl, hrest⟩
      rcases ih hrest with ⟨r, rfl, rfl⟩ | ⟨inner, outer, r, rfl, hne, rfl⟩
      · exact Or.inl ⟨r, rfl, rfl⟩
      · exact Or.inr ⟨d :: inner, outer, r, rfl, hne, rfl⟩

/-- Only of nothing is nothing left. -/
theorem eq_nil_of_fill {name : List Char} (hname : name ≠ []) {t : Template}
    (h : fill name t = []) : t = [] := by
  rcases t with _ | ⟨slot, t⟩
  · rfl
  cases slot with
  | none => exact absurd (List.append_eq_nil_iff.1 h).1 hname
  | some c => cases h

/-- Two fronts of a template are the same if they are filled the same. -/
theorem eq_of_fill_eq {name : List Char} (hname : name ≠ []) {s s' r r' : Template}
    (happend : s ++ r = s' ++ r') (hfill : fill name s = fill name s') : s = s' ∧ r = r' := by
  rcases List.append_eq_append_iff.1 happend with ⟨more, rfl, rfl⟩ | ⟨more, rfl, rfl⟩
  · rw [fill_append, List.self_eq_append_right] at hfill
    simp [eq_nil_of_fill hname hfill]
  · rw [fill_append, List.append_right_eq_self] at hfill
    simp [eq_nil_of_fill hname hfill]

/-! ## Where slots end -/

/-- A slot that is filled with the name ends at the offset. -/
def SlotEnds (name : List Char) (t : Template) (offset : Nat) : Prop :=
  ∃ s r, t = s ++ none :: r ∧ offset = byteLen (fill name s ++ name)

theorem not_slotEnds_map_some {name cs : List Char} {offset : Nat} :
    ¬SlotEnds name (cs.map some) offset := by
  rintro ⟨s, r, hsplit, -⟩
  have hmem : none ∈ cs.map some := by simp [hsplit]
  simp at hmem

/-- The first slot, and then the others behind it. -/
theorem slotEnds_cons_iff {name cs : List Char} {t : Template} {offset : Nat} :
    SlotEnds name (cs.map some ++ none :: t) offset ↔
      offset = byteLen (cs ++ name) ∨
        ∃ later, SlotEnds name t later ∧ offset = byteLen (cs ++ name) + later := by
  constructor
  · rintro ⟨s, r, hsplit, rfl⟩
    rcases List.append_eq_append_iff.1 hsplit with ⟨more, rfl, hmore⟩ | ⟨more, hmap, hmore⟩
    · rcases more with _ | ⟨slot, more⟩
      · exact Or.inl (by simp)
      · rcases List.cons.inj hmore with ⟨rfl, rfl⟩
        exact Or.inr ⟨_, ⟨more, r, rfl, rfl⟩, by simp [Nat.add_assoc]⟩
    · rcases more with _ | ⟨slot, more⟩
      · rw [List.append_nil] at hmap
        exact Or.inl (by simp [← hmap])
      · -- a slot among characters
        rcases List.cons.inj hmore with ⟨rfl, -⟩
        have hmem : none ∈ cs.map some := by simp [hmap]
        simp at hmem
  · rintro (rfl | ⟨later, ⟨s, r, rfl, rfl⟩, rfl⟩)
    · exact ⟨cs.map some, t, rfl, by simp⟩
    · exact ⟨cs.map some ++ none :: s, r, by simp, by simp [Nat.add_assoc]⟩

end Template

end RakuAtlas.Text
