import RakuAtlas.Proofs.Text.Joined

/-!
# RakuAtlas.Proofs.Text.Grammar — the grammar of qualified names

A qualified name is made in three layers, each out of the one before: parts of
word characters, segments of parts with a joint between each two, and segments
with `::` between each two. Which characters start a part, go on with it and join
parts is left open (`NameClasses`), since the symbols of a text and the new names
of a rename differ in just that.

* `IsQualified` is the grammar;
* `isQualified_iff`: it can be read from left to right, one character at a time,
  looking one character ahead (`GoesOn`);
* `isName_iff`: the names that symbols have are those of the grammar for
  `NameClasses.symbols`.
-/

namespace RakuAtlas.Text

open Unicode (isWord)

/-! ## The grammar -/

/-- The characters that names are made of. A name can be cut in one way only: what
starts a part may also go on with it, but nothing that goes on with a part joins
two of them, and a colon does neither. -/
structure NameClasses where
  /-- What a part starts with. -/
  start : Char → Bool
  /-- What goes on with a part. -/
  part : Char → Bool
  /-- What joins two parts. -/
  joint : Char → Bool
  part_of_start : ∀ c, start c → part c
  not_part_of_joint : ∀ c, joint c → ¬part c
  not_part_colon : ¬part ':'
  not_joint_colon : ¬joint ':'

/-- One or more pieces, with a joint between each two. -/
inductive JoinedBy (joint piece : Line → Prop) : Line → Prop where
  | one {w : Line} (hw : piece w) : JoinedBy joint piece w
  | cons {w j rest : Line} (hw : piece w) (hj : joint j) (hrest : JoinedBy joint piece rest) :
      JoinedBy joint piece (w ++ (j ++ rest))

/-- A part: a character that starts one, and any number that go on with it. -/
def IsPart (k : NameClasses) (w : Line) : Prop :=
  ∃ c cs, w = c :: cs ∧ k.start c ∧ ∀ d ∈ cs, k.part d

/-- A segment: parts with single joining characters between them. -/
def IsSegment (k : NameClasses) : Line → Prop :=
  JoinedBy (fun j => ∃ c, k.joint c ∧ j = [c]) (IsPart k)

/-- A qualified name: segments with `::` between them. -/
def IsQualified (k : NameClasses) : Line → Prop := JoinedBy (· = [':', ':']) (IsSegment k)

/-! ## Reading it from left to right -/

/-- A qualified name goes on with these characters to its end. -/
inductive GoesOn (k : NameClasses) : Line → Prop where
  | nil : GoesOn k []
  | part {c : Char} {cs : Line} (hc : k.part c) (hcs : GoesOn k cs) : GoesOn k (c :: cs)
  | joint {c : Char} {cs : Line} (hc : k.joint c) (hhead : headIs k.start cs)
      (hcs : GoesOn k cs) : GoesOn k (c :: cs)
  | colons {cs : Line} (hhead : headIs k.start cs) (hcs : GoesOn k cs) :
      GoesOn k (':' :: ':' :: cs)

section
variable {k : NameClasses}

theorem GoesOn.append {w rest : Line} (hw : GoesOn k w) (hrest : GoesOn k rest) :
    GoesOn k (w ++ rest) := by
  induction hw with
  | nil => exact hrest
  | part hc _ ih => exact .part hc ih
  | joint hc hhead _ ih => exact .joint hc (headIs_append hhead rest) ih
  | colons hhead _ ih => exact .colons (headIs_append hhead rest) ih

/-- Nothing but the characters of the classes and colons is in a name. -/
theorem GoesOn.class_of_mem {w : Line} (h : GoesOn k w) {c : Char} (hc : c ∈ w) :
    k.part c ∨ k.joint c ∨ c = ':' := by
  induction h with
  | nil => cases hc
  | part hpart _ ih =>
    rcases List.mem_cons.1 hc with rfl | hmore
    · exact Or.inl hpart
    · exact ih hmore
  | joint hjoint _ _ ih =>
    rcases List.mem_cons.1 hc with rfl | hmore
    · exact Or.inr (Or.inl hjoint)
    · exact ih hmore
  | colons _ _ ih =>
    rcases List.mem_cons.1 hc with rfl | hmore
    · exact Or.inr (Or.inr rfl)
    · rcases List.mem_cons.1 hmore with rfl | hmore
      · exact Or.inr (Or.inr rfl)
      · exact ih hmore

/-- Pieces that are joined start as the first of them does. -/
theorem JoinedBy.headIs {joint piece : Line → Prop} {p : Char → Bool} {w : Line}
    (hpiece : ∀ w, piece w → Text.headIs p w) (h : JoinedBy joint piece w) : Text.headIs p w := by
  cases h with
  | one hw => exact hpiece _ hw
  | cons hw => exact headIs_append (hpiece _ hw) _

theorem IsPart.headIs {w : Line} (h : IsPart k w) : Text.headIs k.start w := by
  rcases h with ⟨c, cs, rfl, hc, -⟩
  exact hc

theorem IsSegment.headIs {w : Line} (h : IsSegment k w) : Text.headIs k.start w :=
  JoinedBy.headIs (fun _ => IsPart.headIs) h

theorem IsQualified.headIs {w : Line} (h : IsQualified k w) : Text.headIs k.start w :=
  JoinedBy.headIs (fun _ => IsSegment.headIs) h

theorem IsPart.goesOn {w : Line} (h : IsPart k w) : GoesOn k w := by
  rcases h with ⟨c, cs, rfl, hc, hcs⟩
  refine .part (k.part_of_start c hc) ?_
  induction cs with
  | nil => exact .nil
  | cons d ds ih =>
    rw [List.forall_mem_cons] at hcs
    exact .part hcs.1 (ih hcs.2)

theorem IsSegment.goesOn {w : Line} (h : IsSegment k w) : GoesOn k w := by
  induction h with
  | one hw => exact hw.goesOn
  | cons hw hj hrest ih =>
    rcases hj with ⟨c, hc, rfl⟩
    exact hw.goesOn.append (.joint hc (IsSegment.headIs hrest) ih)

theorem IsQualified.goesOn {w : Line} (h : IsQualified k w) : GoesOn k w := by
  induction h with
  | one hw => exact IsSegment.goesOn hw
  | cons hw hj hrest ih =>
    rw [hj]
    exact (IsSegment.goesOn hw).append (.colons (IsQualified.headIs hrest) ih)

/-- A part and a joint in front of a qualified name make its first segment
longer. -/
theorem IsQualified.prepend {w rest : Line} {c : Char} (hrest : IsQualified k rest)
    (hw : IsPart k w) (hc : k.joint c) : IsQualified k (w ++ ([c] ++ rest)) := by
  cases hrest with
  | one hsegment => exact .one (.cons hw ⟨c, hc, rfl⟩ hsegment)
  | @cons segment j more hsegment hj hmore =>
    have hfirst : IsSegment k (w ++ ([c] ++ segment)) := .cons hw ⟨c, hc, rfl⟩ hsegment
    have hcut : w ++ ([c] ++ (segment ++ (j ++ more))) = (w ++ ([c] ++ segment)) ++ (j ++ more) := by
      simp
    rw [hcut]
    exact .cons hfirst hj hmore

/-- What goes on with a name is, behind a part, a qualified name; and by itself
it is one if it starts as a part does. The part is what was read of the last
one. -/
theorem GoesOn.isQualified {cs : Line} (h : GoesOn k cs) :
    (∀ w, IsPart k w → IsQualified k (w ++ cs)) ∧
      (Text.headIs k.start cs → IsQualified k cs) := by
  induction h with
  | nil =>
    refine ⟨?_, fun hhead => by cases hhead⟩
    intro w hw
    rw [List.append_nil]
    exact .one (.one hw)
  | @part c cs hc _ ih =>
    constructor
    · intro w hw
      rcases hw with ⟨first, more, rfl, hfirst, hmore⟩
      have hlonger : IsPart k (first :: (more ++ [c])) := by
        refine ⟨first, more ++ [c], rfl, hfirst, ?_⟩
        intro d hd
        rcases List.mem_append.1 hd with hin | hlast
        · exact hmore d hin
        · rw [List.mem_singleton.1 hlast]
          exact hc
      have hqualified := ih.1 _ hlonger
      rw [List.cons_append, List.append_assoc] at hqualified
      exact hqualified
    · intro hhead
      exact ih.1 [c] ⟨c, [], rfl, hhead, by simp⟩
  | @joint c cs hc hhead _ ih =>
    constructor
    · intro w hw
      exact (ih.2 hhead).prepend hw hc
    · intro hstart
      exact absurd (k.part_of_start c hstart) (k.not_part_of_joint c hc)
  | @colons cs hhead _ ih =>
    constructor
    · intro w hw
      have hsegment : IsSegment k w := .one hw
      exact @JoinedBy.cons _ _ w [':', ':'] cs hsegment rfl (ih.2 hhead)
    · intro hstart
      exact absurd (k.part_of_start ':' hstart) k.not_part_colon

/-- A qualified name starts as a part does and goes on to its end. -/
theorem isQualified_iff {w : Line} : IsQualified k w ↔ Text.headIs k.start w ∧ GoesOn k w := by
  constructor
  · intro h
    exact ⟨h.headIs, h.goesOn⟩
  · rintro ⟨hhead, hgoes⟩
    exact hgoes.isQualified.2 hhead

/-- All is taken of what goes on with a name, if hyphens alone join parts. -/
theorem joinedTail_eq_length_iff (hjoint : ∀ c, k.joint c ↔ c = '-') {w : Line} :
    joinedTail k.part k.start k.start w = w.length ↔ GoesOn k w := by
  have hhyphen : ¬k.part '-' := k.not_part_of_joint _ ((hjoint _).2 rfl)
  constructor
  · intro h
    fun_induction joinedTail k.part k.start k.start w with
    | case1 => exact .nil
    | case2 c cs hpart ih =>
      rw [List.length_cons] at h
      exact .part hpart (ih (by omega))
    | case3 c cs hpart hjoined ih =>
      rw [Bool.and_eq_true, decide_eq_true_eq] at hjoined
      rw [List.length_cons] at h
      exact .joint ((hjoint c).2 hjoined.1) hjoined.2 (ih (by omega))
    | case4 c hpart d more hcolons _ ih =>
      simp only [Bool.and_eq_true, decide_eq_true_eq] at hcolons
      rcases hcolons with ⟨⟨rfl, rfl⟩, hhead⟩
      rw [List.length_cons, List.length_cons] at h
      exact .colons hhead (ih (by omega))
    | case5 => simp at h
    | case6 => simp at h
  · intro h
    induction h with
    | nil => rfl
    | part hc _ ih => rw [joinedTail_part hc, ih, List.length_cons, Nat.add_comm]
    | @joint c cs hc hhead _ ih =>
      rw [(hjoint c).1 hc, joinedTail_hyphen hhyphen hhead, ih, List.length_cons, Nat.add_comm]
    | colons hhead _ ih =>
      rw [joinedTail_colons k.not_part_colon hhead, ih, List.length_cons, List.length_cons,
        Nat.add_comm]

end

/-! ## The names of symbols -/

/-- Symbols are made of letters and word characters, and joined by hyphens. -/
def NameClasses.symbols : NameClasses where
  start := isNameStart
  part := isWord
  joint c := c == '-'
  part_of_start := isWord_of_isNameStart
  not_part_of_joint := by
    intro c hc
    rw [eq_of_beq hc]
    decide
  not_part_colon := by decide
  not_joint_colon := by decide

/-- Names are the qualified names of symbols. -/
theorem isName_iff {w : Line} : IsName w ↔ IsQualified .symbols w := by
  rw [isQualified_iff, ← joinedTail_eq_length_iff fun c => beq_iff_eq]
  rfl

end RakuAtlas.Text
