import Mathlib.Data.List.Chain
import Mathlib.Data.List.Infix
import Mathlib.Data.List.Nodup
import RakuAtlas.Proofs.Order
import RakuAtlas.Proofs.Query.Edits

/-!
# RakuAtlas.Proofs.Query.OneByOne — several edits are one edit after the other

Edits are applied all at once: their positions are turned into offsets of the text
as it was. That comes to the same as applying them one by one, each to what the one
before it left, if the last in the text comes first (`applyEdits_oneByOne`). For an
edit leaves all before it as it was, and with that the offset of every position
there (`Stands.of_front`), even of one behind the end of its line.

The order in which the edits are listed does not matter as long as no two of them
have the same offsets, and the text grows and shrinks by what they bring in and
take out.

All this is so in every build too, although offsets have 32 bits there, as long as the
texts on the way are not too long (`applyEditsIn?_oneByOne`). But the offset of an edit
must be in the text as a sum, and not only its low bits (`applyEditsIn?_wrapped`).
-/

namespace RakuAtlas.Query

open Text

/-! ## Edits at offsets -/

/-- The edits replace what the text has between these offsets, which are inside the
text and cut no character. -/
def StandAt (text : String) (start stop : TextEdit → Nat) (edits : List TextEdit) : Prop :=
  ∀ e ∈ edits, (LineIndex.ofText text).offset? e.range.start = some (start e) ∧
    (LineIndex.ofText text).offset? e.range.stop = some (stop e) ∧
    (slice? (start e) (stop e) text.toList).isSome

/-- Edits in the order of the offsets at which they start, and then of those at
which they stop. -/
def byOffset (start stop : TextEdit → Nat) (edits : List TextEdit) : List TextEdit :=
  edits.mergeSort fun a b => start a < start b || (start a == start b && stop a ≤ stop b)

/-- The splice that an edit is at these offsets. -/
def spliceAt (start stop : TextEdit → Nat) (e : TextEdit) : Splice :=
  ⟨start e, stop e, e.newText.toList⟩

section
variable {text : String} {start stop : TextEdit → Nat} {edits : List TextEdit}

/-- An edit at offsets stands in the text, and is as long as they say. -/
theorem StandAt.exists_stands (h : StandAt text start stop edits) {e : TextEdit} (he : e ∈ edits) :
    ∃ front old back, Stands text e front old back ∧ byteLen front = start e ∧
      byteLen front + byteLen old = stop e := by
  obtain ⟨hstart, hstop, hslice⟩ := h e he
  obtain ⟨old, hold⟩ := Option.isSome_iff_exists.1 hslice
  obtain ⟨front, back, hsplit, hfront, hlength⟩ := exists_append_of_slice? hold
  refine ⟨front, old, back, ⟨hsplit, ?_, ?_⟩, hfront, hlength⟩
  · rw [hstart, hfront]
  · rw [hstop, hlength]

theorem StandAt.start_le_stop (h : StandAt text start stop edits) {e : TextEdit} (he : e ∈ edits) :
    start e ≤ stop e := by
  obtain ⟨front, old, back, -, hfront, hlength⟩ := h.exists_stands he
  omega

theorem StandAt.perm {edits' : List TextEdit} (h : StandAt text start stop edits)
    (hperm : edits.Perm edits') : StandAt text start stop edits' := by
  intro e he
  exact h e (hperm.mem_iff.2 he)

/-- The splices of edits at offsets. -/
theorem StandAt.splices_eq (h : StandAt text start stop edits) :
    edits.filterMap (Splice.ofEdit? (.ofText text)) = edits.map (spliceAt start stop) := by
  rw [← List.filterMap_eq_map]
  apply List.filterMap_congr
  intro e he
  obtain ⟨front, old, back, hstands, hfront, hlength⟩ := h.exists_stands he
  rw [hstands.ofEdit?_eq, hlength, hfront]
  rfl

theorem byOffset_perm (start stop : TextEdit → Nat) (edits : List TextEdit) :
    (byOffset start stop edits).Perm edits := List.mergeSort_perm ..

theorem Splice.atOrBefore_trans {a b c : Splice} (hab : a.atOrBefore b) (hbc : b.atOrBefore c) :
    a.atOrBefore c := by
  rw [atOrBefore_iff] at *
  omega

theorem Splice.atOrBefore_total (a b : Splice) : a.atOrBefore b || b.atOrBefore a := by
  rw [Bool.or_eq_true, atOrBefore_iff, atOrBefore_iff]
  omega

/-- Edits in the order of their offsets are applied as in any other, if those at
the same offsets keep their order. -/
theorem StandAt.applyEdits_byOffset (h : StandAt text start stop edits) :
    applyEdits text (byOffset start stop edits) = applyEdits text edits := by
  have hordered := (h.perm (byOffset_perm start stop edits).symm).splices_eq
  have hsort : (byOffset start stop edits).map (spliceAt start stop) =
      (edits.map (spliceAt start stop)).mergeSort Splice.atOrBefore :=
    List.map_mergeSort fun _ _ _ _ => rfl
  have hsorted := @List.pairwise_mergeSort Splice Splice.atOrBefore
    (fun _ _ _ => Splice.atOrBefore_trans) Splice.atOrBefore_total
    (edits.map (spliceAt start stop))
  rw [applyEdits, applyEdits, applySplices, applySplices, hordered, h.splices_eq, hsort,
    List.mergeSort_of_pairwise hsorted]

/-- Edits in another order are applied alike, if no two of them have the same
offsets. -/
theorem StandAt.applyEdits_perm (h : StandAt text start stop edits)
    (hdistinct : (edits.map fun e => (start e, stop e)).Nodup) {edits' : List TextEdit}
    (hperm : edits.Perm edits') : applyEdits text edits' = applyEdits text edits := by
  have hsort : (edits'.map (spliceAt start stop)).mergeSort Splice.atOrBefore =
      (edits.map (spliceAt start stop)).mergeSort Splice.atOrBefore := by
    refine (@Order.mergeSort_eq_of_perm Splice Splice.atOrBefore _ _
      (fun _ _ _ => Splice.atOrBefore_trans) Splice.atOrBefore_total ?_ (hperm.map _)).symm
    -- splices that come both ways round have the same offsets
    intro s s' hs hs' hle hge
    obtain ⟨e, he, rfl⟩ := List.mem_map.1 hs
    obtain ⟨e', he', rfl⟩ := List.mem_map.1 hs'
    rw [Splice.atOrBefore_iff] at hle hge
    have hsame : (start e, stop e) = (start e', stop e') := by
      dsimp only [spliceAt] at hle hge
      rw [Prod.mk.injEq]
      omega
    rw [List.inj_on_of_nodup_map hdistinct he he' hsame]
  rw [applyEdits, applyEdits, applySplices, applySplices, (h.perm hperm).splices_eq, h.splices_eq,
    hsort]

/-- Edits of which each stops at or before the start of the next come one after
the other, since none stops before it starts. -/
theorem StandAt.pairwise_of_isChain (h : StandAt text start stop edits)
    (hapart : edits.IsChain fun a b => stop a ≤ start b) :
    edits.Pairwise fun a b => stop a ≤ start b := by
  induction edits with
  | nil => exact .nil
  | cons a more ih =>
    cases more with
    | nil => exact List.pairwise_singleton _ a
    | cons b more =>
      obtain ⟨hab, hrest⟩ := List.isChain_cons_cons.1 hapart
      have hlater : StandAt text start stop (b :: more) :=
        fun e he => h e (List.mem_cons_of_mem _ he)
      have hmore := ih hlater hrest
      refine List.pairwise_cons.2 ⟨?_, hmore⟩
      intro c hc
      rcases List.mem_cons.1 hc with rfl | hc
      · exact hab
      · have hb := hlater.start_le_stop (List.mem_cons_self ..)
        have hbc := (List.pairwise_cons.1 hmore).1 c hc
        omega

/-- They are all applied. -/
theorem StandAt.rewrites (h : StandAt text start stop edits)
    (hapart : edits.IsChain fun a b => stop a ≤ start b) :
    Rewrites (.ofText text) (fun e old => byteLen old = stop e - start e) 0 text.toList edits
      (applyEdits text edits).toList := by
  apply rewrites_applyEdits
  · intro e he
    obtain ⟨front, old, back, hstands, hfront, hlength⟩ := h.exists_stands he
    exact ⟨front, old, back, by omega, hstands⟩
  · refine (h.pairwise_of_isChain hapart).imp_of_mem ?_
    intro a b ha hb hab i j hi hj
    rw [(h a ha).2.1, Option.some.injEq] at hi
    rw [(h b hb).1, Option.some.injEq] at hj
    omega

end

/-! ## Edits one after the other -/

/-- An edit still stands in a text that goes on in another way behind it. -/
theorem Stands.of_front {text text' : String} {e : TextEdit} {front old back back' : List Char}
    (h : Stands text e front old back) (h' : text'.toList = front ++ (old ++ back')) :
    Stands text' e front old back' := by
  have hsplit := h.split
  rw [← List.append_assoc] at hsplit h'
  refine ⟨by rw [h', List.append_assoc], ?_, ?_⟩
  · exact offset?_of_front hsplit h' h.start (by rw [byteLen_append]; omega)
  · exact offset?_of_front hsplit h' h.stop (by rw [byteLen_append])

/-- One edit replaces its piece. -/
theorem Stands.applyEdits_singleton {text : String} {e : TextEdit} {front old back : List Char}
    (h : Stands text e front old back) :
    (applyEdits text [e]).toList = front ++ (e.newText.toList ++ back) := by
  have hcut := cut?_eq 0 front old back e.newText.toList
  rw [Nat.zero_add] at hcut
  rw [applyEdits, applySplices, String.toList_ofList, List.filterMap_cons_some h.ofEdit?_eq,
    List.filterMap_nil, List.mergeSort_singleton, h.split]
  simp only [Splice.applyFrom, hcut, List.append_assoc]

/-- The first edit stands in a text in which what is behind it has changed. -/
theorem stands_of_behind {text text' : String} {e : TextEdit} {cursor : Nat}
    {passed kept old rest result : List Char} (hpassed : byteLen passed = cursor)
    (htext : text.toList = passed ++ (kept ++ (old ++ rest)))
    (hstart : (LineIndex.ofText text).offset? e.range.start = some (cursor + byteLen kept))
    (hstop : (LineIndex.ofText text).offset? e.range.stop =
      some (cursor + byteLen kept + byteLen old))
    (htext' : text'.toList = passed ++ (kept ++ old) ++ result) :
    Stands text' e (passed ++ kept) old result := by
  subst hpassed
  have hstands : Stands text e (passed ++ kept) old rest := by
    refine ⟨by rw [htext]; simp only [List.append_assoc], ?_, ?_⟩
    · rw [hstart, byteLen_append]
    · rw [hstop, byteLen_append]
  exact hstands.of_front (htext'.trans (by simp only [List.append_assoc]))

section
variable {text : String} {Old : TextEdit → List Char → Prop} {cursor : Nat}
  {rest result passed : List Char} {edits : List TextEdit}

/-- Edits that are applied one by one, the last in the text first, leave what they
leave when applied at once. -/
theorem Rewrites.foldr_applyEdits (h : Rewrites (.ofText text) Old cursor rest edits result)
    (hpassed : byteLen passed = cursor) (htext : text.toList = passed ++ rest) :
    (edits.foldr (fun e text => applyEdits text [e]) text).toList = passed ++ result := by
  induction h generalizing passed with
  | done => exact htext
  | @edit cursor kept old rest result e more hstart hstop hold hmore ih =>
    have hlater := @ih (passed ++ (kept ++ old)) (by simp only [byteLen_append]; omega)
      (by rw [htext]; simp only [List.append_assoc])
    have hstill := stands_of_behind hpassed htext hstart hstop hlater
    rw [List.foldr_cons, hstill.applyEdits_singleton, List.append_assoc]

/-- Each of them stands in the text that those before it have left. -/
theorem Rewrites.exists_stands_foldr (h : Rewrites (.ofText text) Old cursor rest edits result)
    (hpassed : byteLen passed = cursor) (htext : text.toList = passed ++ rest) {e : TextEdit}
    {later : List TextEdit} (he : e :: later <:+ edits) : ∃ front old back,
      Stands (later.foldr (fun e text => applyEdits text [e]) text) e front old back := by
  induction h generalizing passed with
  | done => exact absurd he (by simp)
  | @edit cursor kept old rest result first more hstart hstop hold hmore ih =>
    have hnext : byteLen (passed ++ (kept ++ old)) = cursor + byteLen kept + byteLen old := by
      simp only [byteLen_append]
      omega
    have hbehind : text.toList = passed ++ (kept ++ old) ++ rest := by
      rw [htext]
      simp only [List.append_assoc]
    rcases List.suffix_cons_iff.1 he with hfirst | hmore'
    · obtain ⟨rfl, rfl⟩ := List.cons.inj hfirst
      exact ⟨_, _, _, stands_of_behind hpassed htext hstart hstop
        (hmore.foldr_applyEdits hnext hbehind)⟩
    · exact ih hnext hbehind hmore'

end

/-- A text becomes longer by what edits bring in and shorter by what they replace. -/
theorem Rewrites.byteLen_add {index : LineIndex} {Old : TextEdit → List Char → Prop}
    {length : TextEdit → Nat} (hold : ∀ e old, Old e old → byteLen old = length e)
    {cursor : Nat} {rest result : List Char} {edits : List TextEdit}
    (h : Rewrites index Old cursor rest edits result) :
    byteLen result + total length edits =
      byteLen rest + total (fun e => byteLen e.newText.toList) edits := by
  induction h with
  | done => simp
  | @edit cursor kept old rest result e more hstart hstop hreplaced hmore ih =>
    have hlength := hold e old hreplaced
    simp only [byteLen_append, total_cons]
    omega

/-- Edits at offsets of a text that do not reach into each other are applied at once
as they are one by one, the last in the text first. If no two of them have the same
offsets, the order in which they are listed does not matter. The text loses the bytes
between the offsets and gets those of the new texts. -/
theorem applyEdits_oneByOne {text : String} {start stop : TextEdit → Nat} {edits : List TextEdit}
    (hstand : StandAt text start stop edits)
    (hapart : (byOffset start stop edits).IsChain fun a b => stop a ≤ start b) :
    applyEdits text edits =
        (byOffset start stop edits).foldr (fun e text => applyEdits text [e]) text ∧
      ((edits.map fun e => (start e, stop e)).Nodup →
        ∀ edits', edits.Perm edits' → applyEdits text edits' = applyEdits text edits) ∧
      byteLen (applyEdits text edits).toList + total (fun e => stop e - start e) edits =
        byteLen text.toList + total (fun e => byteLen e.newText.toList) edits := by
  have hperm := byOffset_perm start stop edits
  have hrewrites := (hstand.perm hperm.symm).rewrites hapart
  rw [hstand.applyEdits_byOffset] at hrewrites
  refine ⟨?_, ?_, ?_⟩
  · have hfoldr : ((byOffset start stop edits).foldr (fun e text => applyEdits text [e])
        text).toList = [] ++ (applyEdits text edits).toList := hrewrites.foldr_applyEdits rfl rfl
    exact String.toList_injective hfoldr.symm
  · intro hdistinct edits' hperm'
    exact hstand.applyEdits_perm hdistinct hperm'
  · have hbytes := hrewrites.byteLen_add fun e old hold => hold
    rw [total_perm _ hperm, total_perm _ hperm] at hbytes
    exact hbytes

/-! ## Offsets in 32 bits -/

/-- One by one too, as long as the texts on the way have offsets of 32 bits. -/
theorem foldrM_applyEditsIn? {text : String} {edits : List TextEdit}
    (hstands : ∀ e later, e :: later <:+ edits → ∃ front old back,
      Stands (later.foldr (fun e text => applyEdits text [e]) text) e front old back)
    (hsize : ∀ later, later <:+ edits.tail →
      byteLen (later.foldr (fun e text => applyEdits text [e]) text).toList < offsetLimit)
    (build : Build) :
    edits.foldrM (fun e text => applyEditsIn? build text [e]) text =
      some (edits.foldr (fun e text => applyEdits text [e]) text) := by
  induction edits with
  | nil => rfl
  | cons e more ih =>
    have hmore := ih
      (fun e later he => hstands e later (he.trans (List.suffix_cons ..)))
      (fun later hlater => hsize later (hlater.trans (List.tail_suffix _)))
    obtain ⟨front, old, back, hstand⟩ := hstands e more List.suffix_rfl
    rw [List.foldrM_cons, hmore, List.foldr_cons]
    exact applyEditsIn?_of_stands (by simpa using ⟨front, old, back, hstand⟩)
      (hsize more List.suffix_rfl) build

/-- The texts that edits leave when they are applied one by one, the last in the text
first, have offsets of 32 bits, as long as there is another edit to apply. -/
def OffsetsFit (text : String) (start stop : TextEdit → Nat) (edits : List TextEdit) : Prop :=
  ∀ later, later <:+ (byOffset start stop edits).tail →
    byteLen text.toList + total (fun e => byteLen e.newText.toList) later <
      offsetLimit + total (fun e => stop e - start e) later

section
variable {text : String} {start stop : TextEdit → Nat} {edits : List TextEdit}

/-- Edits behind others in the order of their offsets are in that order themselves. -/
theorem byOffset_of_suffix {later : List TextEdit} (h : later <:+ byOffset start stop edits) :
    byOffset start stop later = later := by
  refine List.mergeSort_of_pairwise (.sublist h.sublist (List.pairwise_mergeSort ?_ ?_ _))
  · intro a b c hab hbc
    exact @Splice.atOrBefore_trans (spliceAt start stop a) (spliceAt start stop b)
      (spliceAt start stop c) hab hbc
  · intro a b
    exact Splice.atOrBefore_total (spliceAt start stop a) (spliceAt start stop b)

/-- How long the texts on the way are. -/
theorem StandAt.byteLen_foldr (hstand : StandAt text start stop edits)
    (hapart : (byOffset start stop edits).IsChain fun a b => stop a ≤ start b)
    {later : List TextEdit} (hlater : later <:+ byOffset start stop edits) :
    byteLen (later.foldr (fun e text => applyEdits text [e]) text).toList +
        total (fun e => stop e - start e) later =
      byteLen text.toList + total (fun e => byteLen e.newText.toList) later := by
  have hsame := byOffset_of_suffix hlater
  have hstand' : StandAt text start stop later :=
    fun e he => hstand e ((byOffset_perm start stop edits).mem_iff.1 (hlater.subset he))
  obtain ⟨hfoldr, -, hbytes⟩ :=
    applyEdits_oneByOne hstand' (by rw [hsame]; exact hapart.suffix hlater)
  rw [hsame] at hfoldr
  rw [← hfoldr]
  exact hbytes

/-- However the program was built, it applies edits at offsets of a text that do not
reach into each other as it does one by one, the last in the text first. If no two of
them have the same offsets, the order in which they are listed does not matter. The
text loses the bytes between the offsets and gets those of the new texts. -/
theorem applyEditsIn?_oneByOne (build : Build) (hstand : StandAt text start stop edits)
    (hapart : (byOffset start stop edits).IsChain fun a b => stop a ≤ start b)
    (hfit : OffsetsFit text start stop edits) :
    ∃ result, applyEditsIn? build text edits = some result ∧
      (byOffset start stop edits).foldrM (fun e text => applyEditsIn? build text [e]) text =
        some result ∧
      ((edits.map fun e => (start e, stop e)).Nodup →
        ∀ edits', edits.Perm edits' → applyEditsIn? build text edits' = some result) ∧
      byteLen result.toList + total (fun e => stop e - start e) edits =
        byteLen text.toList + total (fun e => byteLen e.newText.toList) edits := by
  have hperm := byOffset_perm start stop edits
  have hsize : byteLen text.toList < offsetLimit := by
    have hempty := hfit [] List.nil_suffix
    rwa [total_nil, total_nil, Nat.add_zero, Nat.add_zero] at hempty
  have hstands : ∀ edits', edits.Perm edits' →
      ∀ e ∈ edits', ∃ front old back, Stands text e front old back := by
    intro edits' hperm' e he
    obtain ⟨front, old, back, hstands, -⟩ := hstand.exists_stands (hperm'.mem_iff.2 he)
    exact ⟨front, old, back, hstands⟩
  obtain ⟨hfoldr, hany, hbytes⟩ := applyEdits_oneByOne hstand hapart
  refine ⟨applyEdits text edits, applyEditsIn?_of_stands (hstands _ .rfl) hsize build, ?_, ?_,
    hbytes⟩
  · have hrewrites := (hstand.perm hperm.symm).rewrites hapart
    rw [hfoldr]
    refine foldrM_applyEditsIn? (fun e later he =>
      @Rewrites.exists_stands_foldr _ _ _ _ _ [] _ hrewrites rfl rfl _ _ he) ?_ build
    intro later hlater
    have hlength := hstand.byteLen_foldr hapart (hlater.trans (List.tail_suffix _))
    have hshort := hfit later hlater
    omega
  · intro hdistinct edits' hperm'
    rw [applyEditsIn?_of_stands (hstands _ hperm') hsize build, hany hdistinct edits' hperm']

end

/-! Edits of which each changes where the next stands. The third takes out a line break,
the fourth starts where that line ended, behind its end, and the second brings in
something where the first stops. -/

def brokenText : String := "é b\ncd\n"

def brokenEdits : List TextEdit :=
  [⟨.onLine 0 0 2, "e"⟩, ⟨.onLine 0 2 2, "--"⟩, ⟨⟨⟨0, 3⟩, ⟨1, 0⟩⟩, ""⟩, ⟨⟨⟨0, 5⟩, ⟨1, 2⟩⟩, "xy\n"⟩]

def brokenStart (e : TextEdit) : Nat :=
  ((LineIndex.ofText brokenText).offset? e.range.start).getD 0

def brokenStop (e : TextEdit) : Nat :=
  ((LineIndex.ofText brokenText).offset? e.range.stop).getD 0

/-- They fit and are applied the same in reverse order, and one by one. -/
theorem applyEditsIn?_oneByOne_broken :
    StandAt brokenText brokenStart brokenStop brokenEdits ∧
      ((byOffset brokenStart brokenStop brokenEdits).IsChain
        fun a b => brokenStop a ≤ brokenStart b) ∧
      OffsetsFit brokenText brokenStart brokenStop brokenEdits ∧
      applyEditsIn? .checked brokenText brokenEdits = some "e-- xy\n\n" ∧
      applyEditsIn? .checked brokenText brokenEdits.reverse = some "e-- xy\n\n" ∧
      (byOffset brokenStart brokenStop brokenEdits).foldrM
        (fun e text => applyEditsIn? .checked text [e]) brokenText = some "e-- xy\n\n" := by
  have hordered : byOffset brokenStart brokenStop brokenEdits = brokenEdits := by
    rw [byOffset, List.mergeSort_of_pairwise (by decide +kernel)]
  have hstand : StandAt brokenText brokenStart brokenStop brokenEdits := by
    unfold StandAt
    decide +kernel
  have hapart : (byOffset brokenStart brokenStop brokenEdits).IsChain
      fun a b => brokenStop a ≤ brokenStart b := by
    rw [hordered]
    decide +kernel
  have hfit : OffsetsFit brokenText brokenStart brokenStop brokenEdits := by
    intro later hlater
    rw [hordered, ← List.mem_tails] at hlater
    revert later
    decide +kernel
  obtain ⟨result, hresult, hfoldr, hperm, -⟩ :=
    applyEditsIn?_oneByOne .checked hstand hapart hfit
  have hedited : applyEditsIn? .checked brokenText brokenEdits = some "e-- xy\n\n" := by
    have hsplices : brokenEdits.mapM (Splice.ofEditIn? .checked (.ofText brokenText)) =
        some [some ⟨0, 2, ['e']⟩, some ⟨2, 2, ['-', '-']⟩, some ⟨3, 5, []⟩,
          some ⟨5, 7, ['x', 'y', '\n']⟩] := by
      decide +kernel
    rw [applyEditsIn?_of_mapM (by decide +kernel) hsplices, applySplices,
      List.mergeSort_of_pairwise (by decide +kernel)]
    decide +kernel
  rw [hresult, Option.some.injEq] at hedited
  subst hedited
  exact ⟨hstand, hapart, hfit, hresult, hperm (by decide +kernel) _ brokenEdits.reverse_perm.symm,
    hfoldr⟩

/-! An edit so far behind the end of its line that its offset comes back into the text, to
where another edit takes out the line break. -/

def wrappedText : String := "a\nb"

def wrappedEdits : List TextEdit :=
  [⟨.onLine 1 4294967295 4294967295, "X"⟩, ⟨⟨⟨0, 1⟩, ⟨1, 0⟩⟩, ""⟩]

/-- The sum of its line's start and its column is outside the text, but its low bits are
not. So the edit is applied along with the other one. When its turn comes behind the
other one, there is no such line. -/
theorem applyEditsIn?_wrapped :
    (LineIndex.ofText wrappedText).offset? ⟨1, 4294967295⟩ = some 4294967297 ∧
      (LineIndex.ofText wrappedText).offsetIn? .unchecked ⟨1, 4294967295⟩ = some (some 1) ∧
      applyEditsIn? .unchecked wrappedText wrappedEdits = some "aXb" ∧
      wrappedEdits.foldrM (fun e text => applyEditsIn? .unchecked text [e]) wrappedText =
        some "ab" ∧
      applyEditsIn? .checked wrappedText wrappedEdits = none := by
  have hsplices : wrappedEdits.mapM (Splice.ofEditIn? .unchecked (.ofText wrappedText)) =
      some [some ⟨1, 1, ['X']⟩, some ⟨1, 2, []⟩] := by
    decide +kernel
  have hrefused : wrappedEdits.mapM (Splice.ofEditIn? .checked (.ofText wrappedText)) = none := by
    decide +kernel
  have hbreak : applyEditsIn? .unchecked wrappedText [⟨⟨⟨0, 1⟩, ⟨1, 0⟩⟩, ""⟩] = some "ab" := by
    rw [@applyEditsIn?_of_mapM _ _ _ [some ⟨1, 2, []⟩] (by decide +kernel) (by decide +kernel),
      applySplices, List.mergeSort_of_pairwise (by decide +kernel)]
    decide +kernel
  have hgone : applyEditsIn? .unchecked "ab" [⟨.onLine 1 4294967295 4294967295, "X"⟩] =
      some "ab" := by
    rw [@applyEditsIn?_of_mapM _ _ _ [none] (by decide +kernel) (by decide +kernel), applySplices,
      List.mergeSort_of_pairwise (by decide +kernel)]
    decide +kernel
  refine ⟨by decide +kernel, by decide +kernel, ?_, ?_, ?_⟩
  · rw [applyEditsIn?_of_mapM (by decide +kernel) hsplices, applySplices,
      List.mergeSort_of_pairwise (by decide +kernel)]
    decide +kernel
  · rw [wrappedEdits, List.foldrM_cons, List.foldrM_cons, List.foldrM_nil]
    simp only [pure_bind, hbreak]
    exact hgone
  · rw [applyEditsIn?, LineIndex.ofTextIn?, if_pos (by decide +kernel)]
    simp only [hrefused, Option.bind_eq_bind, Option.bind_some, Option.bind_none]

end RakuAtlas.Query
