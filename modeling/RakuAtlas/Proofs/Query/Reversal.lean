import RakuAtlas.Proofs.Query.Rename
import RakuAtlas.Proofs.Query.Seats

/-!
# RakuAtlas.Proofs.Query.Reversal — taking back a replacement

Replacing every occurrence of a name by a new one can be taken back, if the new
name did not occur before. A text and the text after the replacement are one
template filled with two names, and `Marks` says of a template that its slots are
exactly the seats of the name that fills it.

* `Marks.refill`: a template keeps marking the seats when it is filled with
  another name that had no seat, and then the first name has none.
* `Marks.eq_of_fill_eq`: the seats of a name leave no choice of the template.
* `exists_marks`: the search and its edits give the template of a name.
* `replaceAll_takenBack`: hence the second replacement undoes the first.
-/

namespace RakuAtlas.Query

open Text
open Text.Template (fill fill_append fill_map_some fill_none fill_reverse SlotEnds)
open RakuAtlas.Symbol (SymbolName isSigil)

/-! ## Templates of a name -/

/-- A name in ASCII that does not start with a digit. -/
structure IsSimpleBase (base : Line) : Prop where
  name : isAsciiName base
  start : headIs isAsciiStart base

/-- A name without a twigil whose base is simple. -/
structure IsSimple (name : SymbolName) : Prop where
  sigil : ∀ c ∈ name.sigil, isSigil c
  twigil : name.twigil = none
  base : IsSimpleBase name.base

/-- The slots of the template are the seats of the name that fills it. -/
structure Marks (sigil : Option Char) (base : Line) (t : Template) : Prop where
  slot : ∀ s r, t = s ++ none :: r → Seat sigil (fill base s).reverse (fill base r)
  literal : ∀ s r, t = s ++ (base.map some ++ r) → ¬Seat sigil (fill base s).reverse (fill base r)

/-- The name has no seat among the characters. -/
def NoSeat (sigil : Option Char) (base cs : Line) : Prop :=
  ∀ front back, cs = front ++ (base ++ back) → ¬Seat sigil front.reverse back

section
variable {sigil : Option Char} (hsigil : ∀ c ∈ sigil, isSigil c) {x y : Line} {s r t : Template}

include hsigil

/-- Which name fills the other slots makes no difference to a seat. -/
theorem Seat.refill (hx : IsSimpleBase x) (hy : IsSimpleBase y)
    (h : Seat sigil (fill x s).reverse (fill x r)) : Seat sigil (fill y s).reverse (fill y r) := by
  have hx' := headIs_reverse_of_isAsciiName hx.name
  have hy' := headIs_reverse_of_isAsciiName hy.name
  rw [fill_reverse] at h ⊢
  exact h.congr hsigil (looksLike_fill hx' hy' _) (looksLike_fill hx.start hy.start r)

/-- A name that has a seat between two parts of a template is what fills the slot
there, or is written in the template. -/
theorem seat_cases_between (hx : isAsciiName x) (hy : isAsciiName y)
    (hslot : ∀ s' r', s ++ r = s' ++ none :: r' → Seat sigil (fill x s').reverse (fill x r'))
    {back : Line} (hfill : fill x r = y ++ back) (h : Seat sigil (fill x s).reverse back) :
    (y = x ∧ ∃ r', r = none :: r') ∨ ∃ r', r = y.map some ++ r' ∧ back = fill x r' := by
  rcases Template.exists_of_fill_eq_name hfill with hwritten | ⟨inner, outer, r', rfl, hne, rfl⟩
  · exact Or.inr hwritten
  · by_cases hinner : inner = []
    · subst hinner
      exact Or.inl ⟨eq_of_seats hy hx hfill.symm h (hslot s r' rfl), r', rfl⟩
    · -- the slot would be a seat inside the name
      have hseat := hslot (s ++ inner.map some) r' (by simp)
      rw [fill_append, fill_map_some, List.reverse_append] at hseat
      exact absurd hseat (not_seat_inside hsigil hy hinner)

/-- A name that has a seat in a filled template is what fills it, or is written in
the template. -/
theorem seat_cases (hx : isAsciiName x) (hy : isAsciiName y)
    (hslot : ∀ s r, t = s ++ none :: r → Seat sigil (fill x s).reverse (fill x r))
    {front back : Line} (hfill : fill x t = front ++ (y ++ back))
    (h : Seat sigil front.reverse back) :
    y = x ∨ ∃ s r, t = s ++ (y.map some ++ r) ∧ front = fill x s ∧ back = fill x r := by
  rcases Template.exists_of_fill_eq_append hfill with
    ⟨s, r, rfl, rfl, hback⟩ | ⟨s, r, inner, outer, rfl, rfl, hne, rfl⟩
  · rcases seat_cases_between hsigil hx hy hslot hback.symm h with ⟨heq, -⟩ | ⟨r', rfl, rfl⟩
    · exact Or.inl heq
    · exact Or.inr ⟨s, r', rfl, rfl, rfl⟩
  · rw [List.reverse_append] at h
    exact absurd h (not_seat_inside hsigil hx hne)

/-- A template that marks the seats of one name marks those of another that had
none, and then the first has none. -/
theorem Marks.refill (hx : IsSimpleBase x) (hy : IsSimpleBase y) (hne : x ≠ y) (h : Marks sigil x t)
    (hfresh : NoSeat sigil y (fill x t)) : Marks sigil y t ∧ NoSeat sigil x (fill y t) := by
  have hslot : ∀ s r, t = s ++ none :: r → Seat sigil (fill y s).reverse (fill y r) :=
    fun s r ht => (h.slot s r ht).refill hsigil hx hy
  refine ⟨⟨hslot, ?_⟩, ?_⟩
  · rintro s r rfl hseat
    refine hfresh (fill x s) (fill x r) ?_ (hseat.refill hsigil hy hx)
    rw [fill_append, fill_append, fill_map_some]
  · intro front back hfill hseat
    rcases seat_cases hsigil hy.name hx.name hslot hfill hseat with heq | ⟨s, r, ht, rfl, rfl⟩
    · exact hne heq
    · exact h.literal s r ht (hseat.refill hsigil hy hx)

/-- Of two templates that mark the same seats, one does not have a slot where the
other has a character. -/
theorem Marks.no_mismatch (hx : isAsciiName x) {c : Char} {r' : Template}
    (h : Marks sigil x (s ++ none :: r)) (h' : Marks sigil x (s ++ some c :: r'))
    (hfill : fill x (some c :: r') = fill x (none :: r)) : False := by
  rcases seat_cases_between hsigil hx hx h'.slot hfill (h.slot s r rfl) with
    ⟨-, r'', hslot⟩ | ⟨r'', hwritten, hback⟩
  · cases hslot
  · refine h'.literal s r'' (by rw [hwritten]) ?_
    rw [← hback]
    exact h.slot s r rfl

/-- The seats of a name leave no choice of the template. -/
theorem Marks.eq_of_fill_eq (hx : isAsciiName x) {t' : Template} (h : Marks sigil x t)
    (h' : Marks sigil x t') (hfill : fill x t = fill x t') : t = t' := by
  -- behind a front that both have, the rests agree
  suffices hrest : ∀ s r r', Marks sigil x (s ++ r) → Marks sigil x (s ++ r') →
      fill x r = fill x r' → r = r' from hrest [] t t' h h' hfill
  intro s r
  induction r generalizing s with
  | nil =>
    intro r' _ _ hfill
    exact (Template.eq_nil_of_fill (ne_nil_of_isAsciiName hx) hfill.symm).symm
  | cons slot r ih =>
    intro r' h h' hfill
    rcases r' with _ | ⟨slot', r'⟩
    · exact Template.eq_nil_of_fill (ne_nil_of_isAsciiName hx) hfill
    rcases slot with _ | c <;> rcases slot' with _ | d
    · rw [List.append_cons] at h h'
      rw [ih (s ++ [none]) r' h h' (List.append_cancel_left hfill)]
    · exact (Marks.no_mismatch hsigil hx h h' hfill.symm).elim
    · exact (Marks.no_mismatch hsigil hx h' h hfill).elim
    · rcases List.cons.inj hfill with ⟨rfl, hrest⟩
      rw [List.append_cons] at h h'
      rw [ih (s ++ [some c]) r' h h' hrest]

end

/-! ## The template of a search -/

/-- Edits that put one name in place of another fill a template, and its slots end
where the edits do. -/
theorem Rewrites.exists_template {index : LineIndex} {Old : TextEdit → List Char → Prop}
    {cursor : Nat} {rest result : List Char} {edits : List TextEdit} {x y : Line}
    (h : Rewrites index Old cursor rest edits result)
    (hold : ∀ e old, Old e old → ∃ lead, old = lead ++ x ∧ e.newText.toList = lead ++ y) :
    ∃ t, fill x t = rest ∧ fill y t = result ∧
      (∀ offset, SlotEnds x t offset →
        ∃ e ∈ edits, index.offset? e.range.stop = some (cursor + offset)) ∧
      ∀ e ∈ edits, ∃ offset, SlotEnds x t offset ∧
        index.offset? e.range.stop = some (cursor + offset) := by
  induction h with
  | @done cursor rest =>
    refine ⟨rest.map some, fill_map_some x rest, fill_map_some y rest, ?_, by simp⟩
    intro offset hslot
    exact absurd hslot Template.not_slotEnds_map_some
  | @edit cursor kept old rest result e more hstart hstop hpiece hmore ih =>
    rcases ih with ⟨t, rfl, rfl, hslots, hedits⟩
    rcases hold e old hpiece with ⟨lead, rfl, hnew⟩
    have hnext : ∀ later, cursor + byteLen kept + byteLen (lead ++ x) + later =
        cursor + (byteLen (kept ++ lead ++ x) + later) := by
      intro later
      simp only [byteLen_append]
      omega
    rw [← Nat.add_zero (_ + byteLen (lead ++ x)), hnext] at hstop
    refine ⟨(kept ++ lead).map some ++ none :: t, by simp, by simp [hnew], ?_, ?_⟩
    · intro offset hslot
      rcases Template.slotEnds_cons_iff.1 hslot with rfl | ⟨later, hlater, rfl⟩
      · exact ⟨e, List.mem_cons_self .., hstop⟩
      · rcases hslots later hlater with ⟨e', he', hstop'⟩
        rw [hnext] at hstop'
        exact ⟨e', List.mem_cons_of_mem _ he', hstop'⟩
    · intro e' he'
      rcases List.mem_cons.1 he' with rfl | hin
      · exact ⟨_, Template.slotEnds_cons_iff.2 (Or.inl rfl), hstop⟩
      · rcases hedits e' hin with ⟨later, hlater, hstop'⟩
        rw [hnext] at hstop'
        exact ⟨_, Template.slotEnds_cons_iff.2 (Or.inr ⟨later, hlater, rfl⟩), hstop'⟩

/-- A text with every occurrence of a name replaced by a new one. -/
def replaceAll (file : FileId) (old new text : String) : String :=
  applyEdits text ((occurrences none (.parse old.toList) file text 0).map (editOf new))

/-- The edit of an occurrence puts the new base in place of the old, behind the
sigil or alone. -/
theorem exists_lead_of_editOf {old new : String} {o : Occurrence} {piece : Line}
    (hold : (SymbolName.parse old.toList).twigil = none)
    (hnew : (SymbolName.parse new.toList).twigil = none)
    (hsigil : (SymbolName.parse old.toList).sigil = (SymbolName.parse new.toList).sigil)
    (h : Replaces (.parse old.toList) o piece) :
    ∃ lead, piece = lead ++ (SymbolName.parse old.toList).base ∧
      (editOf new o).newText.toList = lead ++ (SymbolName.parse new.toList).base := by
  rcases newText_editOf h new with ⟨hwhole, rfl⟩ | ⟨hbase, -, rfl⟩
  · refine ⟨(SymbolName.parse old.toList).sigil.toList, ?_, ?_⟩
    · simp [SymbolName.render, hold]
    · have hrender := SymbolName.render_parse new.toList
      rw [SymbolName.render, hnew, Option.toList_none, List.append_nil] at hrender
      rw [hwhole, hsigil, hrender]
  · exact ⟨[], rfl, by rw [hbase, baseOf, String.toList_ofList]; rfl⟩

/-- All occurrences are replaced, and nothing else changes. -/
theorem rewrites_replaceAll {old new text : String}
    (hbase : (SymbolName.parse old.toList).base ≠ []) (file : FileId) :
    Rewrites (.ofText text)
      (fun e piece => ∃ o, e = editOf new o ∧ Replaces (.parse old.toList) o piece) 0 text.toList
      ((occurrences none (.parse old.toList) file text 0).map (editOf new))
      (replaceAll file old new text).toList := by
  have hwritten := fun o ho => @writtenIn_of_mem_occurrences none _ (isParsed_parse old.toList)
    file text 0 o ho
  refine rewrites_lineEdits ?_ (List.pairwise_map.2 ?_)
  · intro e he
    rcases List.mem_map.1 he with ⟨o, ho, rfl⟩
    rcases (hwritten o ho).2.lineEdit new with ⟨piece, hpiece, hline⟩
    exact ⟨piece, ⟨o, rfl, hpiece⟩, hline⟩
  · refine (pairwise_occurrences none _ file text 0).imp_of_mem ?_
    intro a b ha hb hprecedes
    rw [range_editOf, range_editOf]
    rcases hprecedes with hlt | ⟨-, -, hstop⟩
    · rw [(hwritten a ha).1, (hwritten b hb).1] at hlt
      exact absurd hlt (Nat.lt_irrefl _)
    · exact (edit_precedes hbase (hwritten a ha).2 (hwritten b hb).2 hstop).2

/-! ## Taking a replacement back -/

section
variable {name : SymbolName} (hname : IsSimple name) (file : FileId) {text : String}

include hname

/-- A name is not found where its base has no seat. -/
theorem occurrences_eq_nil_iff :
    occurrences none name file text 0 = [] ↔ NoSeat name.sigil name.base text.toList := by
  constructor
  · intro hnil front back htext hseat
    rw [seat_iff_mem_occurrences hname.sigil hname.twigil hname.base.name htext file, hnil] at hseat
    rcases hseat with ⟨o, ho, -⟩
    cases ho
  · intro hfree
    rw [List.eq_nil_iff_forall_not_mem]
    intro o ho
    rcases exists_seat_of_isUse hname.sigil (isUse_of_mem_occurrences ho).2 with
      ⟨front, back, htext, hseat, -⟩
    exact hfree front back htext hseat

/-- A template whose slots end where the occurrences do marks the seats. -/
theorem marks_of_slotEnds {t : Template} (htext : text.toList = fill name.base t)
    (hslots : ∀ offset, SlotEnds name.base t offset →
      ∃ o ∈ occurrences none name file text 0,
        (LineIndex.ofText text).offset? o.edit.stop = some offset)
    (hedits : ∀ o ∈ occurrences none name file text 0, ∃ offset, SlotEnds name.base t offset ∧
      (LineIndex.ofText text).offset? o.edit.stop = some offset) :
    Marks name.sigil name.base t where
  slot := by
    rintro s r rfl
    rw [fill_append, fill_none] at htext
    rw [seat_iff_mem_occurrences hname.sigil hname.twigil hname.base.name htext file]
    exact hslots _ ⟨s, r, rfl, rfl⟩
  literal := by
    rintro s r rfl hseat
    rw [fill_append, fill_append, fill_map_some] at htext
    rw [seat_iff_mem_occurrences hname.sigil hname.twigil hname.base.name htext file] at hseat
    rcases hseat with ⟨o, ho, hstop⟩
    rcases hedits o ho with ⟨offset, ⟨s', r', hsplit, rfl⟩, hstop'⟩
    rw [hstop, Option.some.injEq] at hstop'
    -- a slot and a character would stand at the same place
    have hfill := congrArg (fill name.base) hsplit
    rw [fill_append, fill_append, fill_map_some, fill_append, fill_none, ← List.append_assoc,
      ← List.append_assoc] at hfill
    have hfront := List.append_cancel_right (front_eq_of_byteLen hfill hstop').1
    have hne := ne_nil_of_isAsciiName hname.base.name
    have hrest := (Template.eq_of_fill_eq hne hsplit hfront).2
    cases hbase : name.base with
    | nil => exact hne hbase
    | cons c cs => simp [hbase] at hrest

end

/-- The search and its edits give the template of a name: filled with the old name
it is the text, and filled with the new one the text after the replacement. -/
theorem exists_marks {old new : String} (hold : IsSimple (.parse old.toList))
    (hnew : IsSimple (.parse new.toList))
    (hsigil : (SymbolName.parse old.toList).sigil = (SymbolName.parse new.toList).sigil)
    (file : FileId) (text : String) :
    ∃ t, text.toList = fill (SymbolName.parse old.toList).base t ∧
      (replaceAll file old new text).toList = fill (SymbolName.parse new.toList).base t ∧
      Marks (SymbolName.parse old.toList).sigil (SymbolName.parse old.toList).base t := by
  have hrewrites := @rewrites_replaceAll old new text (ne_nil_of_isAsciiName hold.base.name) file
  rcases hrewrites.exists_template (y := (SymbolName.parse new.toList).base) (by
    rintro e piece ⟨o, rfl, hpiece⟩
    exact exists_lead_of_editOf hold.twigil hnew.twigil hsigil hpiece) with
    ⟨t, htext, hresult, hslots, hedits⟩
  refine ⟨t, htext.symm, hresult.symm, marks_of_slotEnds hold file htext.symm ?_ ?_⟩
  · intro offset hslot
    rcases hslots offset hslot with ⟨e, he, hstop⟩
    rcases List.mem_map.1 he with ⟨o, ho, rfl⟩
    rw [range_editOf, Nat.zero_add] at hstop
    exact ⟨o, ho, hstop⟩
  · intro o ho
    rcases hedits (editOf new o) (List.mem_map_of_mem ho) with ⟨offset, hslot, hstop⟩
    rw [range_editOf, Nat.zero_add] at hstop
    exact ⟨offset, hslot, hstop⟩

/-- Replacing a name by one that does not occur can be taken back. Afterwards the
old name does not occur, and replacing the new name by the old one gives the text
as it was. -/
theorem replaceAll_takenBack {old new text : String} {file : FileId}
    (hold : IsSimple (.parse old.toList)) (hnew : IsSimple (.parse new.toList))
    (hsigil : (SymbolName.parse old.toList).sigil = (SymbolName.parse new.toList).sigil)
    (hne : old ≠ new) (hfresh : occurrences none (.parse new.toList) file text 0 = []) :
    occurrences none (.parse old.toList) file (replaceAll file old new text) 0 = [] ∧
      replaceAll file new old (replaceAll file old new text) = text := by
  have hbase : (SymbolName.parse old.toList).base ≠ (SymbolName.parse new.toList).base := by
    intro heq
    refine hne (String.toList_injective ?_)
    calc
      old.toList = (SymbolName.parse old.toList).render := (SymbolName.render_parse _).symm
      _ = (SymbolName.parse new.toList).render := by
        rw [SymbolName.render, SymbolName.render, hold.twigil, hnew.twigil, hsigil, heq]
      _ = new.toList := SymbolName.render_parse _
  rcases exists_marks hold hnew hsigil file text with ⟨t, htext, hreplaced, hmarks⟩
  rw [occurrences_eq_nil_iff hnew, ← hsigil, htext] at hfresh
  rcases hmarks.refill hold.sigil hold.base hnew.base hbase hfresh with ⟨hmarks', hfree⟩
  -- the second replacement has the same template
  rcases exists_marks hnew hold hsigil.symm file (replaceAll file old new text) with
    ⟨t', htext', hback, hmarks''⟩
  rw [← hsigil] at hmarks''
  have hsame := hmarks'.eq_of_fill_eq hold.sigil hnew.base.name hmarks''
    (hreplaced.symm.trans htext')
  constructor
  · rw [occurrences_eq_nil_iff hold, hreplaced]
    exact hfree
  · rw [← hsame, ← htext] at hback
    exact String.toList_injective hback

/-- A variable in all its forms, next to a longer name, is replaced and put
back. -/
theorem replaceAll_takenBack_scalar :
    occurrences none (.parse "$n".toList) ⟨0⟩ scalarText 0 = [] ∧
      (occurrences none (.parse "$x".toList) ⟨0⟩ scalarText 0).map Occurrence.form =
        [.whole, .whole, .baseOnly, .baseOnly, .whole] ∧
      occurrences none (.parse "$x".toList) ⟨0⟩ (replaceAll ⟨0⟩ "$x" "$n" scalarText) 0 = [] ∧
      replaceAll ⟨0⟩ "$n" "$x" (replaceAll ⟨0⟩ "$x" "$n" scalarText) = scalarText := by
  have hold : IsSimple (.parse "$x".toList) :=
    ⟨fun _ => isSigil_of_parse, by decide, by decide, by decide⟩
  have hnew : IsSimple (.parse "$n".toList) :=
    ⟨fun _ => isSigil_of_parse, by decide, by decide, by decide⟩
  have hfresh : occurrences none (.parse "$n".toList) ⟨0⟩ scalarText 0 = [] := by decide +kernel
  have hforms : (occurrences none (.parse "$x".toList) ⟨0⟩ scalarText 0).map Occurrence.form =
      [.whole, .whole, .baseOnly, .baseOnly, .whole] := by decide +kernel
  exact ⟨hfresh, hforms, replaceAll_takenBack hold hnew rfl (by decide) hfresh⟩

end RakuAtlas.Query
