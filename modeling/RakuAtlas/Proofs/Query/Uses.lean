import RakuAtlas.Proofs.Query.Hits

/-!
# RakuAtlas.Proofs.Query.Uses — where a name is used in a text

`IsUse` says what it means that an occurrence is a use of a name: one of the
spellings stands on a line of the text, it is the whole of a name there, and it
is in code. It does not speak of searching.

* `isUse_of_mem_occurrences`: what the search finds is a use.
* `mem_occurrences_of_not_covered`: a use is found, unless an earlier match
  covers the place where it starts.
* `pairwise_occurrences`: what is found comes one after the other.
-/

namespace RakuAtlas.Query

open Text
open RakuAtlas.Symbol (SymbolName)
open Lexical (Classifier Piece)

/-! ## Uses -/

/-- A range of a line overlaps nothing but code, if a classifier can tell. -/
def InCode (classifier : Option Classifier) (text : String) (range : Range) : Prop :=
  ∀ c ∈ classifier, ∀ pieces, c.pieces (lines text) = .ok pieces →
    ∀ line ∈ pieces[range.start.line]?, ∀ span ∈ Piece.spans line, span.cls ≠ .code →
      range.stop.col ≤ span.start ∨ span.stop ≤ range.start.col

/-- A use of a name in the text of a file: a spelling of the name stands on a
line, nothing goes on with it, a plain name goes on with nothing before it, and
all of it is code. -/
inductive IsUse (classifier : Option Classifier) (name : SymbolName) (file : FileId)
    (text : String) : Occurrence → Prop where
  | intro {n : Nat} {front back : Line} {sp : Spelling} (hsp : sp ∈ spellings name)
      (hline : (lines text)[n]? = some (front ++ (sp.text ++ back)))
      (hends : endsIdentifier back)
      (hstarts : name.hasSigil ∨ startsIdentifier front.reverse)
      (hcode : InCode classifier text (sp.occurrence file n front).location.range) :
      IsUse classifier name file text (sp.occurrence file n front)

/-- The occurrence of a match is that of the spelling. -/
theorem occurrenceOf_eq {name : SymbolName} {sp : Spelling} (hsp : sp ∈ spellings name)
    {h : Hit MatchForm} {len : Nat} (hmatch : sp.IsMatch len h.info) (htext : h.text = sp.text)
    {front : Line} (hstart : h.start = byteLen front) (file : FileId) (n : Nat) :
    occurrenceOf name file n h = sp.occurrence file n front := by
  rcases hmatch with ⟨-, hform, hlead⟩
  have hstop : h.stop = byteLen (front ++ sp.text) := by rw [Hit.stop, hstart, htext, byteLen_append]
  -- the part that is edited: everything, or the base behind what leads up to it
  have hparts : sp.form = .whole ∧ sp.lead = [] ∧ sp.trail = [] ∨
      sp.form = .baseOnly ∧ sp.edited = name.base := by
    cases hsigil : name.sigil with
    | none =>
      rw [mem_spellings_plain hsigil] at hsp
      subst hsp
      exact Or.inl ⟨rfl, rfl, rfl⟩
    | some sigil =>
      rw [mem_spellings_variable hsigil] at hsp
      rcases hsp with ⟨-, rfl | rfl⟩ | ⟨twigil, -, rfl⟩
      · exact Or.inl ⟨rfl, rfl, rfl⟩
      · exact Or.inr ⟨rfl, rfl⟩
      · exact Or.inr ⟨rfl, rfl⟩
  rcases hparts with ⟨hwhole, hnolead, hnotrail⟩ | ⟨hbase, hedited⟩
  · have hedited : sp.text = sp.edited := by simp [Spelling.text, hnolead, hnotrail]
    simp [occurrenceOf, hform, hwhole, Spelling.occurrence, hstart, hstop, hnolead, hedited]
  · have htake : h.text.take h.info.lead = sp.lead := by
      rw [htext, hlead hbase, Spelling.text, List.take_left]
    simp [occurrenceOf, hform, hbase, Spelling.occurrence, hstart, hstop, htake, hedited,
      Nat.add_assoc]

/-! ## Filtering -/

/-- Overlapping what is quoted, as the search tests it. -/
theorem inQuoted_eq_false_iff (pieces : List Piece) (range : Range) :
    inQuoted pieces range = false ↔ ∀ span ∈ Piece.spans pieces, span.cls ≠ .code →
      range.stop.col ≤ span.start ∨ span.stop ≤ range.start.col := by
  simp only [inQuoted, List.any_eq_false, Bool.and_eq_true, bne_iff_ne, decide_eq_true_eq]
  constructor
  · intro h span hspan hcls
    have hnot := h span hspan
    by_contra hoverlap
    exact hnot ⟨⟨hcls, by omega⟩, by omega⟩
  · rintro h span hspan ⟨⟨hcls, hstart⟩, hstop⟩
    have hapart := h span hspan hcls
    omega

/-- The filter keeps what is in code. -/
theorem mem_filtered_iff {classifier : Option Classifier} {text : String}
    {found : List Occurrence} {o : Occurrence} :
    (o ∈ match classifier with
      | some c => codeOnly c (lines text) found
      | none => found) ↔ o ∈ found ∧ InCode classifier text o.location.range := by
  cases classifier with
  | none => simp [InCode]
  | some c =>
    cases hpieces : c.pieces (lines text) with
    | error e => simp [codeOnly, InCode, hpieces]
    | ok pieces =>
      simp only [codeOnly, hpieces, List.mem_filter]
      refine and_congr_right fun _ => ?_
      cases hline : pieces[o.location.range.start.line]? with
      | none => simp [InCode, hpieces, hline]
      | some line => simp [InCode, hpieces, hline, inQuoted_eq_false_iff]

/-! ## What is found -/

theorem mem_occurrencesFrom {name : SymbolName} {file : FileId} {n i : Nat} {ls : List Line}
    {line : Line} (hline : ls[i]? = some line) {hit : Hit MatchForm}
    (hhit : hit ∈ matchesOn name line) :
    occurrenceOf name file (n + i) hit ∈ occurrencesFrom name file n ls := by
  induction ls generalizing n i with
  | nil => simp at hline
  | cons first more ih =>
    rw [occurrencesFrom, List.mem_append]
    cases i with
    | zero =>
      rw [List.getElem?_cons_zero, Option.some.injEq] at hline
      subst hline
      exact Or.inl (List.mem_map_of_mem hhit)
    | succ i =>
      have hmore := @ih (n + 1) i hline
      rw [Nat.add_assoc, Nat.add_comm 1 i] at hmore
      exact Or.inr hmore

/-- What the search finds is a use of the name, from the first line on. -/
theorem isUse_of_mem_occurrences {classifier : Option Classifier} {name : SymbolName}
    {file : FileId} {text : String} {first : Nat} {o : Occurrence}
    (h : o ∈ occurrences classifier name file text first) :
    first ≤ o.location.range.start.line ∧ IsUse classifier name file text o := by
  rcases mem_filtered_iff.1 h with ⟨hfound, hcode⟩
  rcases exists_of_mem_occurrencesFrom hfound with ⟨i, line, hline, hit, hhit, rfl⟩
  rw [List.getElem?_drop] at hline
  rcases List.mem_filter.1 hhit with ⟨hmem, hwhole⟩
  have hbefore := line_of_mem_hitsFrom hmem
  rcases find_of_mem_hitsFrom hmem with ⟨len, hfind, htake⟩
  rcases exists_spelling_of_matchLen? hfind with ⟨sp, hsp, hprefix, hmatch⟩
  -- the text of the hit is the spelling
  have htext : hit.text = sp.text := by
    rcases hprefix with ⟨back, hback⟩
    rw [htake, hmatch.1, ← hback, List.take_left]
  have hocc := occurrenceOf_eq hsp hmatch htext hit.start_eq file (first + i)
  rw [hocc] at hcode ⊢
  simp only [standsAlone, Bool.and_eq_true, Bool.or_eq_true] at hwhole
  rw [List.reverse_nil, List.nil_append, List.append_assoc, htext] at hbefore
  refine ⟨Nat.le_add_right first i, .intro hsp ?_ hwhole.1 ?_ hcode⟩
  · rw [hline, ← hbefore]
  · rw [List.reverse_reverse]
    exact hwhole.2

section
variable {classifier : Option Classifier} {name : SymbolName} {file : FileId} {text : String}

/-- A use is found, unless an earlier match covers the place where it starts. -/
theorem mem_occurrences_of_not_covered {first n : Nat} {front back : Line} {sp : Spelling}
    (hname : StartsClearly name) (hfirst : first ≤ n) (hsp : sp ∈ spellings name)
    (hline : (lines text)[n]? = some (front ++ (sp.text ++ back))) (hends : endsIdentifier back)
    (hstarts : name.hasSigil ∨ startsIdentifier front.reverse)
    (hcode : InCode classifier text (sp.occurrence file n front).location.range)
    (hfree : ∀ h ∈ hits (matchLen? name) (front ++ (sp.text ++ back)), ¬h.Covers front) :
    sp.occurrence file n front ∈ occurrences classifier name file text first := by
  refine mem_filtered_iff.2 ⟨?_, hcode⟩
  rcases exists_matchLen?_of_mem_spellings hname hsp back with ⟨len, info, hfind, hmatch⟩
  have hne : sp.text ++ back ≠ [] := by
    intro hnil
    exact hname.text_ne_nil hsp (List.append_eq_nil_iff.1 hnil).1
  rcases mem_hits_or_covered front hne hfind with hmem | ⟨h, hmem, hcovers⟩
  · rw [hmatch.1, List.take_left, List.drop_left] at hmem
    have hwhole : standsAlone name ⟨front.reverse, sp.text, back, info⟩ := by
      simp only [standsAlone, Bool.and_eq_true, Bool.or_eq_true]
      exact ⟨hends, hstarts⟩
    have hdrop : ((lines text).drop first)[n - first]? = some (front ++ (sp.text ++ back)) := by
      rw [List.getElem?_drop, Nat.add_sub_cancel' hfirst, hline]
    have hocc := @mem_occurrencesFrom name file first _ _ _ hdrop _
      (List.mem_filter.2 ⟨hmem, hwhole⟩)
    rw [Nat.add_sub_cancel' hfirst] at hocc
    have hstart : (⟨front.reverse, sp.text, back, info⟩ : Hit MatchForm).start = byteLen front :=
      total_perm _ front.reverse_perm
    rw [occurrenceOf_eq hsp hmatch rfl hstart] at hocc
    exact hocc
  · exact absurd hcovers (hfree h hmem)

/-- A match that covers a place has inside it the character that stands there. -/
theorem exists_spelling_of_covers {front rest : Line} {h : Hit MatchForm}
    (hmem : h ∈ hits (matchLen? name) (front ++ rest)) (hcovers : h.Covers front) :
    ∃ sp ∈ spellings name, ∃ inner c more, front = h.before.reverse ++ inner ∧ inner ≠ [] ∧
      sp.text = inner ++ c :: more ∧ rest.head? = some c ∧
      h.before.reverse ++ (sp.text ++ h.after) = front ++ rest := by
  rcases hcovers with ⟨inner, hfront, hne, hlen⟩
  have hline := line_of_mem_hitsFrom hmem
  rcases find_of_mem_hitsFrom hmem with ⟨len, hfind, htake⟩
  rcases exists_spelling_of_matchLen? hfind with ⟨sp, hsp, ⟨back, hback⟩, hmatch⟩
  have htext : h.text = sp.text := by rw [htake, hmatch.1, ← hback, List.take_left]
  rw [List.reverse_nil, List.nil_append, List.append_assoc, htext] at hline
  rw [htext] at hlen
  -- both start where the match does, and the match is the longer
  have hsame : sp.text ++ h.after = inner ++ rest := by
    rw [hfront, List.append_assoc] at hline
    exact List.append_cancel_left hline
  have hprefix : inner <+: sp.text :=
    List.prefix_of_prefix_length_le ⟨rest, rfl⟩ ⟨h.after, hsame⟩ (Nat.le_of_lt hlen)
  rcases hprefix with ⟨tail, htail⟩
  cases tail with
  | nil =>
    rw [List.append_nil] at htail
    rw [htail] at hlen
    exact absurd hlen (Nat.lt_irrefl _)
  | cons c more =>
    refine ⟨sp, hsp, inner, c, more, hfront, hne, htail.symm, ?_, hline⟩
    rw [← htail, List.append_assoc] at hsame
    rw [← List.append_cancel_left hsame]
    rfl

/-! ## The order of what is found -/

theorem location_occurrenceOf (name : SymbolName) (file : FileId) (n : Nat) (h : Hit MatchForm) :
    (occurrenceOf name file n h).location = ⟨file, .onLine n h.start h.stop⟩ := by
  unfold occurrenceOf
  cases h.info.form <;> rfl

/-- Occurrences come one after the other. -/
theorem pairwise_occurrencesFrom (name : SymbolName) (file : FileId) (n : Nat) (ls : List Line) :
    (occurrencesFrom name file n ls).Pairwise fun a b => a.location.Precedes b.location := by
  induction ls generalizing n with
  | nil => exact .nil
  | cons line more ih =>
    rw [occurrencesFrom, List.pairwise_append]
    refine ⟨?_, ih (n + 1), ?_⟩
    · rw [List.pairwise_map]
      refine ((pairwise_hits (matchLen? name) line).filter _).imp ?_
      rintro a b ⟨hstart, hstop⟩
      rw [location_occurrenceOf, location_occurrenceOf]
      exact Or.inr ⟨rfl, Or.inr ⟨rfl, hstart⟩, Or.inr ⟨rfl, hstop⟩⟩
    · -- an earlier line
      intro a ha b hb
      rcases List.mem_map.1 ha with ⟨hit, -, rfl⟩
      rcases exists_of_mem_occurrencesFrom hb with ⟨i, -, -, later, -, rfl⟩
      have hlt : n < n + 1 + i := by omega
      rw [location_occurrenceOf, location_occurrenceOf]
      exact Or.inr ⟨rfl, Or.inl hlt, Or.inl hlt⟩

theorem pairwise_occurrences (classifier : Option Classifier) (name : SymbolName) (file : FileId)
    (text : String) (first : Nat) :
    (occurrences classifier name file text first).Pairwise
      fun a b => a.location.Precedes b.location := by
  have hall := pairwise_occurrencesFrom name file first ((lines text).drop first)
  unfold occurrences
  cases classifier with
  | none => exact hall
  | some c =>
    simp only [codeOnly]
    split
    · exact hall
    · exact hall.filter _

end

end RakuAtlas.Query
