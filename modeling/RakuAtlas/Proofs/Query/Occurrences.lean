import RakuAtlas.Proofs.Query.Deduplicate
import RakuAtlas.Proofs.Query.Spellings
import RakuAtlas.Proofs.Text.Lines
import RakuAtlas.Proofs.Text.Search

/-!
# RakuAtlas.Proofs.Query.Occurrences — what stands at an occurrence

An occurrence that the search finds is on one line of the text, and the part of
it that an edit would replace is the name as searched for, or its base
(`writtenIn_of_mem_occurrences`). This is a property of the search alone and
does not depend on how the name was resolved.
-/

namespace RakuAtlas.Query

open Text
open RakuAtlas.Symbol (SymbolName isSigil)
open Lexical (Classifier)

/-! ## Matches -/

/-- A name without a sigil has no twigil either, as names that were taken apart
do not. -/
def IsParsed (name : SymbolName) : Prop := name.sigil = none → name.twigil = none

/-- A symbol that starts with a sigil has that one. -/
theorem sigil_parse_cons {c : Char} (hc : isSigil c) (cs : List Char) :
    (SymbolName.parse (c :: cs)).sigil = some c := by
  simp only [SymbolName.parse, hc, if_true]
  split
  · split <;> rfl
  · rfl

/-- A symbol that does not start with a sigil is all base. -/
theorem parse_of_head {cs : List Char} (h : ∀ c ∈ cs.head?, ¬isSigil c) :
    SymbolName.parse cs = ⟨none, none, cs⟩ := by
  cases cs with
  | nil => rfl
  | cons c cs =>
    have hc : ¬isSigil c := h c rfl
    simp [SymbolName.parse, hc]

theorem isParsed_parse (cs : List Char) : IsParsed (SymbolName.parse cs) := by
  intro hsigil
  rw [parse_of_head]
  intro c hc hsig
  rcases List.head?_eq_some_iff.1 hc with ⟨rest, rfl⟩
  rw [sigil_parse_cons hsig] at hsigil
  cases hsigil

/-- What a match takes: all of the name, or its base behind two characters. -/
def Takes (name : SymbolName) (form : MatchForm) (taken : Line) : Prop :=
  form.form = .whole ∧ taken = name.render ∨
    form.form = .baseOnly ∧ name.hasSigil ∧
      ∃ lead trail, taken = lead ++ (name.base ++ trail) ∧ lead.length = form.lead

/-- Every match takes all of the name or its base. -/
theorem takes_of_matchLen? {name : SymbolName} (hname : IsParsed name) {cs : Line} {len : Nat}
    {form : MatchForm} (h : matchLen? name cs = some (len, form)) :
    Takes name form (cs.take len) := by
  rcases exists_spelling_of_matchLen? h with ⟨sp, hsp, ⟨back, rfl⟩, rfl, hform, hlead⟩
  rw [List.take_left]
  cases hsigil : name.sigil with
  | none =>
    rw [mem_spellings_plain hsigil] at hsp
    subst hsp
    refine Or.inl ⟨hform, ?_⟩
    simp [Spelling.text, Spelling.plain, SymbolName.render, hsigil, hname hsigil]
  | some sigil =>
    have hvariable : name.hasSigil := by simp [SymbolName.hasSigil, hsigil]
    rw [mem_spellings_variable hsigil] at hsp
    rcases hsp with ⟨htwigil, rfl | rfl⟩ | ⟨twigil, -, rfl⟩
    · refine Or.inl ⟨hform, ?_⟩
      simp [Spelling.text, Spelling.bare, SymbolName.render, hsigil, htwigil]
    · exact Or.inr ⟨hform, hvariable, [sigil, '{'], ['}'], rfl, (hlead rfl).symm⟩
    · exact Or.inr ⟨hform, hvariable, [sigil, twigil], [], rfl, (hlead rfl).symm⟩

/-! ## Occurrences -/

/-- What an edit of an occurrence replaces: all of the name, or its base. -/
def Replaces (name : SymbolName) (o : Occurrence) (old : Line) : Prop :=
  o.form = .whole ∧ old = name.render ∨ o.form = .baseOnly ∧ name.hasSigil ∧ old = name.base

/-- An occurrence is on one line of the text, and what its edit replaces is
written there. -/
def WrittenIn (name : SymbolName) (text : String) (o : Occurrence) : Prop :=
  ∃ n line front old back, (lines text)[n]? = some line ∧ line = front ++ (old ++ back) ∧
    o.edit = .onLine n (byteLen front) (byteLen (front ++ old)) ∧ Replaces name o old ∧
    ∃ start stop, o.location.range = .onLine n start stop ∧ start ≤ byteLen front ∧
      byteLen (front ++ old) ≤ stop

/-- The occurrence of a match is written where the match is. -/
theorem writtenIn_occurrenceOf {name : SymbolName} (hname : IsParsed name) {text : String}
    {n : Nat} {line : Line} (hline : (lines text)[n]? = some line) (file : FileId)
    {h : Hit MatchForm} (hmem : h ∈ matchesOn name line) :
    WrittenIn name text (occurrenceOf name file n h) := by
  rcases exists_of_mem_hits (List.mem_filter.1 hmem).1 with ⟨front, len, hsplit, hstart, hfind, htake⟩
  have htakes := takes_of_matchLen? hname hfind
  rw [← htake] at htakes
  rcases htakes with ⟨hform, htext⟩ | ⟨hform, hsigil, lead, trail, htext, hlead⟩
  · -- all of the match is replaced
    refine ⟨n, line, front, h.text, h.after, hline, hsplit, ?_, ?_, h.start, h.stop, ?_, ?_, ?_⟩
    · simp [occurrenceOf, hform, hstart, Hit.stop]
    · exact Or.inl ⟨by simp [occurrenceOf, hform], htext⟩
    · simp [occurrenceOf, hform]
    · exact Nat.le_of_eq hstart
    · simp [Hit.stop, hstart]
  · -- only the base is replaced, behind what leads up to it
    have hbase : h.text.take h.info.lead = lead := by rw [htext, ← hlead, List.take_left]
    refine ⟨n, line, front ++ lead, name.base, trail ++ h.after, hline, ?_, ?_, ?_,
      h.start, h.stop, ?_, ?_, ?_⟩
    · rw [hsplit, htext]
      simp
    · simp [occurrenceOf, hform, hstart, hbase, Nat.add_assoc]
    · exact Or.inr ⟨by simp [occurrenceOf, hform], hsigil, rfl⟩
    · simp [occurrenceOf, hform]
    · rw [hstart, byteLen_append]
      omega
    · rw [Hit.stop, hstart, htext]
      simp only [byteLen_append]
      omega

theorem exists_of_mem_occurrencesFrom {name : SymbolName} {file : FileId} {n : Nat}
    {ls : List Line} {o : Occurrence} (h : o ∈ occurrencesFrom name file n ls) :
    ∃ i line, ls[i]? = some line ∧ ∃ hit ∈ matchesOn name line,
      o = occurrenceOf name file (n + i) hit := by
  induction ls generalizing n with
  | nil => simp [occurrencesFrom] at h
  | cons line more ih =>
    rcases List.mem_append.1 h with hhere | hlater
    · rcases List.mem_map.1 hhere with ⟨hit, hhit, rfl⟩
      exact ⟨0, line, rfl, hit, hhit, rfl⟩
    · rcases ih hlater with ⟨i, other, hother, hit, hhit, rfl⟩
      exact ⟨i + 1, other, hother, hit, hhit, by rw [Nat.add_assoc, Nat.add_comm 1 i]⟩

/-- Filtering keeps only some of the occurrences. -/
theorem mem_of_mem_codeOnly {classifier : Classifier} {ls : List Line} {found : List Occurrence}
    {o : Occurrence} (h : o ∈ codeOnly classifier ls found) : o ∈ found := by
  unfold codeOnly at h
  split at h
  · exact h
  · exact (List.mem_filter.1 h).1

/-- What the search finds in a text is written there. -/
theorem writtenIn_of_mem_occurrences {classifier : Option Classifier} {name : SymbolName}
    (hname : IsParsed name) {file : FileId} {text : String} {firstLine : Nat} {o : Occurrence}
    (h : o ∈ occurrences classifier name file text firstLine) :
    o.location.file = file ∧ WrittenIn name text o := by
  have hmem : o ∈ occurrencesFrom name file firstLine ((lines text).drop firstLine) := by
    unfold occurrences at h
    cases classifier with
    | none => exact h
    | some c => exact mem_of_mem_codeOnly h
  rcases exists_of_mem_occurrencesFrom hmem with ⟨i, line, hline, hit, hhit, rfl⟩
  rw [List.getElem?_drop] at hline
  refine ⟨?_, writtenIn_occurrenceOf hname hline file hhit⟩
  unfold occurrenceOf
  cases hit.info.form <;> rfl

end RakuAtlas.Query
