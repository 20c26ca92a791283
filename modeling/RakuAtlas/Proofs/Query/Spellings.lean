import Mathlib.Data.List.Basic
import RakuAtlas.Query.Occurrence

/-!
# RakuAtlas.Proofs.Query.Spellings — how a name is written

`spellings` lists how a name may be written, with the part of each spelling that
an edit replaces. The search agrees with the list:

* `exists_spelling_of_matchLen?`: a match is a spelling of the name;
* `exists_matchLen?_of_mem_spellings`: every spelling matches, if the name does
  not itself start like a brace or a twigil.
-/

namespace RakuAtlas.Text

theorem eq_cons_of_afterChar? {c : Char} {cs rest : Line} (hrest : afterChar? c cs = some rest) :
    cs = c :: rest := by
  unfold afterChar? at hrest
  split at hrest
  · split at hrest
    · next heq =>
      cases hrest
      rw [heq]
    · cases hrest
  · cases hrest

end RakuAtlas.Text

namespace RakuAtlas.Query

open Text
open RakuAtlas.Symbol (SymbolName isTwigil)

/-! ## How a name is written -/

/-- A way to write a name: what an edit replaces, with what stands before it and
behind it. -/
structure Spelling where
  lead : Line
  edited : Line
  trail : Line
  form : EditForm
deriving DecidableEq, Repr

namespace Spelling

/-- All that is written. -/
def text (s : Spelling) : Line := s.lead ++ (s.edited ++ s.trail)

/-- The occurrence of a spelling on a line, behind `front`. -/
def occurrence (s : Spelling) (file : FileId) (n : Nat) (front : Line) : Occurrence :=
  ⟨⟨file, .onLine n (byteLen front) (byteLen (front ++ s.text))⟩,
    .onLine n (byteLen (front ++ s.lead)) (byteLen (front ++ (s.lead ++ s.edited))), s.form⟩

/-- A plain name, as in `foo`. -/
def plain (base : Line) : Spelling := ⟨[], base, [], .whole⟩

/-- A variable, as in `$foo`. -/
def bare (sigil : Char) (base : Line) : Spelling := ⟨[], sigil :: base, [], .whole⟩

/-- A variable in braces behind its sigil, as in a text that is filled in. -/
def braced (sigil : Char) (base : Line) : Spelling := ⟨[sigil, '{'], base, ['}'], .baseOnly⟩

/-- An attribute, as in `$.foo` and `$!foo`. -/
def accessor (sigil twigil : Char) (base : Line) : Spelling := ⟨[sigil, twigil], base, [], .baseOnly⟩

end Spelling

open Spelling in
/-- The spellings of a name. A variable with a twigil is written as an attribute
only. -/
def spellings (name : SymbolName) : List Spelling :=
  match name.sigil with
  | none => [plain name.base]
  | some sigil =>
    let accessors := [accessor sigil '.' name.base, accessor sigil '!' name.base]
    if name.twigil.isSome then accessors
    else bare sigil name.base :: braced sigil name.base :: accessors

theorem mem_spellings_plain {name : SymbolName} (hsigil : name.sigil = none) {sp : Spelling} :
    sp ∈ spellings name ↔ sp = .plain name.base := by
  simp [spellings, hsigil]

theorem mem_spellings_variable {name : SymbolName} {sigil : Char} (hsigil : name.sigil = some sigil)
    {sp : Spelling} :
    sp ∈ spellings name ↔
      (name.twigil = none ∧ (sp = .bare sigil name.base ∨ sp = .braced sigil name.base)) ∨
        ∃ twigil, isTwigil twigil ∧ sp = .accessor sigil twigil name.base := by
  have htwigils : ∀ twigil, isTwigil twigil ↔ twigil = '.' ∨ twigil = '!' := by simp [isTwigil]
  cases htwigil : name.twigil with
  | none => simp [spellings, hsigil, htwigil, htwigils, or_assoc]
  | some twigil => simp [spellings, hsigil, htwigil, htwigils]

/-! ## Matches -/

/-- A match as the search reports it is this spelling. -/
def Spelling.IsMatch (s : Spelling) (len : Nat) (info : MatchForm) : Prop :=
  len = s.text.length ∧ info.form = s.form ∧ (s.form = .baseOnly → info.lead = s.lead.length)

section
variable {name : SymbolName} {sigil : Char} {rest : Line} {len : Nat} {info : MatchForm}

theorem exists_spelling_of_attribute? (hsigil : name.sigil = some sigil)
    (h : attribute? name.base rest = some (len, info)) :
    ∃ sp ∈ spellings name, sp.text <+: sigil :: rest ∧ sp.IsMatch len info := by
  cases rest with
  | nil => cases h
  | cons twigil more =>
    simp only [attribute?] at h
    split at h
    · next hboth =>
      cases h
      rw [Bool.and_eq_true, List.isPrefixOf_iff_prefix] at hboth
      refine ⟨.accessor sigil twigil name.base,
        (mem_spellings_variable hsigil).2 (Or.inr ⟨twigil, hboth.1, rfl⟩), ?_, ?_⟩
      · simpa [Spelling.text, Spelling.accessor] using hboth.2
      · exact ⟨by simp [Spelling.text, Spelling.accessor], rfl, fun _ => rfl⟩
    · cases h

theorem exists_spelling_of_braced? (hsigil : name.sigil = some sigil) (htwigil : name.twigil = none)
    (h : braced? name.base rest = some (len, info)) :
    ∃ sp ∈ spellings name, sp.text <+: sigil :: rest ∧ sp.IsMatch len info := by
  simp only [braced?, Option.bind_eq_bind, Option.bind_eq_some_iff] at h
  rcases h with ⟨behind, hopen, inner, hbase, more, hclose, hinfo⟩
  cases hinfo
  refine ⟨.braced sigil name.base,
    (mem_spellings_variable hsigil).2 (Or.inl ⟨htwigil, Or.inr rfl⟩), ⟨more, ?_⟩, ?_⟩
  · -- the brace, the base, the closing brace and what follows
    rw [eq_cons_of_afterChar? hopen, ← List.append_eq_of_isPrefixOf?_eq_some hbase,
      eq_cons_of_afterChar? hclose]
    simp [Spelling.text, Spelling.braced]
  · exact ⟨by simp [Spelling.text, Spelling.braced], rfl, fun _ => rfl⟩

theorem exists_spelling_of_bare? (hsigil : name.sigil = some sigil) (htwigil : name.twigil = none)
    (h : bare? name.base rest = some (len, info)) :
    ∃ sp ∈ spellings name, sp.text <+: sigil :: rest ∧ sp.IsMatch len info := by
  unfold bare? at h
  split at h
  · next hbase =>
    cases h
    refine ⟨.bare sigil name.base,
      (mem_spellings_variable hsigil).2 (Or.inl ⟨htwigil, Or.inl rfl⟩), ?_, ?_⟩
    · simpa [Spelling.text, Spelling.bare] using List.isPrefixOf_iff_prefix.1 hbase
    · exact ⟨by simp [Spelling.text, Spelling.bare], rfl, by simp [Spelling.bare]⟩
  · cases h

end

/-- A match is a spelling of the name. -/
theorem exists_spelling_of_matchLen? {name : SymbolName} {cs : Line} {len : Nat} {info : MatchForm}
    (h : matchLen? name cs = some (len, info)) :
    ∃ sp ∈ spellings name, sp.text <+: cs ∧ sp.IsMatch len info := by
  unfold matchLen? at h
  split at h
  · next hsigil =>
    split at h
    · next hbase =>
      cases h
      refine ⟨.plain name.base, (mem_spellings_plain hsigil).2 rfl, ?_, ?_⟩
      · simpa [Spelling.text, Spelling.plain] using List.isPrefixOf_iff_prefix.1 hbase
      · exact ⟨by simp [Spelling.text, Spelling.plain], rfl, by simp [Spelling.plain]⟩
    · cases h
  · next sigil hsigil =>
    split at h
    · cases h
    · next rest hrest =>
      rw [eq_cons_of_afterChar? hrest]
      split at h
      · exact exists_spelling_of_attribute? hsigil h
      · next htwigil =>
        rw [Option.not_isSome_iff_eq_none] at htwigil
        rcases Option.or_eq_some_iff.1 h with hbraced | ⟨-, h⟩
        · exact exists_spelling_of_braced? hsigil htwigil hbraced
        · rcases Option.or_eq_some_iff.1 h with hattribute | ⟨-, hbare⟩
          · exact exists_spelling_of_attribute? hsigil hattribute
          · exact exists_spelling_of_bare? hsigil htwigil hbare

/-- The name starts with a character that neither a brace nor a twigil is, so
that at most one of its spellings stands at a place. -/
def StartsClearly (name : SymbolName) : Prop :=
  ∃ c rest, name.base = c :: rest ∧ c ≠ '{' ∧ isTwigil c = false

theorem StartsClearly.text_ne_nil {name : SymbolName} (h : StartsClearly name) {sp : Spelling}
    (hsp : sp ∈ spellings name) : sp.text ≠ [] := by
  rcases h with ⟨c, rest, hbase, -⟩
  cases hsigil : name.sigil with
  | none =>
    rw [mem_spellings_plain hsigil] at hsp
    simp [hsp, Spelling.text, Spelling.plain, hbase]
  | some sigil =>
    rw [mem_spellings_variable hsigil] at hsp
    rcases hsp with ⟨-, rfl | rfl⟩ | ⟨twigil, -, rfl⟩
    · simp [Spelling.text, Spelling.bare]
    · simp [Spelling.text, Spelling.braced]
    · simp [Spelling.text, Spelling.accessor]

/-- Every spelling of the name matches, whatever stands behind it. -/
theorem exists_matchLen?_of_mem_spellings {name : SymbolName} (hname : StartsClearly name)
    {sp : Spelling} (hsp : sp ∈ spellings name) (back : Line) :
    ∃ len info, matchLen? name (sp.text ++ back) = some (len, info) ∧ sp.IsMatch len info := by
  rcases hname with ⟨c, rest, hbase, hbrace, htwigil⟩
  cases hsigil : name.sigil with
  | none =>
    rw [mem_spellings_plain hsigil] at hsp
    subst hsp
    refine ⟨name.base.length, ⟨0, .whole⟩, ?_, by simp [Spelling.text, Spelling.plain], rfl,
      by simp [Spelling.plain]⟩
    simp [matchLen?, hsigil, Spelling.text, Spelling.plain]
  | some sigil =>
    rw [mem_spellings_variable hsigil] at hsp
    rcases hsp with ⟨hnone, rfl | rfl⟩ | ⟨twigil, his, rfl⟩
    · -- neither a brace nor a twigil follows the sigil
      refine ⟨name.base.length + 1, ⟨1, .whole⟩, ?_, by simp [Spelling.text, Spelling.bare], rfl,
        by simp [Spelling.bare]⟩
      have hno : '{' ≠ c := fun h => hbrace h.symm
      simp [matchLen?, hsigil, hnone, Spelling.text, Spelling.bare, hbase, afterChar?, braced?,
        attribute?, bare?, hno, htwigil]
    · refine ⟨name.base.length + 3, ⟨2, .baseOnly⟩, ?_, by simp [Spelling.text, Spelling.braced],
        rfl, fun _ => rfl⟩
      have hinner : name.base.isPrefixOf? (name.base ++ '}' :: back) = some ('}' :: back) := by
        rw [List.isPrefixOf?_eq_some_iff_append_eq]
      simp [matchLen?, hsigil, hnone, Spelling.text, Spelling.braced, afterChar?, braced?, hinner]
    · refine ⟨name.base.length + 2, ⟨2, .baseOnly⟩, ?_, by simp [Spelling.text, Spelling.accessor],
        rfl, fun _ => rfl⟩
      have hno : '{' ≠ twigil := by
        rintro rfl
        revert his
        decide
      cases name.twigil <;>
        simp [matchLen?, hsigil, Spelling.text, Spelling.accessor, afterChar?, braced?, attribute?,
          hno, his]

end RakuAtlas.Query
