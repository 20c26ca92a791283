import RakuAtlas.Proofs.Query.Cursor
import RakuAtlas.Proofs.Query.Declared
import RakuAtlas.Proofs.Query.Exactness
import RakuAtlas.Proofs.Query.Rename

/-!
# RakuAtlas.Proofs.Query.Coverage — whether a rename edits what it was asked for

The cursor and the search have different ideas of where a name starts and ends.
The symbol under the cursor is the longest that can be read, from left to right;
the search looks for its text and then at the characters around each match.

* `not_covers_symbol`: the search comes to the place of the symbol, because no
  earlier match reaches into it;
* `exists_within_of_standsAlone` and `standsAlone_of_within`: it takes the symbol
  there if and only if the symbol stands alone;
* `exists_within_of_splitLast?`: of a qualified symbol it takes the last part, if
  nothing goes on with it.

`rename_edits_symbol` puts these together. The symbol under the cursor need not
stand alone: in `5-foo` it is `foo` (`rename_misses_symbol`).
-/

namespace RakuAtlas.Query

open Text
open RakuAtlas.Symbol (SymbolName isSigil)
open RakuAtlas.Symbol.SymbolName.splitQualified? (splitLast?)
open Lexical (Classifier)

/-! ## Ranges -/

/-- A range that lies inside another. -/
def Within (inner outer : Range) : Prop := outer.start ≤ inner.start ∧ inner.stop ≤ outer.stop

theorem within_onLine {n m a b c d : Nat} (h : Within (.onLine n a b) (.onLine m c d)) :
    n = m ∧ c ≤ a ∧ b ≤ d := by
  rcases h with ⟨hstart, hstop⟩
  rw [Pos.le_iff] at hstart hstop
  simp only [Range.onLine] at hstart hstop
  omega

theorem within_onLine_of_le {n a b c d : Nat} (hstart : c ≤ a) (hstop : b ≤ d) :
    Within (.onLine n a b) (.onLine n c d) :=
  ⟨Or.inr ⟨rfl, hstart⟩, Or.inr ⟨rfl, hstop⟩⟩

/-- Part of what is code is code. -/
theorem InCode.within {classifier : Option Classifier} {text : String} {n a b c d : Nat}
    (h : InCode classifier text (.onLine n c d)) (hstart : c ≤ a) (hstop : b ≤ d) :
    InCode classifier text (.onLine n a b) := by
  intro cl hcl pieces hpieces line hline span hspan hcls
  have hout := h cl hcl pieces hpieces line hline span hspan hcls
  simp only [Range.onLine] at hout ⊢
  omega

/-- Of two fronts of a line the one with fewer bytes is a front of the other. -/
theorem prefix_of_byteLen_le {p q line : Line} (hp : p <+: line) (hq : q <+: line)
    (h : byteLen p ≤ byteLen q) : p <+: q := by
  rcases List.prefix_or_prefix_of_prefix hp hq with hpq | ⟨more, rfl⟩
  · exact hpq
  · rw [byteLen_append] at h
    have hnil := eq_nil_of_byteLen (show byteLen more = 0 by omega)
    exact ⟨[], by rw [hnil, List.append_nil, List.append_nil]⟩

/-- A piece that stands on a line within the same piece and what leads up to it
stands at the same place, if nothing that leads up to it starts like the piece. -/
theorem same_place {p front lead piece behind back : Line} (hne : piece ≠ [])
    (hlead : ∀ c ∈ lead, piece.head? ≠ some c)
    (hsame : p ++ (piece ++ behind) = front ++ (lead ++ (piece ++ back)))
    (hstart : byteLen front ≤ byteLen p) (hstop : byteLen p ≤ byteLen (front ++ lead)) :
    p = front ++ lead ∧ behind = back := by
  have hp : p <+: front ++ lead := by
    refine prefix_of_byteLen_le ⟨_, hsame⟩ ⟨piece ++ back, ?_⟩ hstop
    rw [List.append_assoc]
  have hfront : front <+: p := prefix_of_byteLen_le ⟨_, hsame.symm⟩ ⟨_, rfl⟩ hstart
  rcases hfront with ⟨passed, rfl⟩
  rcases (List.prefix_append_right_inj front).1 hp with ⟨more, rfl⟩
  rw [List.append_assoc, List.append_assoc] at hsame
  have hrest := List.append_cancel_left (List.append_cancel_left hsame)
  cases more with
  | nil =>
    rw [List.nil_append] at hrest
    rw [List.append_nil]
    exact ⟨rfl, List.append_cancel_left hrest⟩
  | cons c more =>
    have hhead : piece.head? = some c := by
      rcases List.exists_cons_of_ne_nil hne with ⟨d, ds, rfl⟩
      rw [List.cons_append, List.cons_append, List.cons.injEq] at hrest
      rw [hrest.1]
      rfl
    exact absurd hhead (hlead c (by simp))

/-! ## Finding the symbol itself -/

/-- A name may end before a brace and start behind a colon. -/
theorem endsIdentifier_brace (back : Line) : endsIdentifier ('}' :: back) := by
  have hbrace : isIdentifierChar '}' = false := by decide +kernel
  rw [endsIdentifier.eq_def]
  simp only [hbrace]
  rfl

theorem startsIdentifier_colon (before : Line) : startsIdentifier (':' :: before) := by
  have hcolon : isIdentifierChar ':' = false := by decide +kernel
  rw [startsIdentifier, hcolon]
  rfl

/-- A symbol is one of the spellings of its name. -/
theorem exists_own_spelling (cs : Line) : ∃ sp ∈ spellings (SymbolName.parse cs), sp.text = cs := by
  have hrender := SymbolName.render_parse cs
  cases hsigil : (SymbolName.parse cs).sigil with
  | none =>
    refine ⟨.plain (SymbolName.parse cs).base, (mem_spellings_plain hsigil).2 rfl, ?_⟩
    rw [SymbolName.render, hsigil, isParsed_parse cs hsigil] at hrender
    simpa [Spelling.text, Spelling.plain] using hrender
  | some sigil =>
    cases htwigil : (SymbolName.parse cs).twigil with
    | none =>
      refine ⟨.bare sigil (SymbolName.parse cs).base,
        (mem_spellings_variable hsigil).2 (Or.inl ⟨htwigil, Or.inl rfl⟩), ?_⟩
      rw [SymbolName.render, hsigil, htwigil] at hrender
      simpa [Spelling.text, Spelling.bare] using hrender
    | some twigil =>
      refine ⟨.accessor sigil twigil (SymbolName.parse cs).base,
        (mem_spellings_variable hsigil).2 (Or.inr ⟨twigil, isTwigil_of_parse htwigil, rfl⟩), ?_⟩
      rw [SymbolName.render, hsigil, htwigil] at hrender
      simpa [Spelling.text, Spelling.accessor] using hrender

/-- No match for a symbol covers the place where the symbol is written. -/
theorem not_covers_symbol {line : Line} {hit : Hit Unit} (h : hit ∈ symbolsOn line)
    {other : Hit MatchForm} (hother : other ∈ hits (matchLen? (SymbolName.parse hit.text)) line) :
    ¬other.Covers hit.before.reverse := by
  have hline := line_of_mem_symbolsOn h
  intro hcovers
  cases hsigil : (SymbolName.parse hit.text).sigil with
  | some sigil =>
    have his := isSigil_of_parse hsigil
    have hno : sigil ∉ (SymbolName.parse hit.text).base := by
      intro hin
      exact not_isSigil_of_isName (isName_base h) sigil hin his
    rcases exists_own_spelling hit.text with ⟨sp, hsp, htext⟩
    have hmem : other ∈ hits (matchLen? (SymbolName.parse hit.text))
        (hit.before.reverse ++ (sp.text ++ hit.after)) := by
      rw [htext, ← hline]
      exact hother
    exact not_covers_variable hsigil his hno hsp hmem hcovers
  | none =>
    have hplain : (SymbolName.parse hit.text).hasSigil = false := by
      simp [SymbolName.hasSigil, hsigil]
    rw [hline] at hother
    rcases exists_spelling_of_covers hother hcovers with
      ⟨sp, hsp, inner, c, more, hfront, hne, htext, -, hsame⟩
    rw [mem_spellings_plain hsigil, base_parse_of_not_hasSigil hplain] at hsp
    -- the symbol would start inside a name that reaches into it
    have hown : hit.text = inner ++ c :: more := by
      rw [← htext, hsp]
      simp [Spelling.text, Spelling.plain]
    have hbefore : line = other.before.reverse ++ (hit.text ++ other.after) := by
      rw [hline, ← hsame, hsp]
      simp [Spelling.text, Spelling.plain]
    have hle := length_le_of_mem_symbolsOn h hbefore (isName_of_plain h hplain) hfront hne
    rw [hown, List.length_append, List.length_cons] at hle
    omega

section
variable {classifier : Option Classifier} {file : FileId} {text : String} {n first : Nat}
  {line : Line} {hit : Hit Unit}

/-- A symbol is found if it stands alone. -/
theorem exists_within_of_standsAlone (h : hit ∈ symbolsOn line)
    (hline : (lines text)[n]? = some line) (hfirst : first ≤ n)
    (hcode : InCode classifier text (.onLine n hit.start hit.stop))
    (hends : endsIdentifier hit.after)
    (hstarts : (SymbolName.parse hit.text).hasSigil ∨ startsIdentifier hit.before) :
    ∃ o ∈ occurrences classifier (SymbolName.parse hit.text) file text first,
      Within o.edit (.onLine n hit.start hit.stop) := by
  have hwhole := line_of_mem_symbolsOn h
  rcases exists_own_spelling hit.text with ⟨sp, hsp, htext⟩
  have hrange : (sp.occurrence file n hit.before.reverse).location.range =
      .onLine n hit.start hit.stop := by
    simp [Spelling.occurrence, htext, Hit.stop, hit.start_eq]
  refine ⟨sp.occurrence file n hit.before.reverse, ?_, ?_⟩
  · refine mem_occurrences_of_not_covered (startsClearly_of_isName (isName_base h)) hfirst hsp ?_
      hends ?_ ?_ ?_
    · rw [hline, htext, ← hwhole]
    · rw [List.reverse_reverse]
      exact hstarts
    · rw [hrange]
      exact hcode
    · intro other hother
      rw [htext, ← hwhole] at hother
      exact not_covers_symbol h hother
  · have hlead : byteLen sp.lead + byteLen sp.edited ≤ byteLen hit.text := by
      rw [← htext, Spelling.text]
      simp only [byteLen_append]
      omega
    apply within_onLine_of_le
    · rw [hit.start_eq, byteLen_append]
      exact Nat.le_add_right ..
    · rw [Hit.stop, hit.start_eq]
      simp only [byteLen_append]
      omega

/-- What an edit replaces in a spelling of a symbol is the end of the symbol, and
starts like nothing before it. -/
theorem exists_lead_edited (h : hit ∈ symbolsOn line) {sp : Spelling}
    (hsp : sp ∈ spellings (SymbolName.parse hit.text)) :
    ∃ lead, hit.text = lead ++ sp.edited ∧ sp.edited ≠ [] ∧
      ∀ c ∈ lead, sp.edited.head? ≠ some c := by
  rcases exists_lead_base h with ⟨lead, hlead, htext, hname⟩
  have hne : hit.text ≠ [] := by
    intro hnil
    rw [htext] at hnil
    exact hname.ne_nil (List.append_eq_nil_iff.1 hnil).2
  -- a name starts with neither a sigil nor a twigil
  have hbase : ∀ c ∈ lead, (SymbolName.parse hit.text).base.head? ≠ some c := by
    intro c hc hhead
    have hstart := hname.1
    rw [headIs, hhead] at hstart
    exact hlead.not_isNameStart_of_mem hc hstart
  have hrender := SymbolName.render_parse hit.text
  cases hsigil : (SymbolName.parse hit.text).sigil with
  | none =>
    rw [mem_spellings_plain hsigil] at hsp
    rw [SymbolName.render, hsigil, isParsed_parse _ hsigil] at hrender
    refine ⟨[], ?_, ?_, by simp⟩
    · rw [hsp]
      exact hrender.symm
    · rw [hsp]
      exact hname.ne_nil
  | some sigil =>
    rw [mem_spellings_variable hsigil] at hsp
    rcases hsp with ⟨htwigil, rfl | rfl⟩ | ⟨twigil, -, rfl⟩
    · rw [SymbolName.render, hsigil, htwigil] at hrender
      exact ⟨[], hrender.symm, by simp [Spelling.bare], by simp⟩
    · exact ⟨lead, htext, hname.ne_nil, hbase⟩
    · exact ⟨lead, htext, hname.ne_nil, hbase⟩

theorem trail_of_mem_spellings {name : SymbolName} {sp : Spelling} (h : sp ∈ spellings name) :
    sp.trail = [] ∨ sp.trail = ['}'] := by
  cases hsigil : name.sigil with
  | none =>
    rw [mem_spellings_plain hsigil] at h
    rw [h]
    exact Or.inl rfl
  | some sigil =>
    rw [mem_spellings_variable hsigil] at h
    rcases h with ⟨-, rfl | rfl⟩ | ⟨twigil, -, rfl⟩
    · exact Or.inl rfl
    · exact Or.inr rfl
    · exact Or.inl rfl

/-- If something inside a symbol is found, the symbol stands alone. -/
theorem standsAlone_of_within (h : hit ∈ symbolsOn line) (hline : (lines text)[n]? = some line)
    {o : Occurrence} (ho : IsUse classifier (SymbolName.parse hit.text) file text o)
    (hwithin : Within o.edit (.onLine n hit.start hit.stop)) :
    endsIdentifier hit.after ∧
      ((SymbolName.parse hit.text).hasSigil ∨ startsIdentifier hit.before) := by
  have hwhole := line_of_mem_symbolsOn h
  rcases ho with @⟨m, front, back, sp, hsp, hplace, hends, hstarts, -⟩
  rcases exists_lead_edited h hsp with ⟨lead, htext, hne, hlead⟩
  rcases within_onLine hwithin with ⟨rfl, hstart, hstop⟩
  rw [hit.start_eq] at hstart
  rw [Hit.stop, hit.start_eq, ← byteLen_append, htext] at hstop
  rw [hline, Option.some.injEq, hwhole, htext, Spelling.text] at hplace
  -- what is edited is the end of the symbol
  have hsame : (front ++ sp.lead) ++ (sp.edited ++ (sp.trail ++ back)) =
      hit.before.reverse ++ (lead ++ (sp.edited ++ hit.after)) := by
    simpa using hplace.symm
  have hle : byteLen (front ++ sp.lead) ≤ byteLen (hit.before.reverse ++ lead) := by
    simp only [byteLen_append] at hstop ⊢
    omega
  rcases same_place hne hlead hsame hstart hle with ⟨hfront, hafter⟩
  constructor
  · rw [← hafter]
    rcases trail_of_mem_spellings hsp with htrail | htrail
    · rw [htrail]
      exact hends
    · rw [htrail]
      exact endsIdentifier_brace back
  · rcases hstarts with hsigil | hstarts
    · exact Or.inl hsigil
    · cases hsigil : (SymbolName.parse hit.text).sigil with
      | some sigil => exact Or.inl (by simp [SymbolName.hasSigil, hsigil])
      | none =>
        -- all of a plain symbol is edited
        have hplain : (SymbolName.parse hit.text).hasSigil = false := by
          simp [SymbolName.hasSigil, hsigil]
        rw [mem_spellings_plain hsigil, base_parse_of_not_hasSigil hplain] at hsp
        rw [hsp] at htext hfront
        have hnil : lead = [] := List.self_eq_append_left.1 htext
        rw [hnil, List.append_nil] at hfront
        rw [← List.reverse_reverse hit.before, ← hfront]
        simp [Spelling.plain, hstarts]

/-- The last part of a qualified symbol is found if nothing goes on with it. -/
theorem exists_within_of_splitLast? (h : hit ∈ symbolsOn line)
    (hline : (lines text)[n]? = some line) (hfirst : first ≤ n)
    (hcode : InCode classifier text (.onLine n hit.start hit.stop))
    (hends : endsIdentifier hit.after) (hplain : (SymbolName.parse hit.text).hasSigil = false)
    {scope last : Line} (hsplit : splitLast? hit.text = some (scope, last)) :
    ∃ o ∈ occurrences classifier ⟨none, none, last⟩ file text first,
      Within o.edit (.onLine n hit.start hit.stop) := by
  have hwhole := line_of_mem_symbolsOn h
  rcases isName_of_splitLast? (isName_of_plain h hplain) hsplit with ⟨hlast, hcolon⟩
  rcases append_of_splitLast? hsplit with ⟨hcut, -⟩
  have hplace : (lines text)[n]? = some ((hit.before.reverse ++ (scope ++ [':', ':'])) ++
      ((Spelling.plain last).text ++ hit.after)) := by
    rw [hline, hwhole, hcut]
    simp [Spelling.text, Spelling.plain]
  have hbytes : byteLen hit.text = byteLen (scope ++ [':', ':']) + byteLen last := by
    rw [hcut, ← byteLen_append]
    simp
  have hrange : (Spelling.plain last).occurrence file n
      (hit.before.reverse ++ (scope ++ [':', ':'])) =
      ⟨⟨file, .onLine n (hit.start + byteLen (scope ++ [':', ':'])) hit.stop⟩,
        .onLine n (hit.start + byteLen (scope ++ [':', ':'])) hit.stop, .whole⟩ := by
    rw [Hit.stop, hbytes, hit.start_eq]
    simp [Spelling.occurrence, Spelling.plain, Spelling.text, Nat.add_assoc]
  refine ⟨_, mem_occurrences_of_not_covered (startsClearly_of_isName hlast) hfirst
    ((mem_spellings_plain rfl).2 rfl) hplace hends (Or.inr ?_) ?_ ?_, ?_⟩
  · rw [List.reverse_append, List.reverse_append]
    exact startsIdentifier_colon _
  · rw [hrange]
    exact hcode.within (Nat.le_add_right ..) (Nat.le_refl _)
  · -- an earlier match would have the colons in it
    intro other hother hcovers
    rcases exists_spelling_of_covers hother hcovers with
      ⟨sp, hsp, inner, c, more, hfront, hne, htext, -, -⟩
    rw [mem_spellings_plain rfl] at hsp
    have hlastchar := congrArg List.getLast? hfront
    rw [List.getLast?_append, List.getLast?_append, List.getLast?_append,
      List.getLast?_eq_some_getLast hne, Option.some_or] at hlastchar
    have hmem : ':' ∈ inner := by
      have hcolon : ':' = inner.getLast hne := Option.some.inj hlastchar
      rw [hcolon]
      exact List.getLast_mem hne
    apply hcolon
    rw [show last = sp.text by simp [hsp, Spelling.text, Spelling.plain], htext]
    exact List.mem_append_left _ hmem
  · rw [hrange]
    exact within_onLine_of_le (Nat.le_add_right ..) (Nat.le_refl _)

end

/-! ## Renaming the symbol itself -/

/-- Some edit of a file lies inside a range. -/
def WorkspaceEdit.EditsWithin (edit : WorkspaceEdit) (file : FileId) (range : Range) : Prop :=
  ∃ change ∈ edit.changes, change.1 = file ∧ ∃ e ∈ change.2, Within e.range range

/-- The edits of a file are those of the occurrences in it. -/
theorem editsWithin_foldl (full : String) {os : List Occurrence}
    (hsorted : os.Pairwise fun a b => a.location.Precedes b.location) (file : FileId)
    (range : Range) :
    (os.foldl (fun edit o => edit.add o.location.file (editOf full o))
        WorkspaceEdit.empty).EditsWithin file range ↔
      ∃ o ∈ os, o.location.file = file ∧ Within o.edit range := by
  have hgrouped := grouped_foldl (editOf full) hsorted
  constructor
  · rintro ⟨change, hchange, rfl, e, he, hwithin⟩
    rw [hgrouped.edits change hchange] at he
    rcases List.mem_map.1 he with ⟨o, ho, rfl⟩
    rcases List.mem_filter.1 ho with ⟨hmem, hfile⟩
    rw [range_editOf] at hwithin
    exact ⟨o, hmem, eq_of_beq hfile, hwithin⟩
  · rintro ⟨o, ho, rfl, hwithin⟩
    have hfile := (hgrouped.mem_files o.location.file).2 (List.mem_map_of_mem ho)
    rcases List.mem_map.1 hfile with ⟨change, hchange, hown⟩
    refine ⟨change, hchange, hown, editOf full o, ?_, ?_⟩
    · rw [hgrouped.edits change hchange]
      exact List.mem_map_of_mem (List.mem_filter.2 ⟨ho, beq_iff_eq.2 hown.symm⟩)
    · rw [range_editOf]
      exact hwithin

section
variable {world : World} {doc : Document} {pos : Pos} {found : SymbolAt} {refs : References}
  {history : List Index.Change}

/-- References come one after the other. -/
theorem pairwise_references [PatternLibrary] {symbol : String} {line : Nat}
    (h : referencesTo? world doc symbol line = some refs) :
    refs.occurrences.Pairwise fun a b => a.location.Precedes b.location := by
  rcases exists_of_referencesTo? h with ⟨-, -, -, -, -, found, hoccurrences, hfound⟩
  rw [hoccurrences]
  apply pairwise_deduplicate
  intro o ho
  rcases hfound o ho with ⟨first, hown⟩ | ⟨file, hother⟩
  · exact (isUse_of_mem_occurrences hown).2.start_le_stop
  · rcases mem_occurrencesIn.1 hother with ⟨text, -, hother⟩
    exact (isUse_of_mem_occurrences hother).2.start_le_stop

theorem index_scopes (hindex : world.index = Index.run history) :
    (doc.scopes world).index = some (Index.run history) := by
  rw [← hindex]
  rfl

/-- What the references to the symbol under the cursor are: for a variable what is
found in the document from its declaration on, and otherwise what is found for
the symbol or its last part in the texts that are searched. -/
theorem references_cases [PatternLibrary] (hindex : world.index = Index.run history)
    (hfound : symbolIn? doc.text pos = some found)
    (h : referencesTo? world doc (String.ofList found.text) pos.line = some refs) :
    ((SymbolName.parse found.text).hasSigil ∧ refs.symbol = String.ofList found.text ∧
      ∃ declaration, ((doc.scopes world).resolve (String.ofList found.text) pos.line).primary? =
        some declaration ∧
        ∀ o, o ∈ refs.occurrences ↔ o ∈ occurrences world.classifier
          (SymbolName.parse refs.symbol.toList) doc.table.file doc.text declaration.line) ∨
    ((SymbolName.parse found.text).hasSigil = false ∧
      (refs.symbol = String.ofList found.text ∨
        ∃ scope, splitLast? found.text = some (scope, refs.symbol.toList)) ∧
      ∀ o, o ∈ refs.occurrences ↔
        ∃ file text, searchedText? world doc refs.symbol file = some text ∧
          o ∈ occurrences world.classifier (SymbolName.parse refs.symbol.toList) file text 0) := by
  have hscopes := @index_scopes world doc history hindex
  have hchars : (String.ofList found.text).toList = found.text := String.toList_ofList
  rcases exists_of_referencesTo? h with ⟨declaration, hresolve, hsymbol, hbase, hbuilds, -⟩
  by_cases hsigil : (SymbolName.parse (String.ofList found.text).toList).hasSigil
  · rw [if_pos hsigil] at hsymbol
    rw [hsymbol] at hbase hbuilds
    rcases exists_references_variable hresolve hsigil hbase hbuilds with
      ⟨refs', hrefs, -, -, -, hmem⟩
    rw [h, Option.some.injEq] at hrefs
    subst hrefs
    rw [hchars] at hsigil
    rw [← hsymbol] at hmem
    exact Or.inl ⟨hsigil, hsymbol, declaration, hresolve, hmem⟩
  · rw [if_neg hsigil] at hsymbol
    rw [Bool.not_eq_true] at hsigil
    have hplain : (SymbolName.parse declaration.name.toList).hasSigil = false := by
      refine not_hasSigil_of_resolve ?_ hfound (by rw [← hsigil, hchars]) hresolve
      intro index hmem
      rw [hscopes, Option.mem_some] at hmem
      rw [← hmem]
      exact ⟨_, Index.image_run history⟩
    have hname := Scopes.name_of_resolve hscopes hsigil hresolve
    rw [hsymbol] at hbase hbuilds
    rcases exists_references_plain hresolve hsigil hplain hbase hbuilds with
      ⟨refs', hrefs, -, -, -, hmem⟩
    rw [h, Option.some.injEq] at hrefs
    subst hrefs
    rw [hchars] at hsigil hname
    rw [← hsymbol] at hmem hname
    exact Or.inr ⟨hsigil, hname, hmem⟩

/-- The symbol under the cursor is searched for itself, unless it is plain and
qualified and its last part is searched for. -/
theorem symbol_cases [PatternLibrary] (hindex : world.index = Index.run history)
    (hfound : symbolIn? doc.text pos = some found)
    (h : referencesTo? world doc (String.ofList found.text) pos.line = some refs) :
    refs.symbol = String.ofList found.text ∨ (SymbolName.parse found.text).hasSigil = false ∧
      ∃ scope, splitLast? found.text = some (scope, refs.symbol.toList) := by
  rcases references_cases hindex hfound h with ⟨-, hsame, -⟩ | ⟨hplain, hsame | hsplit, -⟩
  · exact Or.inl hsame
  · exact Or.inl hsame
  · exact Or.inr ⟨hplain, hsplit⟩

/-- In the document, references are what is found from some line on that is not
behind the symbol. -/
theorem exists_first_of_references [PatternLibrary] (hindex : world.index = Index.run history)
    (himports : ∀ entry ∈ doc.table.imports, HasNoSigil entry.1)
    (hfound : symbolIn? doc.text pos = some found)
    (h : referencesTo? world doc (String.ofList found.text) pos.line = some refs) :
    ∃ first ≤ pos.line, ∀ o, o ∈ refs.occurrences ∧ o.location.file = doc.table.file ↔
      o ∈ occurrences world.classifier (SymbolName.parse refs.symbol.toList) doc.table.file
        doc.text first := by
  rcases references_cases hindex hfound h with
    ⟨hsigil, -, declaration, hresolve, hmem⟩ | ⟨-, -, hmem⟩
  · refine ⟨declaration.line, ?_, ?_⟩
    · refine Scopes.line_le_of_resolve (index_scopes hindex) himports ?_ hresolve
      rw [String.toList_ofList]
      exact hsigil
    · intro o
      rw [hmem]
      exact and_iff_left_of_imp file_of_mem_occurrences
  · refine ⟨0, Nat.zero_le _, ?_⟩
    intro o
    rw [hmem]
    constructor
    · rintro ⟨⟨file, text, htext, ho⟩, hfile⟩
      rw [file_of_mem_occurrences ho] at hfile
      rw [searchedText?, if_pos hfile, Option.some.injEq] at htext
      rw [← hfile, htext]
      exact ho
    · intro ho
      exact ⟨⟨doc.table.file, doc.text, if_pos rfl, ho⟩, file_of_mem_occurrences ho⟩

end

/-- What a rename does to the symbol that it was asked for. If the symbol itself is
searched for, it is edited if it stands alone as the search has it: nothing goes
on with it, and a plain symbol goes on with nothing before it. If its last part
is searched for, it is edited if nothing goes on with it. -/
theorem rename_edits_symbol [PatternLibrary] {world : World} {doc : Document} {pos : Pos}
    {newName : String} {edit : WorkspaceEdit} {found : SymbolAt} {history : List Index.Change}
    {text : String} {mode : ParseMode} {classifier : Option Classifier}
    (hindex : world.index = Index.run history)
    (htable : doc.table = Table.parse doc.table.file text mode classifier)
    (hfound : symbolIn? doc.text pos = some found)
    (hcode : InCode world.classifier doc.text found.range)
    (h : rename world doc pos newName = .ok (some edit)) :
    ∃ refs front back, referencesAt? world doc pos = some refs ∧
      (lines doc.text)[pos.line]? = some (front ++ (found.text ++ back)) ∧
      found.range = .onLine pos.line (byteLen front) (byteLen (front ++ found.text)) ∧
      (refs.symbol = String.ofList found.text →
        (edit.EditsWithin doc.table.file found.range ↔ endsIdentifier back ∧
          ((SymbolName.parse found.text).hasSigil ∨ startsIdentifier front.reverse))) ∧
      (refs.symbol ≠ String.ofList found.text → endsIdentifier back →
        edit.EditsWithin doc.table.file found.range) := by
  rcases exists_of_symbolIn? hfound with ⟨line, hit, hline, hhit, rfl⟩
  rcases exists_of_rename h with ⟨found, full, refs, hsame, -, hrefs, rfl⟩
  rw [hfound, Option.some.injEq] at hsame
  subst hsame
  have hto : referencesTo? world doc (String.ofList hit.text) pos.line = some refs := by
    rw [← hrefs, referencesAt?_eq hfound]
  have himports : ∀ entry ∈ doc.table.imports, HasNoSigil entry.1 := by
    intro entry hentry
    rw [htable] at hentry
    exact Table.hasNoSigil_of_mem_imports hentry
  have hwhole := line_of_mem_symbolsOn hhit
  rcases exists_first_of_references hindex himports hfound hto with ⟨first, hfirst, hmem⟩
  -- the edits of the document are those of what is found in it
  have hedits : (refs.occurrences.foldl (fun edit o => edit.add o.location.file (editOf full o))
      WorkspaceEdit.empty).EditsWithin doc.table.file (.onLine pos.line hit.start hit.stop) ↔
      ∃ o ∈ occurrences world.classifier (SymbolName.parse refs.symbol.toList) doc.table.file
        doc.text first, Within o.edit (.onLine pos.line hit.start hit.stop) := by
    rw [editsWithin_foldl full (pairwise_references hto)]
    refine exists_congr fun o => ?_
    rw [← and_assoc, hmem]
  refine ⟨refs, hit.before.reverse, hit.after, hrefs, ?_, ?_, ?_, ?_⟩
  · rw [hline, ← hwhole]
  · rw [Hit.stop, hit.start_eq, byteLen_append]
  · intro hsymbol
    rw [hedits, hsymbol, String.toList_ofList, List.reverse_reverse]
    constructor
    · rintro ⟨o, ho, hwithin⟩
      exact standsAlone_of_within hhit hline (isUse_of_mem_occurrences ho).2 hwithin
    · rintro ⟨hends, hstarts⟩
      exact exists_within_of_standsAlone hhit hline hfirst hcode hends hstarts
  · intro hsymbol hends
    rcases symbol_cases hindex hfound hto with hsame | ⟨hplain, scope, hsplit⟩
    · exact absurd hsame hsymbol
    · have hlast := (isName_of_splitLast? (isName_of_plain hhit hplain) hsplit).1
      rw [hedits, parse_of_isName hlast]
      exact exists_within_of_splitLast? hhit hline hfirst hcode hends hplain hsplit

theorem foundFor_soleWorld (doc : Document) (name : SymbolName) (key : String) :
    foundFor soleWorld doc name key =
      occurrences (some .raku) name doc.table.file doc.text 0 := by
  have hfiles : soleWorld.index.filesDeclaring key = [] := by
    simp [soleWorld, Index.filesDeclaring, Index.find, Index.empty, Index.symbolsUnder]
  rw [foundFor, hfiles, List.filter_nil, List.flatMap_nil, List.append_nil]
  rfl

/-! A method that is called by its qualified name. -/

def qualifiedText : String := "class Foo \x7b\n  method bar \x7b \x7d\n\x7d\nFoo::bar;"

def qualifiedBar : Symbol := ⟨"bar", .method, ⟨0⟩, 1, 1, "Foo", [], none, .parsing⟩

def qualifiedDoc : Document :=
  ⟨⟨⟨0⟩, [⟨"Foo", .classDecl, ⟨0⟩, 0, 2, "", [], none, .parsing⟩, qualifiedBar], []⟩,
    qualifiedText⟩

theorem symbolIn?_qualified :
    symbolIn? qualifiedText ⟨3, 5⟩ = some ⟨"Foo::bar".toList, .onLine 3 0 8⟩ := by
  decide +kernel

theorem references_qualified :
    referencesAt? soleWorld qualifiedDoc ⟨3, 5⟩ = some ⟨"bar", qualifiedBar,
      [⟨⟨⟨0⟩, .onLine 1 9 12⟩, .onLine 1 9 12, .whole⟩,
        ⟨⟨⟨0⟩, .onLine 3 5 8⟩, .onLine 3 5 8, .whole⟩]⟩ := by
  have hresolve : ((qualifiedDoc.scopes soleWorld).resolve "Foo::bar" 3).primary? =
      some qualifiedBar := by
    decide +kernel
  have hfound : occurrences (some .raku) (.parse "bar".toList) ⟨0⟩ qualifiedText 0 =
      [⟨⟨⟨0⟩, .onLine 1 9 12⟩, .onLine 1 9 12, .whole⟩,
        ⟨⟨⟨0⟩, .onLine 3 5 8⟩, .onLine 3 5 8, .whole⟩] := by
    decide +kernel
  have hto := referencesTo?_plain hresolve (by decide) (by decide) (by decide) (by decide)
  rw [foundFor_soleWorld, show qualifiedBar.name = "bar" from rfl,
    show qualifiedDoc.text = qualifiedText from rfl, show qualifiedDoc.table.file = ⟨0⟩ from rfl,
    hfound, deduplicate, List.mergeSort_of_pairwise (by decide +kernel)] at hto
  rw [@referencesAt?_eq _ soleWorld qualifiedDoc ⟨3, 5⟩ _ symbolIn?_qualified]
  show referencesTo? soleWorld qualifiedDoc (String.ofList "Foo::bar".toList) 3 = _
  rw [String.ofList_toList, hto]
  rfl

def qualifiedEdit : WorkspaceEdit :=
  ⟨[(⟨0⟩, [⟨.onLine 1 9 12, "baz"⟩, ⟨.onLine 3 5 8, "baz"⟩])]⟩

theorem rename_qualified :
    rename soleWorld qualifiedDoc ⟨3, 5⟩ "baz" = .ok (some qualifiedEdit) := by
  have hallowed : refusal? "Foo::bar".toList = none := by decide +kernel
  have hfull : normalizeNewName (String.ofList "Foo::bar".toList) "baz" = .ok "baz" := by
    decide +kernel
  rw [@rename_eq _ soleWorld qualifiedDoc ⟨3, 5⟩ "baz" _ _ _ symbolIn?_qualified hallowed hfull
    references_qualified (by simp)]
  rfl

/-- A range is in code if the filter keeps it. -/
theorem inCode_of_mem_codeOnly {classifier : Classifier} {text : String} {o : Occurrence}
    (h : o ∈ codeOnly classifier (lines text) [o]) :
    InCode (some classifier) text o.location.range := by
  rcases (@mem_filtered_iff (some classifier) text [o] o).1 h with ⟨-, hcode⟩
  exact hcode

/-- The last part of the qualified name is edited. -/
theorem rename_edits_qualified :
    rename soleWorld qualifiedDoc ⟨3, 5⟩ "baz" = .ok (some qualifiedEdit) ∧
      qualifiedEdit.EditsWithin ⟨0⟩ (.onLine 3 0 8) := by
  have hindex : soleWorld.index = Index.run [] := rfl
  have htable : qualifiedDoc.table = Table.parse ⟨0⟩ qualifiedText .navigation (some .raku) := by
    decide +kernel
  have hcode : InCode (some .raku) qualifiedText (.onLine 3 0 8) :=
    @inCode_of_mem_codeOnly .raku _ ⟨⟨⟨0⟩, .onLine 3 0 8⟩, .onLine 3 0 8, .whole⟩
      (by decide +kernel)
  refine ⟨rename_qualified, ?_⟩
  rcases rename_edits_symbol hindex htable symbolIn?_qualified hcode rename_qualified with
    ⟨refs, front, back, hrefs, hline, hrange, -, hlast⟩
  rw [references_qualified, Option.some.injEq] at hrefs
  subst hrefs
  -- the symbol is at the start of its line, and a semicolon follows
  have hbytes : 0 = byteLen front := congrArg (·.start.col) hrange
  have hplace : (lines qualifiedText)[3]? = some ("Foo::bar".toList ++ [';']) := by decide +kernel
  have hsame := hline.symm.trans hplace
  rw [eq_nil_of_byteLen hbytes.symm, List.nil_append, Option.some.injEq] at hsame
  have hback : back = [';'] := List.append_cancel_left hsame
  exact hlast (by decide) (by rw [hback]; decide +kernel)

/-! A name behind a number and a hyphen. The cursor is on the name, but the search
takes it for the rest of a longer one. -/

def differenceText : String := "sub foo \x7b 1 \x7d\nsay 5-foo;"

def differenceDoc : Document := ⟨⟨⟨0⟩, [.onLine "foo" .sub ⟨0⟩ 0], []⟩, differenceText⟩

def differenceEdit : WorkspaceEdit := ⟨[(⟨0⟩, [⟨.onLine 0 4 7, "bar"⟩])]⟩

theorem rename_difference :
    rename soleWorld differenceDoc ⟨1, 6⟩ "bar" = .ok (some differenceEdit) := by
  have hsymbol : symbolIn? differenceText ⟨1, 6⟩ = some ⟨"foo".toList, .onLine 1 6 9⟩ := by
    decide +kernel
  have hallowed : refusal? "foo".toList = none := by decide +kernel
  have hfull : normalizeNewName (String.ofList "foo".toList) "bar" = .ok "bar" := by
    decide +kernel
  have hrefs : referencesAt? soleWorld differenceDoc ⟨1, 6⟩ = some ⟨"foo",
      .onLine "foo" .sub ⟨0⟩ 0, [⟨⟨⟨0⟩, .onLine 0 4 7⟩, .onLine 0 4 7, .whole⟩]⟩ := by
    decide +kernel
  rw [@rename_eq _ soleWorld differenceDoc ⟨1, 6⟩ "bar" _ _ _ hsymbol hallowed hfull hrefs
    (by simp)]
  rfl

/-- The rename edits the declaration, but not the symbol under the cursor. -/
theorem rename_misses_symbol :
    differenceDoc.table = Table.parse ⟨0⟩ differenceText .navigation (some .raku) ∧
      symbolIn? differenceText ⟨1, 6⟩ = some ⟨"foo".toList, .onLine 1 6 9⟩ ∧
      InCode (some .raku) differenceText (.onLine 1 6 9) ∧
      rename soleWorld differenceDoc ⟨1, 6⟩ "bar" = .ok (some differenceEdit) ∧
      ¬differenceEdit.EditsWithin ⟨0⟩ (.onLine 1 6 9) := by
  have hcode : InCode (some .raku) differenceText (.onLine 1 6 9) :=
    @inCode_of_mem_codeOnly .raku _ ⟨⟨⟨0⟩, .onLine 1 6 9⟩, .onLine 1 6 9, .whole⟩
      (by decide +kernel)
  refine ⟨by decide +kernel, by decide +kernel, hcode, rename_difference, ?_⟩
  rintro ⟨change, hchange, -, e, he, hwithin⟩
  rw [List.mem_singleton.1 hchange] at he
  rw [List.mem_singleton.1 he] at hwithin
  rcases within_onLine hwithin with ⟨hline, -⟩
  cases hline

end RakuAtlas.Query
