import RakuAtlas.Proofs.Query.Hits
import RakuAtlas.Proofs.Query.Names
import RakuAtlas.Proofs.Text.Joined

/-!
# RakuAtlas.Proofs.Query.Cursor — the symbol under the cursor

A symbol on a line is a name behind its sigil and twigil, and it is as long as it
can be.

* `exists_lead_base`: the base of a symbol is a whole name;
* `reaches_of_mem_symbolsOn`: a symbol that takes in the first character of a
  name takes in all of the name;
* `length_le_of_mem_symbolsOn`: so no name that starts before a symbol reaches
  into it.
-/

namespace RakuAtlas.Query

open Unicode (isWord)
open Text
open RakuAtlas.Symbol (SymbolName isSigil isTwigil)

/-! ## What a symbol is made of -/

/-- Names start with neither a sigil nor a twigil nor a brace. -/
theorem not_mark_of_isNameStart {c : Char} (h : isNameStart c) :
    isSigil c = false ∧ isTwigil c = false ∧ c ≠ '{' ∧ c ≠ '}' :=
  not_mark_of (by decide) h

/-- There is no sigil in a name. -/
theorem not_isSigil_of_isName {w : Line} (h : IsName w) : ∀ c ∈ w, ¬isSigil c := by
  intro c hc
  have hmem : c ∈ w.take (joinedTail isWord isNameStart isNameStart w) := by
    rw [h.2, List.take_length]
    exact hc
  exact not_isSigil_of_word (mem_take_joinedTail hmem)

theorem startsClearly_of_isName {name : SymbolName} (h : IsName name.base) :
    StartsClearly name := by
  cases hbase : name.base with
  | nil => exact absurd hbase h.ne_nil
  | cons c rest =>
    have hhead := h.1
    rw [hbase] at hhead
    have hmark := not_mark_of_isNameStart hhead
    exact ⟨c, rest, hbase, hmark.2.2.1, hmark.2.1⟩

/-- What may stand before the base of a symbol: nothing, a sigil, or a sigil and
a twigil. -/
def IsLead (lead : Line) : Prop :=
  lead = [] ∨ (∃ s, isSigil s ∧ lead = [s]) ∨ ∃ s t, isSigil s ∧ isTwigil t ∧ lead = [s, t]

theorem IsLead.mark_of_mem {lead : Line} (h : IsLead lead) {c : Char} (hc : c ∈ lead) :
    isSigil c ∨ isTwigil c := by
  rcases h with rfl | ⟨s, hs, rfl⟩ | ⟨s, t, hs, ht, rfl⟩
  · cases hc
  · rw [List.mem_singleton.1 hc]
    exact Or.inl hs
  · rcases List.mem_cons.1 hc with rfl | hc
    · exact Or.inl hs
    · rw [List.mem_singleton.1 hc]
      exact Or.inr ht

/-- No name starts in a lead. -/
theorem IsLead.not_isNameStart_of_mem {lead : Line} (h : IsLead lead) {c : Char} (hc : c ∈ lead) :
    ¬isNameStart c := by
  intro hstart
  have hmark := not_mark_of_isNameStart hstart
  rcases h.mark_of_mem hc with hsigil | htwigil
  · rw [hmark.1] at hsigil
    cases hsigil
  · rw [hmark.2.1] at htwigil
    cases htwigil

theorem exists_lead_afterSigil {cs : Line} (h : headIs isNameStart (afterSigil cs)) :
    ∃ lead, IsLead lead ∧ cs = lead ++ afterSigil cs := by
  rcases cs with _ | ⟨c, cs⟩
  · cases h
  · by_cases hsigil : isSigil c
    · rcases cs with _ | ⟨d, rest⟩
      · simp [afterSigil, hsigil, headIs] at h
      · by_cases htwigil : isTwigil d
        · refine ⟨[c, d], Or.inr (Or.inr ⟨c, d, hsigil, htwigil, rfl⟩), ?_⟩
          simp [afterSigil, hsigil, htwigil]
        · refine ⟨[c], Or.inr (Or.inl ⟨c, hsigil, rfl⟩), ?_⟩
          simp [afterSigil, hsigil, htwigil]
    · refine ⟨[], Or.inl rfl, ?_⟩
      simp [afterSigil, hsigil]

/-- A name that starts here has no sigil. -/
theorem afterSigil_of_isNameStart {cs : Line} (h : headIs isNameStart cs) : afterSigil cs = cs := by
  cases cs with
  | nil => cases h
  | cons c cs => simp [afterSigil, (not_mark_of_isNameStart h).1]

/-- Behind its lead a symbol has its base. -/
theorem base_parse_lead {lead base : Line} (hlead : IsLead lead) (hbase : headIs isNameStart base) :
    (SymbolName.parse (lead ++ base)).base = base := by
  rcases base with _ | ⟨c, base⟩
  · cases hbase
  · have hmark := not_mark_of_isNameStart hbase
    rcases hlead with rfl | ⟨s, hs, rfl⟩ | ⟨s, t, hs, ht, rfl⟩
    · simp [SymbolName.parse, hmark.1]
    · simp [SymbolName.parse, hs, hmark.2.1]
    · simp [SymbolName.parse, hs, ht]

theorem line_of_mem_symbolsOn {line : Line} {hit : Hit Unit} (h : hit ∈ symbolsOn line) :
    line = hit.before.reverse ++ (hit.text ++ hit.after) := by
  have hline := line_of_mem_hitsFrom h
  rw [List.reverse_nil, List.nil_append, List.append_assoc] at hline
  exact hline.symm

/-- A symbol is its lead and a name that is as long as it can be. -/
theorem exists_lead_of_mem_symbolsOn {line : Line} {hit : Hit Unit} (h : hit ∈ symbolsOn line) :
    ∃ lead name, IsLead lead ∧ hit.text ++ hit.after = lead ++ name ∧ headIs isNameStart name ∧
      hit.text = lead ++ name.take (joinedTail isWord isNameStart isNameStart name) := by
  rcases exists_of_mem_hits h with ⟨-, len, -, -, hfind, htake⟩
  rcases Option.map_eq_some_iff.1 hfind with ⟨len', hlen, heq⟩
  cases heq
  simp only [symbolLen?] at hlen
  split at hlen
  · next hname =>
    rcases exists_lead_afterSigil hname with ⟨lead, hlead, hcs⟩
    refine ⟨lead, afterSigil (hit.text ++ hit.after), hlead, hcs, hname, ?_⟩
    -- the length counts the lead and then the name
    have hlength : (hit.text ++ hit.after).length =
        lead.length + (afterSigil (hit.text ++ hit.after)).length := by
      rw [← List.length_append, ← hcs]
    rw [Option.some.injEq, hlength, Nat.add_sub_cancel] at hlen
    rw [← List.take_length_add_append, ← hcs, hlen]
    exact htake
  · cases hlen

/-- The base of a symbol is a whole name behind its lead. -/
theorem exists_lead_base {line : Line} {hit : Hit Unit} (h : hit ∈ symbolsOn line) :
    ∃ lead, IsLead lead ∧ hit.text = lead ++ (SymbolName.parse hit.text).base ∧
      IsName (SymbolName.parse hit.text).base := by
  rcases exists_lead_of_mem_symbolsOn h with ⟨lead, name, hlead, -, hname, htext⟩
  have htake := isName_take hname
  have hbase : (SymbolName.parse hit.text).base =
      name.take (joinedTail isWord isNameStart isNameStart name) := by
    rw [htext, base_parse_lead hlead htake.1]
  rw [hbase]
  exact ⟨lead, hlead, htext, htake⟩

theorem isName_base {line : Line} {hit : Hit Unit} (h : hit ∈ symbolsOn line) :
    IsName (SymbolName.parse hit.text).base := by
  rcases exists_lead_base h with ⟨-, -, -, hname⟩
  exact hname

/-- A plain symbol is all name. -/
theorem isName_of_plain {line : Line} {hit : Hit Unit} (h : hit ∈ symbolsOn line)
    (hplain : (SymbolName.parse hit.text).hasSigil = false) : IsName hit.text := by
  have hname := isName_base h
  rw [base_parse_of_not_hasSigil hplain] at hname
  exact hname

theorem parse_of_isName {w : Line} (h : IsName w) : SymbolName.parse w = ⟨none, none, w⟩ := by
  apply parse_of_head
  intro c hc
  exact not_isSigil_of_isName h c (List.mem_of_mem_head? hc)

/-! ## Nothing reaches into a symbol -/

/-- A symbol that takes in the first character of a name takes in all of it. -/
theorem reaches_of_mem_symbolsOn {line : Line} {hit : Hit Unit} (h : hit ∈ symbolsOn line)
    {inner w rest : Line} (hline : hit.text ++ hit.after = inner ++ (w ++ rest)) (hw : IsName w)
    (hinner : inner.length < hit.text.length) : inner.length + w.length ≤ hit.text.length := by
  rcases exists_lead_of_mem_symbolsOn h with ⟨lead, name, hlead, hcs, hname, htext⟩
  have hle := @joinedTail_le_length isWord isNameStart isNameStart name
  have hlength : hit.text.length =
      lead.length + joinedTail isWord isNameStart isNameStart name := by
    rw [htext, List.length_append, List.length_take, Nat.min_eq_left hle]
  rw [hcs] at hline
  rcases List.append_eq_append_iff.1 hline with ⟨inner', hinner', hname'⟩ | ⟨more, hlead', hmore⟩
  · -- the name starts inside that of the symbol
    rw [hinner', List.length_append] at hinner ⊢
    have hsplit := @joinedTail_split isWord isNameStart isNameStart _ _ _ hname' (by omega)
      (headIs_imp isWord_of_isNameStart (headIs_append hw.1 rest))
    rw [joinedTail_append hw.2] at hsplit
    omega
  · rcases more with _ | ⟨c, more⟩
    · -- it is that of the symbol
      rw [List.append_nil] at hlead'
      rw [List.nil_append] at hmore
      rw [← hmore, joinedTail_append hw.2, hlead'] at hlength
      omega
    · -- no name starts with a sigil or a twigil
      have hstart := headIs_append hw.1 rest
      rw [hmore] at hstart
      exact absurd hstart (hlead.not_isNameStart_of_mem (by simp [hlead']))

/-- A name that starts on a line is within a symbol. -/
theorem exists_symbol_around (before : Line) {w : Line} (hw : IsName w) (rest : Line) :
    ∃ hit ∈ symbolsOn (before ++ (w ++ rest)), ∃ inner, before = hit.before.reverse ++ inner ∧
      hit.text ++ hit.after = inner ++ (w ++ rest) ∧
      inner.length + w.length ≤ hit.text.length := by
  have hhead := headIs_append hw.1 rest
  have hfind : (symbolLen? (w ++ rest)).map (·, ()) =
      some (joinedTail isWord isNameStart isNameStart (w ++ rest), ()) := by
    simp [symbolLen?, afterSigil_of_isNameStart hhead, hhead]
  have hne : w ++ rest ≠ [] := by
    intro hnil
    exact hw.ne_nil (List.append_eq_nil_iff.1 hnil).1
  -- there is a symbol that takes in the first character of the name
  have hstarts : ∃ hit ∈ symbolsOn (before ++ (w ++ rest)), ∃ inner,
      before = hit.before.reverse ++ inner ∧ inner.length < hit.text.length := by
    rcases @mem_hits_or_covered _ (fun cs => (symbolLen? cs).map (·, ())) before _ hne _ _ hfind
      with hmem | ⟨hit, hmem, inner, hbefore, -, hlt⟩
    · refine ⟨_, hmem, [], by simp, ?_⟩
      have hpos := List.length_pos_of_ne_nil hw.ne_nil
      have hle := @joinedTail_le_length isWord isNameStart isNameStart (w ++ rest)
      rw [List.length_take, Nat.min_eq_left hle, joinedTail_append hw.2, List.length_nil]
      omega
    · exact ⟨hit, hmem, inner, hbefore, hlt⟩
  rcases hstarts with ⟨hit, hmem, inner, hbefore, hlt⟩
  have hline := line_of_mem_symbolsOn hmem
  have hsame : hit.text ++ hit.after = inner ++ (w ++ rest) := by
    rw [hbefore, List.append_assoc] at hline
    exact (List.append_cancel_left hline).symm
  exact ⟨hit, hmem, inner, hbefore, hsame, reaches_of_mem_symbolsOn hmem hsame hw hlt⟩

/-- No name that starts before a symbol reaches into it. -/
theorem length_le_of_mem_symbolsOn {line : Line} {hit : Hit Unit} (h : hit ∈ symbolsOn line)
    {before inner w rest : Line} (hline : line = before ++ (w ++ rest)) (hw : IsName w)
    (hfront : hit.before.reverse = before ++ inner) (hne : inner ≠ []) :
    w.length ≤ inner.length := by
  subst hline
  rcases exists_symbol_around before hw rest with ⟨other, hother, inner', hbefore, hsame, hreach⟩
  by_contra hlt
  rw [Nat.not_le] at hlt
  have hline := line_of_mem_symbolsOn h
  rw [hfront, List.append_assoc] at hline
  -- the name goes on behind the start of the symbol
  have hinner : inner <+: w := List.prefix_of_prefix_length_le
    ⟨_, (List.append_cancel_left hline).symm⟩ ⟨rest, rfl⟩ (Nat.le_of_lt hlt)
  rcases hinner with ⟨more, rfl⟩
  have hmore : more ≠ [] := by
    rintro rfl
    simp at hlt
  have hprefix : inner' ++ (inner ++ more) <+: other.text :=
    List.prefix_of_prefix_length_le ⟨rest, by rw [hsame, List.append_assoc]⟩ ⟨other.after, rfl⟩
      (by rw [List.length_append]; exact hreach)
  rcases hprefix with ⟨behind, hbehind⟩
  have hbytes := congrArg byteLen hbehind
  have hbytes' := congrArg byteLen hbefore
  simp only [byteLen_append] at hbytes hbytes'
  have hpos := byteLen_pos hne
  have hpos' := byteLen_pos hmore
  have hstart : hit.start = byteLen before + byteLen inner := by
    rw [hit.start_eq, hfront, byteLen_append]
  -- the symbol around the name starts earlier and stops later than this one starts
  have happart := stop_le_start_of_mem_hits hother h (by rw [other.start_eq]; omega)
  rw [Hit.stop, other.start_eq] at happart
  omega

end RakuAtlas.Query
