import RakuAtlas.Proofs.Query.Identity
import RakuAtlas.Proofs.Text.Grammar

/-!
# RakuAtlas.Proofs.Query.NewNames — the new names of a rename

A new name is accepted by a reader that cuts it at `::` and then looks one
character ahead. What it accepts is the grammar of qualified names for the
classes `newNames`, in which apostrophes join parts as hyphens do.

* `forall_isIdentifier_iff`: the reader follows the grammar;
* `normalizeNewName_ok_iff`: when a new name is accepted, and what comes out;
* `newName_grammar`: what comes out is accepted again and stays as it is.

The symbols of a text have a grammar of their own, that of `NameClasses.symbols`.
A line that is made of one symbol alone shows it at every column if and only if
its base is in that grammar (`symbolAt?_alone_iff`). So not every new name is
found again once it is written (`newName_found_again_iff`): one with an
apostrophe is not (`apostrophe_cuts_newName`).
-/

namespace RakuAtlas.Query

open Unicode (isAscii isBlank isIdentStart isIdentContinue isWord)
open Text
open RakuAtlas.Symbol (SymbolName isSigil isTwigil isReserved reservedWords)

/-! ## The grammar of new names -/

/-- New names are made of the characters of identifiers, and joined by hyphens and
apostrophes. -/
def newNames : NameClasses where
  start c := c == '_' || isIdentStart c
  part := isIdentContinue
  joint c := c == '-' || c == '\''
  part_of_start := by
    intro c hc
    rw [Bool.or_eq_true, beq_iff_eq] at hc
    rcases hc with rfl | hstart
    · decide +kernel
    · simp [isIdentContinue, hstart]
  not_part_of_joint := by
    intro c hc
    rw [Bool.or_eq_true, beq_iff_eq, beq_iff_eq] at hc
    rcases hc with rfl | rfl <;> decide +kernel
  not_part_colon := by decide +kernel
  not_joint_colon := by decide

/-- An identifier starts as a part does and goes on from there. -/
theorem isIdentifier_iff {cs : Line} :
    isIdentifier cs ↔ headIs newNames.start cs ∧ continuesIdentifier cs := by
  cases cs with
  | nil => simp [isIdentifier, headIs]
  | cons c cs =>
    rw [isIdentifier, Bool.and_eq_true]
    refine and_congr_right fun hstart => ?_
    -- what starts a part joins none, and goes on with one
    have hpart := newNames.part_of_start c hstart
    have hjoint : ¬(c = '-' || c = '\'') := by
      intro hjoint
      exact newNames.not_part_of_joint c hjoint hpart
    rw [continuesIdentifier, if_neg hjoint, Bool.and_eq_true]
    exact (and_iff_right hpart).symm

/-! ## Cutting at colons -/

theorem splitOnList_go_ne_nil (sep cs : List Char) (skip : Nat) :
    splitOnList.go sep skip cs ≠ [] := by
  induction cs generalizing skip with
  | nil => simp [splitOnList.go]
  | cons c cs ih =>
    cases skip with
    | succ k => exact ih k
    | zero =>
      rw [splitOnList.go]
      split
      · simp
      · split <;> simp

theorem splitOnList_ne_nil (sep cs : List Char) : splitOnList sep cs ≠ [] :=
  splitOnList_go_ne_nil sep cs 0

/-- Two colons end a part. -/
theorem splitOnList_colons (rest : Line) :
    splitOnList "::".toList (':' :: ':' :: rest) = [] :: splitOnList "::".toList rest := by
  rfl

/-- Anything else goes on with the first part. -/
theorem exists_splitOnList_cons {c : Char} {rest : Line} (h : ¬"::".toList <+: c :: rest) :
    ∃ part parts, splitOnList "::".toList rest = part :: parts ∧
      splitOnList "::".toList (c :: rest) = (c :: part) :: parts := by
  rcases hrest : splitOnList "::".toList rest with _ | ⟨part, parts⟩
  · exact absurd hrest (splitOnList_ne_nil _ _)
  · refine ⟨part, parts, rfl, ?_⟩
    have hno : ¬("::".toList ≠ [] ∧ "::".toList.isPrefixOf (c :: rest)) := by
      rintro ⟨-, hprefix⟩
      exact h (List.isPrefixOf_iff_prefix.1 hprefix)
    rw [splitOnList] at hrest ⊢
    rw [splitOnList.go, if_neg hno, hrest]

theorem not_colons_begin {c : Char} (hc : c ≠ ':') (rest : Line) : ¬"::".toList <+: c :: rest := by
  intro hprefix
  exact hc (List.cons_prefix_cons.1 hprefix).1.symm

/-- The first part starts as the whole does, unless that starts with a colon. -/
theorem headIs_first_iff {cs first : Line} {others : List Line}
    (h : splitOnList "::".toList cs = first :: others) :
    headIs newNames.start first ↔ headIs newNames.start cs := by
  have hcolon : ¬newNames.start ':' := fun h => newNames.not_part_colon (newNames.part_of_start _ h)
  cases cs with
  | nil =>
    cases h
    rfl
  | cons c rest =>
    by_cases hcolons : "::".toList <+: c :: rest
    · rcases hcolons with ⟨more, hmore⟩
      rw [← hmore] at h ⊢
      cases (splitOnList_colons more).symm.trans h
      constructor
      · intro hhead
        cases hhead
      · intro hhead
        exact absurd hhead hcolon
    · rcases exists_splitOnList_cons hcolons with ⟨part, parts, -, hcons⟩
      cases hcons.symm.trans h
      rfl

/-- The reader follows the grammar, from the middle of the first part on. -/
theorem goesOn_newNames_iff {cs first : Line} {others : List Line}
    (h : splitOnList "::".toList cs = first :: others) :
    GoesOn newNames cs ↔ continuesIdentifier first ∧ others.all isIdentifier := by
  constructor
  · intro hgoes
    induction hgoes generalizing first others with
    | nil =>
      cases h
      exact ⟨rfl, rfl⟩
    | @part c rest hc _ ih =>
      have hjoint : ¬(c = '-' || c = '\'') := fun hjoint => newNames.not_part_of_joint c hjoint hc
      have hcolon : c ≠ ':' := by
        rintro rfl
        exact newNames.not_part_colon hc
      rcases exists_splitOnList_cons (not_colons_begin hcolon rest) with ⟨part, parts, hrest, hcons⟩
      cases hcons.symm.trans h
      rw [continuesIdentifier, if_neg hjoint, Bool.and_eq_true]
      exact ⟨⟨hc, (ih hrest).1⟩, (ih hrest).2⟩
    | @joint c rest hc hhead _ ih =>
      have hjoint : (c = '-' || c = '\'') := hc
      have hcolon : c ≠ ':' := by
        rintro rfl
        exact newNames.not_joint_colon hc
      rcases exists_splitOnList_cons (not_colons_begin hcolon rest) with ⟨part, parts, hrest, hcons⟩
      cases hcons.symm.trans h
      rw [continuesIdentifier, if_pos hjoint, Bool.and_eq_true]
      exact ⟨⟨(headIs_first_iff hrest).2 hhead, (ih hrest).1⟩, (ih hrest).2⟩
    | @colons rest hhead _ ih =>
      cases (splitOnList_colons rest).symm.trans h
      refine ⟨rfl, ?_⟩
      rcases hrest : splitOnList "::".toList rest with _ | ⟨part, parts⟩
      · rfl
      · rw [List.all_cons, Bool.and_eq_true, isIdentifier_iff]
        exact ⟨⟨(headIs_first_iff hrest).2 hhead, (ih hrest).1⟩, (ih hrest).2⟩
  · rintro ⟨hfirst, hothers⟩
    induction hlength : cs.length using Nat.strong_induction_on generalizing cs first others with
    | _ n ih =>
    cases cs with
    | nil => exact .nil
    | cons c rest =>
      by_cases hcolons : "::".toList <+: c :: rest
      · -- the next part is a whole identifier
        rcases hcolons with ⟨more, hmore⟩
        have hlt : more.length < n := by
          rw [← hlength, ← hmore, List.length_append]
          exact Nat.lt_add_of_pos_left (by decide)
        rw [← hmore] at h ⊢
        cases (splitOnList_colons more).symm.trans h
        rcases hrest : splitOnList "::".toList more with _ | ⟨part, parts⟩
        · exact absurd hrest (splitOnList_ne_nil _ _)
        · rw [hrest, List.all_cons, Bool.and_eq_true, isIdentifier_iff] at hothers
          exact .colons ((headIs_first_iff hrest).1 hothers.1.1)
            (ih more.length hlt hrest hothers.1.2 hothers.2 rfl)
      · rcases exists_splitOnList_cons hcolons with ⟨part, parts, hrest, hcons⟩
        have hlt : rest.length < n := by
          rw [← hlength]
          simp
        cases hcons.symm.trans h
        rw [continuesIdentifier] at hfirst
        split at hfirst
        · next hjoint =>
          rw [Bool.and_eq_true] at hfirst
          exact .joint hjoint ((headIs_first_iff hrest).1 hfirst.1)
            (ih rest.length hlt hrest hfirst.2 hothers rfl)
        · rw [Bool.and_eq_true] at hfirst
          exact .part hfirst.1 (ih rest.length hlt hrest hfirst.2 hothers rfl)

/-- All that stands between two colons is an identifier exactly if the whole is a
qualified name. -/
theorem forall_isIdentifier_iff {base : Line} :
    (splitOnList "::".toList base).all isIdentifier ↔ IsQualified newNames base := by
  rcases hsplit : splitOnList "::".toList base with _ | ⟨first, others⟩
  · exact absurd hsplit (splitOnList_ne_nil _ _)
  · rw [isQualified_iff, goesOn_newNames_iff hsplit, ← headIs_first_iff hsplit, List.all_cons,
      Bool.and_eq_true, isIdentifier_iff, and_assoc]

/-! ## What is accepted -/

/-- A new name fits a symbol: it has no sigil and no twigil but those of the
symbol, and its base is a qualified name and not reserved. -/
structure Fits (old new : SymbolName) : Prop where
  sigil : new.sigil = none ∨ new.sigil = old.sigil
  twigil : new.twigil = none ∨ new.twigil = old.twigil
  base : IsQualified newNames new.base
  notReserved : String.ofList new.base ∉ reservedWords

theorem mark_refused_iff {old new : Option Char} :
    (new.isSome && new != old) = true ↔ ¬(new = none ∨ new = old) := by
  cases new with
  | none => simp
  | some c => simp

/-- A new name is accepted exactly if it fits, and then takes over the sigil and
the twigil of the symbol. -/
theorem normalizeNewName_ok_iff {symbol newName full : String} :
    normalizeNewName symbol newName = .ok full ↔
      Fits (.parse symbol.toList) (.parse (trim newName.toList)) ∧
        full.toList = { SymbolName.parse symbol.toList with
          base := (SymbolName.parse (trim newName.toList)).base }.render := by
  constructor
  · intro h
    simp only [normalizeNewName] at h
    split at h
    · cases h
    · next hsigil =>
      split at h
      · cases h
      · next htwigil =>
        split at h
        · cases h
        · next hbase =>
          split at h
          · cases h
          · next hreserved =>
            cases h
            rw [mark_refused_iff, not_not] at hsigil htwigil
            rw [Bool.not_eq_true, Bool.not_eq_false', forall_isIdentifier_iff] at hbase
            rw [isReserved, List.contains_iff_mem] at hreserved
            exact ⟨⟨hsigil, htwigil, hbase, hreserved⟩, String.toList_ofList⟩
  · rintro ⟨⟨hsigil, htwigil, hbase, hreserved⟩, hfull⟩
    rw [← forall_isIdentifier_iff] at hbase
    have hfree : ¬isReserved (SymbolName.parse (trim newName.toList)).base := by
      rw [isReserved, List.contains_iff_mem]
      exact hreserved
    simp only [normalizeNewName]
    rw [if_neg (by rw [mark_refused_iff, not_not]; exact hsigil),
      if_neg (by rw [mark_refused_iff, not_not]; exact htwigil), if_neg (by rw [hbase]; decide),
      if_neg hfree, ← hfull, String.ofList_toList]

/-! ## What comes out -/

/-- New names start with none of the marks of symbols. -/
theorem not_mark_of_newNames_start {c : Char} (h : newNames.start c) :
    isSigil c = false ∧ isTwigil c = false :=
  have hmark := @not_mark_of newNames.start (by decide +kernel) c h
  ⟨hmark.1, hmark.2.1⟩

/-- A base that starts with no mark can be put behind any sigil and twigil, and
is found there again. -/
theorem parse_render_of_head {cs base : Line} {c : Char} {rest : Line} (hbase : base = c :: rest)
    (hsigil : isSigil c = false) (htwigil : isTwigil c = false) :
    SymbolName.parse { SymbolName.parse cs with base := base }.render =
      { SymbolName.parse cs with base := base } := by
  cases hs : (SymbolName.parse cs).sigil with
  | none =>
    simp only [SymbolName.render, hs, isParsed_parse cs hs, Option.toList_none, List.nil_append]
    apply parse_of_head
    rw [hbase]
    rintro d hd
    cases hd
    simp [hsigil]
  | some s =>
    have his := isSigil_of_parse hs
    cases ht : (SymbolName.parse cs).twigil with
    | none =>
      simp only [SymbolName.render, hs, ht, Option.toList_some, Option.toList_none]
      simp [SymbolName.parse, his, hbase, htwigil]
    | some t =>
      simp only [SymbolName.render, hs, ht, Option.toList_some]
      simp [SymbolName.parse, his, isTwigil_of_parse ht, hbase]

/-- There is no blank in a symbol with a new name. -/
theorem not_isBlank_of_newName {cs base : Line} (hbase : GoesOn newNames base) :
    ∀ c ∈ { SymbolName.parse cs with base := base }.render, ¬isBlank c := by
  have hnot : ∀ n ∈ blankPoints, ¬(newNames.part (Char.ofNat n) ∨ newNames.joint (Char.ofNat n) ∨
      Char.ofNat n = ':' ∨ isSigil (Char.ofNat n) ∨ isTwigil (Char.ofNat n)) := by
    decide +kernel
  intro c hc hblank
  apply hnot c.toNat (toNat_mem_of_isBlank hblank)
  rw [Char.ofNat_toNat]
  rw [SymbolName.render, List.mem_append, List.mem_append, Option.mem_toList,
    Option.mem_toList] at hc
  rcases hc with (hs | ht) | hin
  · simp [isSigil_of_parse hs]
  · simp [isTwigil_of_parse ht]
  · rcases hbase.class_of_mem hin with hpart | hjoint | rfl
    · exact Or.inl hpart
    · exact Or.inr (Or.inl hjoint)
    · simp

/-- A new name that is accepted is taken apart into the marks of the symbol and
the base of the new name. -/
theorem parse_of_normalize {symbol newName full : String}
    (h : normalizeNewName symbol newName = .ok full) :
    SymbolName.parse full.toList = { SymbolName.parse symbol.toList with
      base := (SymbolName.parse (trim newName.toList)).base } := by
  rcases normalizeNewName_ok_iff.1 h with ⟨hfits, hfull⟩
  rcases isQualified_iff.1 hfits.base with ⟨hhead, -⟩
  rcases hbase : (SymbolName.parse (trim newName.toList)).base with _ | ⟨c, rest⟩
  · rw [hbase] at hhead
    cases hhead
  · rw [hbase] at hhead hfull
    have hmark := not_mark_of_newNames_start hhead
    rw [hfull, parse_render_of_head rfl hmark.1 hmark.2]

/-- New names have a grammar. A new name is accepted for a symbol exactly if it
has no sigil and no twigil but those of the symbol, and its base is a qualified
name that is not reserved. What comes out has the marks of the symbol and the
base of the new name, and as a new name it is accepted as it is. -/
theorem newName_grammar (symbol newName : String) :
    ((∃ full, normalizeNewName symbol newName = .ok full) ↔
        Fits (.parse symbol.toList) (.parse (trim newName.toList))) ∧
      ∀ full, normalizeNewName symbol newName = .ok full →
        SymbolName.parse full.toList = { SymbolName.parse symbol.toList with
          base := (SymbolName.parse (trim newName.toList)).base } ∧
        normalizeNewName symbol full = .ok full := by
  constructor
  · constructor
    · rintro ⟨full, hfull⟩
      exact (normalizeNewName_ok_iff.1 hfull).1
    · intro hfits
      exact ⟨_, normalizeNewName_ok_iff.2 ⟨hfits, String.toList_ofList⟩⟩
  · intro full h
    have hparse := parse_of_normalize h
    rcases normalizeNewName_ok_iff.1 h with ⟨hfits, hfull⟩
    refine ⟨hparse, normalizeNewName_ok_iff.2 ?_⟩
    -- nothing is trimmed, and the marks are those of the symbol
    have hblank := @not_isBlank_of_newName symbol.toList _ (isQualified_iff.1 hfits.base).2
    rw [← hfull] at hblank
    rw [trim_of_not_isBlank hblank, hparse]
    exact ⟨⟨Or.inr rfl, Or.inr rfl, hfits.base, hfits.notReserved⟩, hfull⟩

/-- An attribute gets a qualified name with an apostrophe and a Roman numeral;
the blanks around it do not count. -/
theorem newName_grammar_attribute :
    normalizeNewName "$.name" " it's::Ⅷ-x\t" = .ok "$.it's::Ⅷ-x" ∧
      SymbolName.parse "$.it's::Ⅷ-x".toList = ⟨some '$', some '.', "it's::Ⅷ-x".toList⟩ ∧
      normalizeNewName "$.name" "$.it's::Ⅷ-x" = .ok "$.it's::Ⅷ-x" := by
  have haccepted : normalizeNewName "$.name" " it's::Ⅷ-x\t" = .ok "$.it's::Ⅷ-x" := by
    decide +kernel
  rcases (newName_grammar "$.name" " it's::Ⅷ-x\t").2 _ haccepted with ⟨hparse, hagain⟩
  exact ⟨haccepted, hparse, hagain⟩

/-! ## A symbol on a line of its own -/

/-- Nothing is found in what is passed over. -/
theorem hitsFrom_of_length_le {α : Type} (find : Line → Option (Nat × α)) {skip : Nat}
    {cs : Line} (h : cs.length ≤ skip) (before : Line) : hitsFrom find skip before cs = [] := by
  induction cs generalizing skip before with
  | nil => rfl
  | cons c cs ih =>
    cases skip with
    | zero => simp at h
    | succ k => exact ih (Nat.le_of_succ_le_succ h) (c :: before)

/-- A line that is one symbol from its start to its end has no other. -/
theorem symbolsOn_alone {cs : Line} (h : symbolLen? cs = some cs.length) (hne : cs ≠ []) :
    symbolsOn cs = [⟨[], cs, [], ()⟩] := by
  rcases List.exists_cons_of_ne_nil hne with ⟨c, rest, rfl⟩
  simp only [symbolsOn, hits, hitsFrom, h, Option.map_some, List.take_length, List.drop_length]
  rw [hitsFrom_of_length_le _ (by simp)]

/-- A symbol with a name for its base takes up all of its line. -/
theorem symbolLen?_of_isName {cs : Line} (h : IsName (SymbolName.parse cs).base) :
    symbolLen? cs = some cs.length := by
  have hafter : afterSigil cs = (SymbolName.parse cs).base := by
    have hrender := SymbolName.render_parse cs
    rcases hbase : (SymbolName.parse cs).base with _ | ⟨c, rest⟩
    · exact absurd hbase h.ne_nil
    · have hhead := h.1
      rw [hbase] at hhead
      have hmark := not_mark_of_isNameStart hhead
      rw [SymbolName.render, hbase] at hrender
      cases hs : (SymbolName.parse cs).sigil with
      | none =>
        rw [hs, isParsed_parse cs hs] at hrender
        rw [← hrender]
        simp [afterSigil, hmark.1]
      | some s =>
        have his := isSigil_of_parse hs
        cases ht : (SymbolName.parse cs).twigil with
        | none =>
          rw [hs, ht] at hrender
          rw [← hrender]
          simp [afterSigil, his, hmark.2.1]
        | some t =>
          rw [hs, ht] at hrender
          rw [← hrender]
          simp [afterSigil, his, isTwigil_of_parse ht]
  have hle := (base_parse_suffix cs).length_le
  simp only [symbolLen?, hafter, h.1, if_true, h.2]
  rw [Nat.sub_add_cancel hle]

/-- A symbol is found at every column of a line of its own exactly if its base
is a name. -/
theorem symbolAt?_alone_iff {cs : Line} (n : Nat) :
    (∀ col ≤ byteLen cs,
        symbolAt? cs ⟨n, col⟩ = some ⟨cs, .onLine n 0 (byteLen cs)⟩) ↔
      IsQualified .symbols (SymbolName.parse cs).base := by
  rw [← isName_iff]
  constructor
  · intro h
    have hfirst := h 0 (Nat.zero_le _)
    rcases Option.map_eq_some_iff.1 hfirst with ⟨hit, hhit, htext⟩
    have hmem : hit ∈ symbolsOn cs := by
      rcases Option.or_eq_some_iff.1 hhit with haround | ⟨-, hbefore⟩
      · exact List.mem_of_find?_eq_some haround
      · exact List.mem_of_find?_eq_some hbefore
    have hname := isName_base hmem
    rw [(SymbolAt.mk.inj htext).1] at hname
    exact hname
  · intro h col hcol
    have hne : cs ≠ [] := by
      rintro rfl
      exact h.ne_nil rfl
    -- the cursor is inside the symbol, or right behind it
    have hfound := symbolsOn_alone (symbolLen?_of_isName h) hne
    rcases Nat.lt_or_eq_of_le hcol with hlt | rfl
    · simp [symbolAt?, hfound, Hit.start, Hit.stop, hlt]
    · simp [symbolAt?, hfound, Hit.start, Hit.stop]

/-! ## New names that are found again -/

/-- In ASCII, and without apostrophes, new names are made as symbols are. -/
theorem isQualified_symbols_of_ascii {base : Line} (h : IsQualified newNames base)
    (hascii : ∀ c ∈ base, isAscii c ∧ c ≠ '\'') : IsQualified .symbols base := by
  have htable : ∀ n < 128, (newNames.start (Char.ofNat n) → isNameStart (Char.ofNat n)) ∧
      (newNames.part (Char.ofNat n) → isWord (Char.ofNat n)) := by
    decide +kernel
  have hclasses : ∀ c, isAscii c → (newNames.start c → isNameStart c) ∧
      (newNames.part c → isWord c) := by
    intro c hc
    have hentry := htable c.toNat (of_decide_eq_true hc)
    rw [Char.ofNat_toNat] at hentry
    exact hentry
  have hhead : ∀ {cs : Line}, (∀ c ∈ cs, isAscii c ∧ c ≠ '\'') → headIs newNames.start cs →
      headIs isNameStart cs := by
    intro cs hcs hstart
    cases cs with
    | nil => cases hstart
    | cons c cs => exact (hclasses c (hcs c (List.mem_cons_self ..)).1).1 hstart
  rw [isQualified_iff] at h ⊢
  refine ⟨hhead hascii h.1, ?_⟩
  have hgoes := h.2
  clear h
  induction hgoes with
  | nil => exact .nil
  | @part c cs hc _ ih =>
    rw [List.forall_mem_cons] at hascii
    exact .part ((hclasses c hascii.1.1).2 hc) (ih hascii.2)
  | @joint c cs hc hstart _ ih =>
    rw [List.forall_mem_cons] at hascii
    have hhyphen : c == '-' := (Bool.or_eq_true_iff.1 hc).resolve_right (by simp [hascii.1.2])
    exact .joint hhyphen (hhead hascii.2 hstart) (ih hascii.2)
  | colons hstart _ ih =>
    rw [List.forall_mem_cons, List.forall_mem_cons] at hascii
    exact .colons (hhead hascii.2.2 hstart) (ih hascii.2.2)

/-- A new name that is accepted is found again, at every column of a line of its
own, exactly if its base is made as symbols are: of letters, underscores and
word characters, and joined by hyphens and `::` alone. In ASCII that is so for
every new name without an apostrophe. -/
theorem newName_found_again_iff {symbol newName full : String}
    (h : normalizeNewName symbol newName = .ok full) (n : Nat) :
    ((∀ col ≤ byteLen full.toList, symbolAt? full.toList ⟨n, col⟩ =
          some ⟨full.toList, .onLine n 0 (byteLen full.toList)⟩) ↔
        IsQualified .symbols (SymbolName.parse full.toList).base) ∧
      ((∀ c ∈ full.toList, isAscii c ∧ c ≠ '\'') →
        ∀ col ≤ byteLen full.toList, symbolAt? full.toList ⟨n, col⟩ =
          some ⟨full.toList, .onLine n 0 (byteLen full.toList)⟩) := by
  refine ⟨symbolAt?_alone_iff n, ?_⟩
  intro hascii
  rw [symbolAt?_alone_iff]
  have hbase : IsQualified newNames (SymbolName.parse full.toList).base := by
    rw [parse_of_normalize h]
    exact (normalizeNewName_ok_iff.1 h).1.base
  refine isQualified_symbols_of_ascii hbase ?_
  intro c hc
  exact hascii c ((base_parse_suffix full.toList).subset hc)

/-- A variable with a hyphen is found again, at its sigil and right behind its
end. -/
theorem newName_found_again_hyphen :
    normalizeNewName "$x" "new-name" = .ok "$new-name" ∧
      symbolAt? "$new-name".toList ⟨0, 0⟩ = some ⟨"$new-name".toList, .onLine 0 0 9⟩ ∧
      symbolAt? "$new-name".toList ⟨0, 9⟩ = some ⟨"$new-name".toList, .onLine 0 0 9⟩ := by
  have haccepted : normalizeNewName "$x" "new-name" = .ok "$new-name" := by decide +kernel
  have hall : "$new-name".toList.all fun c => isAscii c && c != '\'' := by decide
  have hfound := (newName_found_again_iff haccepted 0).2 fun c hc => by
    simpa using List.all_eq_true.1 hall c hc
  exact ⟨haccepted, hfound 0 (by decide), hfound 9 (by decide)⟩

/-- An apostrophe is accepted in a new name, but the symbol that is found
afterwards stops before it. -/
theorem apostrophe_cuts_newName :
    normalizeNewName "foo" "don't" = .ok "don't" ∧
      symbolAt? "don't".toList ⟨0, 0⟩ = some ⟨"don".toList, .onLine 0 0 3⟩ ∧
      ¬∀ col ≤ byteLen "don't".toList, symbolAt? "don't".toList ⟨0, col⟩ =
          some ⟨"don't".toList, .onLine 0 0 (byteLen "don't".toList)⟩ := by
  have hcut : symbolAt? "don't".toList ⟨0, 0⟩ = some ⟨"don".toList, .onLine 0 0 3⟩ := by
    decide +kernel
  refine ⟨by decide +kernel, hcut, ?_⟩
  intro hall
  rw [hall 0 (Nat.zero_le _)] at hcut
  revert hcut
  decide +kernel

end RakuAtlas.Query
