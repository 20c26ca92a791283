import RakuAtlas.Proofs.Query.Coverage

/-!
# RakuAtlas.Proofs.Query.Identity — renaming a symbol to itself

A symbol is accepted as its own new name without a change
(`eq_of_normalize_self`), so that what decides is what the search looks for.

* `RenameEdits.unchanged`: where the symbol itself is searched for, it and its
  base are replaced by themselves;
* `RenameEdits.changed`: where only its last part is searched for, the whole
  symbol is put in its place, and the text gets longer.

`rename_self_unchanged_iff` says that there is no third case. The second is that
of a qualified symbol (`rename_self_repeats_scope`).
-/

namespace RakuAtlas.Query

open Unicode (isBlank isWord)
open Text
open RakuAtlas.Symbol (SymbolName isSigil isTwigil)
open RakuAtlas.Symbol.SymbolName.splitQualified? (splitLast?)

/-! ## The symbol as a new name -/

/-- The code points of white space. -/
def blankPoints : List Nat :=
  [9, 10, 11, 12, 13, 32, 0x85, 0xA0, 0x1680, 0x2000, 0x2001, 0x2002, 0x2003, 0x2004, 0x2005,
    0x2006, 0x2007, 0x2008, 0x2009, 0x200A, 0x2028, 0x2029, 0x202F, 0x205F, 0x3000]

theorem toNat_mem_of_isBlank {c : Char} (h : isBlank c) : c.toNat ∈ blankPoints := by
  simp only [blankPoints, List.mem_cons, List.not_mem_nil, or_false]
  unfold isBlank at h
  split at h
  · rw [Bool.or_eq_true, Bool.and_eq_true, decide_eq_true_eq, decide_eq_true_eq, beq_iff_eq] at h
    rcases h with hcontrol | rfl
    · omega
    · decide
  · simp only [Unicode.inRanges, Unicode.blankRanges, List.any_cons, List.any_nil, Bool.or_false,
      Bool.or_eq_true, Bool.and_eq_true, decide_eq_true_eq] at h
    omega

/-- What symbols are made of: word characters, hyphens and colons, and at the start
sigils and twigils. -/
def IsSymbolChar (c : Char) : Prop :=
  (isWord c ∨ c = '-' ∨ c = ':') ∨ isSigil c ∨ isTwigil c

instance (c : Char) : Decidable (IsSymbolChar c) :=
  inferInstanceAs (Decidable ((isWord c ∨ c = '-' ∨ c = ':') ∨ isSigil c ∨ isTwigil c))

theorem not_isBlank_of_isSymbolChar {c : Char} (h : IsSymbolChar c) : ¬isBlank c := by
  have hnot : ∀ n ∈ blankPoints, ¬IsSymbolChar (Char.ofNat n) := by decide +kernel
  intro hblank
  apply hnot c.toNat (toNat_mem_of_isBlank hblank)
  rw [Char.ofNat_toNat]
  exact h

/-- There is no blank in a symbol. -/
theorem not_isBlank_of_mem_symbolsOn {line : Line} {hit : Hit Unit} (h : hit ∈ symbolsOn line) :
    ∀ c ∈ hit.text, ¬isBlank c := by
  rcases exists_lead_of_mem_symbolsOn h with ⟨lead, name, hlead, -, -, htext⟩
  intro c hc
  apply not_isBlank_of_isSymbolChar
  rw [htext, List.mem_append] at hc
  rcases hc with hmark | hname
  · exact Or.inr (hlead.mark_of_mem hmark)
  · exact Or.inl (mem_take_joinedTail hname)

/-- Nothing is trimmed where nothing is blank. -/
theorem trim_of_not_isBlank {cs : Line} (h : ∀ c ∈ cs, ¬isBlank c) : trim cs = cs := by
  have hkeep : ∀ ds : Line, (∀ c ∈ ds, ¬isBlank c) → ds.dropWhile isBlank = ds := by
    intro ds hds
    cases ds with
    | nil => rfl
    | cons d ds => exact List.dropWhile_cons_of_neg (hds d (List.mem_cons_self ..))
  have hreverse : ∀ c ∈ cs.reverse, ¬isBlank c := by
    intro c hc
    exact h c (List.mem_reverse.1 hc)
  rw [trim, trimStart, hkeep cs h, trimEnd, dropEndWhile, hkeep _ hreverse, List.reverse_reverse]

/-- A symbol that is accepted as its own new name stays as it is. -/
theorem eq_of_normalize_self {symbol full : String} (hblank : ∀ c ∈ symbol.toList, ¬isBlank c)
    (h : normalizeNewName symbol symbol = .ok full) : full = symbol := by
  simp only [normalizeNewName, trim_of_not_isBlank hblank] at h
  split at h
  · cases h
  · split at h
    · cases h
    · split at h
      · cases h
      · split at h
        · cases h
        · rw [Except.ok.injEq, SymbolName.render_parse, String.ofList_toList] at h
          exact h.symm

/-! ## Edits that change nothing -/

/-- Edits that put in what stands there change nothing. -/
theorem Rewrites.eq_of_same {index : LineIndex} {Old : TextEdit → List Char → Prop} {cursor : Nat}
    {rest result : List Char} {edits : List TextEdit}
    (h : Rewrites index Old cursor rest edits result)
    (hsame : ∀ e ∈ edits, ∀ old, Old e old → e.newText.toList = old) : result = rest := by
  induction h with
  | done => rfl
  | @edit cursor kept old rest result e more hstart hstop hold hmore ih =>
    have hrest := ih fun e he => hsame e (List.mem_cons_of_mem _ he)
    rw [hrest, hsame e (List.mem_cons_self ..) old hold]

/-- Edits that put in something longer make the text longer. -/
theorem Rewrites.length_add_le {index : LineIndex} {Old : TextEdit → List Char → Prop}
    {cursor : Nat} {rest result : List Char} {edits : List TextEdit}
    (h : Rewrites index Old cursor rest edits result)
    (hlonger : ∀ e ∈ edits, ∀ old, Old e old → old.length < e.newText.toList.length) :
    rest.length + edits.length ≤ result.length := by
  induction h with
  | done => exact Nat.le_refl _
  | @edit cursor kept old rest result e more hstart hstop hold hmore ih =>
    have hrest := ih fun e he => hlonger e (List.mem_cons_of_mem _ he)
    have hhere := hlonger e (List.mem_cons_self ..) old hold
    simp only [List.length_append, List.length_cons]
    omega

/-- Replacing a symbol by itself changes nothing. -/
theorem RenameEdits.unchanged {symbol text : String} {edits : List TextEdit}
    (h : RenameEdits symbol symbol text edits) : applyEdits text edits = text := by
  have hsame := h.rewrites.eq_of_same ?_
  · exact String.toList_inj.1 hsame
  · intro e he old hold
    rcases h.newText e he with hfull | hbase
    · rw [h.under_full e he hfull, Option.some.injEq] at hold
      rw [hfull, hold]
    · rw [h.under_base e he hbase, Option.some.injEq] at hold
      rw [hbase, hold]

/-- Replacing a name by a longer one makes the text longer. -/
theorem RenameEdits.changed {searched full text : String} {edits : List TextEdit}
    (h : RenameEdits searched full text edits)
    (hplain : (SymbolName.parse full.toList).hasSigil = false)
    (hlt : searched.toList.length < full.toList.length) : applyEdits text edits ≠ text := by
  have hlonger := h.rewrites.length_add_le ?_
  · intro hsame
    have hpos := List.length_pos_of_ne_nil h.ne_nil
    rw [hsame] at hlonger
    omega
  · intro e he old hold
    have hfull : e.newText = full := by
      rcases h.newText e he with hfull | hbase
      · exact hfull
      · rw [hbase, baseOf, base_parse_of_not_hasSigil hplain, String.ofList_toList]
    rw [h.under_full e he hfull, Option.some.injEq] at hold
    rw [hfull, ← hold]
    exact hlt

/-! ## Renaming to the same name -/

/-- The text of a file as a search from the document sees it. -/
def currentText? (world : World) (doc : Document) (file : FileId) : Option String :=
  if file = doc.table.file then some doc.text else world.files.text? world.disk file

theorem currentText?_of_searchedText? {world : World} {doc : Document} {name text : String}
    {file : FileId} (h : searchedText? world doc name file = some text) :
    currentText? world doc file = some text := by
  unfold searchedText? at h
  unfold currentText?
  split at h
  · next hown => rw [if_pos hown, h]
  · next hother =>
    split at h
    · rw [if_neg hother, h]
    · cases h

/-- References are written in the texts that the search sees. -/
theorem writtenIn_of_mem_references [PatternLibrary] {world : World} {doc : Document} {pos : Pos}
    {found : SymbolAt} {refs : References} {history : List Index.Change}
    (hindex : world.index = Index.run history) (hfound : symbolIn? doc.text pos = some found)
    (h : referencesTo? world doc (String.ofList found.text) pos.line = some refs)
    {o : Occurrence} (ho : o ∈ refs.occurrences) :
    ∃ text, currentText? world doc o.location.file = some text ∧
      WrittenIn (SymbolName.parse refs.symbol.toList) text o := by
  rcases references_cases hindex hfound h with ⟨-, -, declaration, -, hmem⟩ | ⟨-, -, hmem⟩
  · rcases writtenIn_of_mem_occurrences (isParsed_parse _) ((hmem o).1 ho) with ⟨hfile, hwritten⟩
    exact ⟨doc.text, if_pos hfile, hwritten⟩
  · rcases (hmem o).1 ho with ⟨file, text, htext, ho⟩
    rcases writtenIn_of_mem_occurrences (isParsed_parse _) ho with ⟨hfile, hwritten⟩
    refine ⟨text, ?_, hwritten⟩
    rw [hfile]
    exact currentText?_of_searchedText? htext

theorem symbolIn?_of_renameTarget? {text : String} {pos : Pos} {target : SymbolAt}
    (h : renameTarget? text pos = some target) : symbolIn? text pos = some target := by
  rcases Option.bind_eq_some_iff.1 h with ⟨found, hfound, hallowed⟩
  split at hallowed
  · cases hallowed
  · rw [hfound, hallowed]

/-- Renaming a symbol to itself changes no text if the symbol itself is searched
for, as it is if it is a variable or not qualified. It changes every text with an
edit if only the last part of the symbol is searched for. -/
theorem rename_self_unchanged_iff [PatternLibrary] {world : World} {doc : Document} {pos : Pos}
    {target : SymbolAt} {edit : WorkspaceEdit} {history : List Index.Change}
    (hindex : world.index = Index.run history)
    (htarget : renameTarget? doc.text pos = some target)
    (h : rename world doc pos (String.ofList target.text) = .ok (some edit)) :
    ∃ refs, referencesAt? world doc pos = some refs ∧
      ((SymbolName.parse target.text).hasSigil ∨
        (SymbolName.parse target.text).splitQualified? = none →
          refs.symbol = String.ofList target.text) ∧
      ∀ change ∈ edit.changes, ∃ text, currentText? world doc change.1 = some text ∧
        (applyEdits text change.2 = text ↔ refs.symbol = String.ofList target.text) := by
  have hfound := symbolIn?_of_renameTarget? htarget
  rcases exists_of_symbolIn? hfound with ⟨line, hit, -, hhit, htext⟩
  rcases exists_of_rename h with ⟨found, full, refs, hsame, hfull, hrefs, rfl⟩
  rw [hfound, Option.some.injEq] at hsame
  subst hsame
  have hto : referencesTo? world doc (String.ofList target.text) pos.line = some refs := by
    rw [← hrefs, referencesAt?_eq hfound]
  have hcases := symbol_cases hindex hfound hto
  have hself : full = String.ofList target.text := by
    refine eq_of_normalize_self ?_ hfull
    rw [String.toList_ofList, htext]
    exact not_isBlank_of_mem_symbolsOn hhit
  refine ⟨refs, hrefs, ?_, ?_⟩
  · intro hplain
    rcases hcases with hsymbol | ⟨hsigil, scope, hsplit⟩
    · exact hsymbol
    · -- a symbol with a last part is qualified
      rcases hplain with hvariable | hnone
      · rw [hsigil] at hvariable
        cases hvariable
      · have hcut : splitLast? target.text = none := by
          rw [SymbolName.splitQualified?, base_parse_of_not_hasSigil hsigil] at hnone
          exact hnone
        rw [hsplit] at hcut
        cases hcut
  · have himage : world.index.IsImage := by
      rw [hindex]
      exact ⟨_, Index.image_run history⟩
    have hsigil : (SymbolName.parse full.toList).hasSigil =
        (SymbolName.parse refs.symbol.toList).hasSigil := by
      rw [hasSigil_of_normalize hfull, String.toList_ofList, hasSigil_symbol himage hfound hto]
    rcases exists_of_referencesTo? hto with ⟨-, -, -, hbase, -⟩
    intro change hchange
    rcases renameEdits_of_references hbase hsigil (newline_not_mem_of_normalize hfull)
      (fun o ho => writtenIn_of_mem_references hindex hfound hto ho) (pairwise_references hto)
      change hchange with ⟨text, hcurrent, hedits⟩
    refine ⟨text, hcurrent, ?_, ?_⟩
    · intro hunchanged
      rcases hcases with hsymbol | ⟨hplain, scope, hsplit⟩
      · exact hsymbol
      · -- the symbol is longer than its last part
        rcases append_of_splitLast? hsplit with ⟨hcut, -⟩
        refine absurd hunchanged (hedits.changed ?_ ?_)
        · rw [hself, String.toList_ofList]
          exact hplain
        · rw [hself, String.toList_ofList, hcut, List.length_append, List.length_cons,
            List.length_cons]
          omega
    · intro hsymbol
      rw [hsymbol, ← hself] at hedits
      exact hedits.unchanged

/-! A variable that stands at its declaration, in an attribute and in braces. -/

def scalarEdit : WorkspaceEdit :=
  ⟨[(⟨0⟩, [⟨.onLine 1 3 5, "$x"⟩, ⟨.onLine 1 10 11, "x"⟩, ⟨.onLine 1 25 26, "x"⟩])]⟩

theorem symbolIn?_scalar :
    symbolIn? scalarText ⟨1, 4⟩ = some ⟨"$x".toList, .onLine 1 3 5⟩ := by
  decide +kernel

theorem rename_scalar : rename soleWorld scalarDoc ⟨1, 4⟩ "$x" = .ok (some scalarEdit) := by
  have hallowed : refusal? "$x".toList = none := by decide +kernel
  have hfull : normalizeNewName (String.ofList "$x".toList) "$x" = .ok "$x" := by decide +kernel
  have hresolve : ((scalarDoc.scopes soleWorld).resolve "$x" 1).primary? =
      some (.onLine "$x" .localVar ⟨0⟩ 1) := by
    decide +kernel
  have hfound : occurrences (some .raku) (.parse "$x".toList) ⟨0⟩ scalarText 1 =
      [⟨⟨⟨0⟩, .onLine 1 3 5⟩, .onLine 1 3 5, .whole⟩,
        ⟨⟨⟨0⟩, .onLine 1 8 11⟩, .onLine 1 10 11, .baseOnly⟩,
        ⟨⟨⟨0⟩, .onLine 1 23 27⟩, .onLine 1 25 26, .baseOnly⟩] := by
    decide +kernel
  have hto := referencesTo?_variable hresolve (by decide) (by decide) (by decide)
  have hrefs : referencesAt? soleWorld scalarDoc ⟨1, 4⟩ =
      some ⟨"$x", .onLine "$x" .localVar ⟨0⟩ 1,
        [⟨⟨⟨0⟩, .onLine 1 3 5⟩, .onLine 1 3 5, .whole⟩,
          ⟨⟨⟨0⟩, .onLine 1 8 11⟩, .onLine 1 10 11, .baseOnly⟩,
          ⟨⟨⟨0⟩, .onLine 1 23 27⟩, .onLine 1 25 26, .baseOnly⟩]⟩ := by
    rw [@referencesAt?_eq _ soleWorld scalarDoc ⟨1, 4⟩ _ symbolIn?_scalar]
    show referencesTo? soleWorld scalarDoc (String.ofList "$x".toList) 1 = _
    rw [String.ofList_toList, hto]
    show some (References.mk _ _ (deduplicate _ (occurrences (some .raku) (.parse "$x".toList) ⟨0⟩
      scalarText 1))) = _
    rw [hfound, deduplicate, List.mergeSort_of_pairwise (by decide +kernel)]
    rfl
  rw [@rename_eq _ soleWorld scalarDoc ⟨1, 4⟩ "$x" _ _ _ symbolIn?_scalar hallowed hfull hrefs
    (by simp)]
  rfl

/-- The rename replaces the variable by itself and the bases by themselves. -/
theorem rename_self_scalar :
    rename soleWorld scalarDoc ⟨1, 4⟩ "$x" = .ok (some scalarEdit) ∧
      ∀ change ∈ scalarEdit.changes, ∃ text, currentText? soleWorld scalarDoc change.1 = some text ∧
        applyEdits text change.2 = text := by
  have htarget : renameTarget? scalarText ⟨1, 4⟩ = some ⟨"$x".toList, .onLine 1 3 5⟩ := by
    decide +kernel
  have hrename : rename soleWorld scalarDoc ⟨1, 4⟩ (String.ofList "$x".toList) =
      .ok (some scalarEdit) := by
    rw [String.ofList_toList]
    exact rename_scalar
  have hindex : soleWorld.index = Index.run [] := rfl
  rcases @rename_self_unchanged_iff _ soleWorld scalarDoc ⟨1, 4⟩ _ _ _ hindex htarget hrename with
    ⟨refs, -, hsymbol, hunchanged⟩
  refine ⟨rename_scalar, ?_⟩
  intro change hchange
  rcases hunchanged change hchange with ⟨text, htext, hiff⟩
  exact ⟨text, htext, hiff.2 (hsymbol (Or.inl (by decide)))⟩

/-! A qualified name as its own new name is put in place of its last part. -/

def repeatedEdit : WorkspaceEdit :=
  ⟨[(⟨0⟩, [⟨.onLine 1 9 12, "Foo::bar"⟩, ⟨.onLine 3 5 8, "Foo::bar"⟩])]⟩

/-- The method and its call get the scope once more. -/
theorem rename_self_repeats_scope :
    renameTarget? qualifiedText ⟨3, 5⟩ = some ⟨"Foo::bar".toList, .onLine 3 0 8⟩ ∧
      rename soleWorld qualifiedDoc ⟨3, 5⟩ "Foo::bar" = .ok (some repeatedEdit) ∧
      ∃ change ∈ repeatedEdit.changes, currentText? soleWorld qualifiedDoc change.1 =
        some qualifiedText ∧ applyEdits qualifiedText change.2 ≠ qualifiedText := by
  have hallowed : refusal? "Foo::bar".toList = none := by decide +kernel
  have hfull : normalizeNewName (String.ofList "Foo::bar".toList) "Foo::bar" = .ok "Foo::bar" := by
    decide +kernel
  refine ⟨by decide +kernel, ?_, _, List.mem_singleton.2 rfl, rfl, ?_⟩
  · rw [@rename_eq _ soleWorld qualifiedDoc ⟨3, 5⟩ "Foo::bar" _ _ _ symbolIn?_qualified hallowed
      hfull references_qualified (by simp)]
    rfl
  · rw [applyEdits, applySplices, List.mergeSort_of_pairwise (by decide +kernel)]
    decide +kernel

end RakuAtlas.Query
