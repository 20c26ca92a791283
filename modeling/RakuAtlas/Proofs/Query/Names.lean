import RakuAtlas.Proofs.Query.Occurrences
import RakuAtlas.Proofs.Session.Indexing
import RakuAtlas.Proofs.Text.Joined
import RakuAtlas.Query.Rename

/-!
# RakuAtlas.Proofs.Query.Names — names in a rename

Three names take part in a rename: the symbol under the cursor, the symbol that
is searched for, and the new name. All three are variables or none is:

* `hasSigil_of_normalize`: the new name takes over the sigil of the symbol;
* `name_suffix_of_resolve`: a declaration that a plain symbol resolves to has
  its name at the end of the symbol, and
* `not_isSigil_of_symbolIn?`: there is no sigil inside a plain symbol, so that
  such a declaration has none either (`not_hasSigil_of_resolve`).
-/

namespace RakuAtlas.Query

open Unicode (isIdentStart isIdentContinue isWord)
open Text
open RakuAtlas.Symbol (SymbolName isSigil isTwigil)

/-! ## Taking names apart -/

/-- A plain name is all base. -/
theorem base_parse_of_not_hasSigil {cs : List Char} (h : (SymbolName.parse cs).hasSigil = false) :
    SymbolName.parse cs = ⟨none, none, cs⟩ := by
  apply parse_of_head
  intro c hc hsigil
  rcases List.head?_eq_some_iff.1 hc with ⟨rest, rfl⟩
  simp [SymbolName.hasSigil, sigil_parse_cons hsigil] at h

/-- The base of a variable is shorter than the variable. -/
theorem base_parse_ne {cs : List Char} (h : (SymbolName.parse cs).hasSigil) :
    (SymbolName.parse cs).base ≠ cs := by
  intro heq
  have hrender := congrArg List.length (SymbolName.render_parse cs)
  rcases Option.isSome_iff_exists.1 h with ⟨c, hc⟩
  rw [SymbolName.render, hc, heq] at hrender
  simp only [Option.toList_some, List.length_append, List.length_singleton] at hrender
  omega

/-- The base is at the end of a name. -/
theorem base_parse_suffix (cs : List Char) : (SymbolName.parse cs).base <:+ cs := by
  refine ⟨(SymbolName.parse cs).sigil.toList ++ (SymbolName.parse cs).twigil.toList, ?_⟩
  exact SymbolName.render_parse cs

/-- The sigil of a name is one, and so is its twigil. -/
theorem isSigil_of_parse {cs : List Char} {c : Char} (h : (SymbolName.parse cs).sigil = some c) :
    isSigil c := by
  cases cs with
  | nil => cases h
  | cons d rest =>
    by_cases hd : isSigil d
    · rw [sigil_parse_cons hd] at h
      cases h
      exact hd
    · have hparse : SymbolName.parse (d :: rest) = ⟨none, none, d :: rest⟩ := by
        apply parse_of_head
        rintro c hc hsigil
        cases hc
        exact hd hsigil
      rw [hparse] at h
      cases h

theorem isTwigil_of_parse {cs : List Char} {c : Char} (h : (SymbolName.parse cs).twigil = some c) :
    isTwigil c := by
  unfold SymbolName.parse at h
  split at h
  · split at h
    · split at h
      · split at h
        · next htwigil =>
          cases h
          exact (Bool.and_eq_true_iff.1 htwigil).1
        · cases h
      · cases h
    · cases h
  · cases h

/-- What is none of the marks of names is neither a sigil nor a twigil nor a
brace. -/
theorem not_mark_of {p : Char → Bool} (hnot : ['$', '@', '%', '.', '!', '{', '}'].any p = false)
    {c : Char} (h : p c) : isSigil c = false ∧ isTwigil c = false ∧ c ≠ '{' ∧ c ≠ '}' := by
  rw [List.any_eq_false] at hnot
  refine ⟨?_, ?_, ?_, ?_⟩
  · rw [← Bool.not_eq_true]
    intro hsigil
    simp only [isSigil, Bool.or_eq_true, beq_iff_eq] at hsigil
    rcases hsigil with (rfl | rfl) | rfl <;> exact hnot _ (by simp) h
  · rw [← Bool.not_eq_true]
    intro htwigil
    simp only [isTwigil, Bool.or_eq_true, beq_iff_eq] at htwigil
    rcases htwigil with rfl | rfl <;> exact hnot _ (by simp) h
  · rintro rfl
    exact hnot _ (by simp) h
  · rintro rfl
    exact hnot _ (by simp) h

/-! ## New names -/

theorem ne_newline_of_continuesIdentifier {cs : Line} (h : continuesIdentifier cs) :
    ∀ c ∈ cs, c ≠ '\n' := by
  induction cs with
  | nil => simp
  | cons c cs ih =>
    have hnot : ¬isIdentContinue '\n' := by decide
    rw [continuesIdentifier] at h
    split at h
    · next hjoint =>
      rw [Bool.and_eq_true] at h
      refine List.forall_mem_cons.2 ⟨?_, ih h.2⟩
      rintro rfl
      simp at hjoint
    · rw [Bool.and_eq_true] at h
      refine List.forall_mem_cons.2 ⟨?_, ih h.2⟩
      rintro rfl
      exact hnot h.1

/-- There is no newline in an identifier. -/
theorem ne_newline_of_isIdentifier {cs : Line} (h : isIdentifier cs) : ∀ c ∈ cs, c ≠ '\n' := by
  cases cs with
  | nil => cases h
  | cons c cs =>
    have hnot : ¬isIdentStart '\n' := by decide
    rw [isIdentifier, Bool.and_eq_true, Bool.or_eq_true, beq_iff_eq] at h
    refine List.forall_mem_cons.2 ⟨?_, ne_newline_of_continuesIdentifier h.2⟩
    rintro rfl
    rcases h.1 with heq | hstart
    · simp at heq
    · exact hnot hstart

/-- A character outside the separators is in one of the parts. While characters
of a separator are skipped, the rest begins with them. -/
theorem exists_mem_splitOnList_go {sep cs : List Char} {c : Char} {skip : Nat} (hsep : c ∉ sep)
    (hskip : ∀ d ∈ cs.take skip, d ∈ sep) (hc : c ∈ cs) :
    ∃ part ∈ splitOnList.go sep skip cs, c ∈ part := by
  induction cs generalizing skip with
  | nil => simp at hc
  | cons d rest ih =>
    cases skip with
    | succ k =>
      rw [List.take_succ_cons, List.forall_mem_cons] at hskip
      rcases List.mem_cons.1 hc with rfl | hrest
      · exact absurd hskip.1 hsep
      · exact ih hskip.2 hrest
    | zero =>
      rw [splitOnList.go]
      split
      · next hhere =>
        -- a separator starts here, and its other characters are skipped
        rcases hhere with ⟨hne, hbegins⟩
        rcases sep with _ | ⟨first, others⟩
        · exact absurd rfl hne
        · rcases List.isPrefixOf_iff_prefix.1 hbegins with ⟨more, hmore⟩
          rw [List.cons_append, List.cons.injEq] at hmore
          rcases hmore with ⟨rfl, rfl⟩
          rcases List.mem_cons.1 hc with rfl | hrest
          · exact absurd (List.mem_cons_self ..) hsep
          · have hothers : ∀ d ∈ (others ++ more).take ((first :: others).length - 1),
                d ∈ first :: others := by
              intro d hd
              rw [List.length_cons, Nat.add_sub_cancel, List.take_left] at hd
              exact List.mem_cons_of_mem _ hd
            rcases ih hothers hrest with ⟨part, hpart, hmem⟩
            exact ⟨part, List.mem_cons_of_mem _ hpart, hmem⟩
      · rcases hgo : splitOnList.go sep 0 rest with _ | ⟨part, parts⟩
        · rcases List.mem_cons.1 hc with rfl | hrest
          · exact ⟨[c], List.mem_cons_self .., List.mem_cons_self ..⟩
          · rcases @ih 0 (by simp) hrest with ⟨part, hpart, -⟩
            rw [hgo] at hpart
            simp at hpart
        · rcases List.mem_cons.1 hc with rfl | hrest
          · exact ⟨c :: part, List.mem_cons_self .., List.mem_cons_self ..⟩
          · rcases @ih 0 (by simp) hrest with ⟨other, hother, hmem⟩
            rw [hgo] at hother
            rcases List.mem_cons.1 hother with rfl | hlater
            · exact ⟨d :: other, List.mem_cons_self .., List.mem_cons_of_mem _ hmem⟩
            · exact ⟨other, List.mem_cons_of_mem _ hlater, hmem⟩

/-- A base made of identifiers has no newline in it. -/
theorem newline_not_mem_of_isIdentifier {base : List Char}
    (h : (splitOnList "::".toList base).all isIdentifier) : '\n' ∉ base := by
  intro hmem
  have hsep : '\n' ∉ "::".toList := by decide
  rcases @exists_mem_splitOnList_go _ _ _ 0 hsep (by simp) hmem with ⟨part, hpart, hnewline⟩
  exact ne_newline_of_isIdentifier (List.all_eq_true.1 h part hpart) _ hnewline rfl

/-- What a new name that is accepted is made of. -/
theorem exists_base_of_normalize {symbol newName full : String}
    (h : normalizeNewName symbol newName = .ok full) :
    ∃ base, full.toList = { SymbolName.parse symbol.toList with base := base }.render ∧
      '\n' ∉ base ∧
      ((SymbolName.parse symbol.toList).hasSigil = false →
        (SymbolName.parse base).hasSigil = false) := by
  simp only [normalizeNewName] at h
  split at h
  · cases h
  · next hsigil =>
    split at h
    · cases h
    · split at h
      · cases h
      · next hidentifiers =>
        split at h
        · cases h
        · cases h
          refine ⟨_, by rw [String.toList_ofList], ?_, ?_⟩
          · apply newline_not_mem_of_isIdentifier
            simpa using hidentifiers
          · intro hplain
            -- the sigil of the new name would have to be that of the symbol
            have hnone : (SymbolName.parse (trim newName.toList)).hasSigil = false := by
              by_contra hsome
              rw [Bool.not_eq_false] at hsome
              have hne : (SymbolName.parse (trim newName.toList)).sigil ≠
                  (SymbolName.parse symbol.toList).sigil := by
                intro heq
                rw [SymbolName.hasSigil, ← heq, ← SymbolName.hasSigil, hsome] at hplain
                cases hplain
              apply hsigil
              rw [Bool.and_eq_true]
              exact ⟨hsome, bne_iff_ne.2 hne⟩
            rw [base_parse_of_not_hasSigil hnone]
            exact hnone

/-- There is no newline in a new name that is accepted. -/
theorem newline_not_mem_of_normalize {symbol newName full : String}
    (h : normalizeNewName symbol newName = .ok full) : '\n' ∉ full.toList := by
  rcases exists_base_of_normalize h with ⟨base, hfull, hbase, -⟩
  have hsigil : ¬isSigil '\n' := by decide
  have htwigil : ¬isTwigil '\n' := by decide
  rw [hfull, SymbolName.render]
  intro hmem
  rcases List.mem_append.1 hmem with hfront | hbase'
  · rcases List.mem_append.1 hfront with hs | ht
    · exact hsigil (isSigil_of_parse (Option.mem_toList.1 hs))
    · exact htwigil (isTwigil_of_parse (Option.mem_toList.1 ht))
  · exact hbase hbase'

/-- The new name is a variable if the symbol is one. -/
theorem hasSigil_of_normalize {symbol newName full : String}
    (h : normalizeNewName symbol newName = .ok full) :
    (SymbolName.parse full.toList).hasSigil = (SymbolName.parse symbol.toList).hasSigil := by
  rcases exists_base_of_normalize h with ⟨base, hfull, -, hplain⟩
  rw [hfull]
  cases hsigil : (SymbolName.parse symbol.toList).sigil with
  | some c =>
    have hc := isSigil_of_parse hsigil
    simp only [SymbolName.render, SymbolName.hasSigil, hsigil, Option.toList_some,
      List.cons_append]
    rw [sigil_parse_cons hc]
  | none =>
    have hnone : (SymbolName.parse symbol.toList).hasSigil = false := by
      simp [SymbolName.hasSigil, hsigil]
    have htwigil := isParsed_parse symbol.toList hsigil
    rw [hnone]
    simp only [SymbolName.render, hsigil, htwigil, Option.toList_none, List.nil_append]
    exact hplain hnone

/-! ## Symbols as written -/

/-- Only characters of the class, hyphens and colons go on with a name. -/
theorem mem_take_joinedTail {part hyphenated nested : Char → Bool} {cs : Line} {c : Char}
    (h : c ∈ cs.take (joinedTail part hyphenated nested cs)) : part c ∨ c = '-' ∨ c = ':' := by
  fun_induction joinedTail part hyphenated nested cs with
  | case1 => simp at h
  | case2 d ds hpart ih =>
    rw [Nat.add_comm, List.take_succ_cons] at h
    rcases List.mem_cons.1 h with rfl | hmore
    · exact Or.inl hpart
    · exact ih hmore
  | case3 d ds _ hhyphen ih =>
    rw [Nat.add_comm, List.take_succ_cons] at h
    rcases List.mem_cons.1 h with rfl | hmore
    · rw [Bool.and_eq_true, decide_eq_true_eq] at hhyphen
      exact Or.inr (Or.inl hhyphen.1)
    · exact ih hmore
  | case4 d _ e rest hcolons _ ih =>
    rw [Nat.add_comm, List.take_succ_cons, List.take_succ_cons] at h
    -- two colons, and then on with the rest
    simp only [Bool.and_eq_true, decide_eq_true_eq] at hcolons
    rcases hcolons with ⟨⟨rfl, rfl⟩, -⟩
    rcases List.mem_cons.1 h with rfl | hmore
    · exact Or.inr (Or.inr rfl)
    · rcases List.mem_cons.1 hmore with rfl | hmore
      · exact Or.inr (Or.inr rfl)
      · exact ih hmore
  | case5 => simp at h
  | case6 => simp at h

/-- Sigils are not part of names. -/
theorem not_isSigil_of_word {c : Char} (h : isWord c ∨ c = '-' ∨ c = ':') : ¬isSigil c := by
  intro hsigil
  simp only [isSigil, Bool.or_eq_true, beq_iff_eq] at hsigil
  rcases hsigil with (rfl | rfl) | rfl <;> revert h <;> decide

/-- The symbol under the cursor is one of those on its line. -/
theorem exists_of_symbolIn? {text : String} {pos : Pos} {found : SymbolAt}
    (h : symbolIn? text pos = some found) :
    ∃ line hit, (lines text)[pos.line]? = some line ∧ hit ∈ symbolsOn line ∧
      found = ⟨hit.text, .onLine pos.line hit.start hit.stop⟩ := by
  simp only [symbolIn?, Option.bind_eq_bind, Option.bind_eq_some_iff, symbolAt?,
    Option.map_eq_some_iff] at h
  rcases h with ⟨line, hline, hit, hhit, rfl⟩
  refine ⟨line, hit, hline, ?_, rfl⟩
  rcases Option.or_eq_some_iff.1 hhit with haround | ⟨-, hbefore⟩
  · exact List.mem_of_find?_eq_some haround
  · exact List.mem_of_find?_eq_some hbefore

/-- A plain symbol in a text has no sigil anywhere. -/
theorem not_isSigil_of_symbolIn? {text : String} {pos : Pos} {found : SymbolAt}
    (h : symbolIn? text pos = some found)
    (hplain : (SymbolName.parse found.text).hasSigil = false) : ∀ c ∈ found.text, ¬isSigil c := by
  rcases exists_of_symbolIn? h with ⟨line, hit, -, hmem, rfl⟩
  rcases exists_of_mem_hits hmem with ⟨front, len, -, -, hlen, htake⟩
  intro c hc
  have hhead : ∀ d ∈ (hit.text ++ hit.after).head?, ¬isSigil d := by
    intro d hd hsigil
    rcases htext : hit.text with _ | ⟨first, others⟩
    · rw [htext] at hc
      cases hc
    · rw [htext] at hd hplain
      cases hd
      simp [SymbolName.hasSigil, sigil_parse_cons hsigil] at hplain
  have hafter : afterSigil (hit.text ++ hit.after) = hit.text ++ hit.after := by
    rcases hcs : hit.text ++ hit.after with _ | ⟨first, others⟩
    · rfl
    · rw [hcs] at hhead
      have hfirst : ¬isSigil first := hhead first rfl
      simp [afterSigil, hfirst]
  rw [symbolLen?, hafter] at hlen
  split at hlen
  · simp only [Nat.sub_self, Nat.zero_add, Option.map_some, Option.some.injEq,
      Prod.mk.injEq] at hlen
    rw [htake, ← hlen.1] at hc
    exact not_isSigil_of_word (mem_take_joinedTail hc)
  · cases hlen

/-! ## Declarations of a symbol -/

/-- A name is cut at a `::` into what is before and what is behind. -/
theorem suffix_of_splitLast? {cs front back : List Char}
    (h : SymbolName.splitQualified?.splitLast? cs = some (front, back)) : back <:+ cs := by
  rcases append_of_splitLast? h with ⟨hcut, -⟩
  refine ⟨front ++ [':', ':'], ?_⟩
  rw [hcut, List.append_assoc]
  rfl

theorem suffix_of_eq {a b : String} (h : a = b) : a.toList <:+ b.toList := by
  subst h
  exact List.suffix_rfl

theorem name_of_mem_get {t : Table} {name : String} {s : Symbol} (h : s ∈ t.get name) :
    s.name = name := by
  have hname := (List.mem_filter.1 h).2
  exact eq_of_beq hname

/-- A symbol that belongs under a key has its name at the end of the key. -/
theorem suffix_of_isUnder {key : String} {s : Symbol} (h : Index.isUnder key s) :
    s.name.toList <:+ key.toList := by
  simp only [Index.isUnder, Bool.or_eq_true, Bool.and_eq_true, beq_iff_eq] at h
  rcases h with hname | ⟨-, rfl⟩
  · exact suffix_of_eq hname
  · rw [String.toList_append]
    exact List.suffix_append ..

theorem primary?_ofList {tier : Tier} {symbols : List Symbol} {next : Resolution} {s : Symbol}
    (h : (Resolution.ofList tier symbols next).primary? = some s) :
    s ∈ symbols ∨ next.primary? = some s := by
  cases symbols with
  | nil => exact Or.inr h
  | cons first others =>
    cases h
    exact Or.inl (List.mem_cons_self ..)

theorem suffix_of_mem_localOthers {scopes : Scopes} {symbol : String} {s : Symbol}
    (hplain : (SymbolName.parse symbol.toList).hasSigil = false)
    (h : s ∈ scopes.localOthers symbol) : s.name.toList <:+ symbol.toList := by
  unfold Scopes.localOthers at h
  split at h
  · next hget =>
    rw [← hget] at h
    exact suffix_of_eq (name_of_mem_get h)
  · split at h
    · next scope name hsplit =>
      rw [name_of_mem_get (List.mem_filter.1 h).1, String.toList_ofList]
      rw [SymbolName.splitQualified?, base_parse_of_not_hasSigil hplain] at hsplit
      exact suffix_of_splitLast? hsplit
    · cases h

theorem name_of_mem_moduleNamed {scopes : Scopes} {symbol : String} {s : Symbol}
    (h : s ∈ scopes.moduleNamed symbol) : s.name = symbol := by
  unfold Scopes.moduleNamed at h
  split at h
  · next found hfound =>
    rcases Option.bind_eq_some_iff.1 hfound with ⟨modules, -, hmodule⟩
    rcases Option.map_eq_some_iff.1 hmodule with ⟨file, -, rfl⟩
    rw [List.mem_singleton.1 h]
    rfl
  · split at h
    · rw [List.mem_singleton.1 h]
      rfl
    · cases h

/-- A declaration of a plain symbol has its name at the end of the symbol. -/
theorem name_suffix_of_resolve {scopes : Scopes} {symbol : String} {line : Nat} {s : Symbol}
    (hindex : ∀ index ∈ scopes.index, index.IsImage)
    (hplain : (SymbolName.parse symbol.toList).hasSigil = false)
    (h : (scopes.resolve symbol line).primary? = some s) : s.name.toList <:+ symbol.toList := by
  unfold Scopes.resolve at h
  split at h
  · cases h
  · simp only [hplain, Bool.false_eq_true, if_false] at h
    -- each tier in its turn
    rcases primary?_ofList h with hdocument | h
    · exact suffix_of_mem_localOthers hplain hdocument
    · rcases primary?_ofList h with hmodule | h
      · exact suffix_of_eq (name_of_mem_moduleNamed hmodule)
      · rcases primary?_ofList h with hworkspace | h
        · split at hworkspace
          · next index hsome => exact suffix_of_isUnder ((hindex index hsome).isUnder hworkspace)
          · cases hworkspace
        · cases h

/-- What a plain symbol in a text resolves to is plain itself. -/
theorem not_hasSigil_of_resolve {scopes : Scopes} {text : String} {pos : Pos} {found : SymbolAt}
    {line : Nat} {s : Symbol} (hindex : ∀ index ∈ scopes.index, index.IsImage)
    (hfound : symbolIn? text pos = some found)
    (hplain : (SymbolName.parse found.text).hasSigil = false)
    (h : (scopes.resolve (String.ofList found.text) line).primary? = some s) :
    (SymbolName.parse s.name.toList).hasSigil = false := by
  have hsuffix : s.name.toList <:+ found.text := by
    rw [← @String.toList_ofList found.text]
    exact name_suffix_of_resolve hindex (by rw [String.toList_ofList]; exact hplain) h
  rw [parse_of_head]
  · rfl
  · intro c hc
    have hmem : c ∈ s.name.toList := List.mem_of_mem_head? hc
    exact not_isSigil_of_symbolIn? hfound hplain c (hsuffix.subset hmem)

end RakuAtlas.Query
