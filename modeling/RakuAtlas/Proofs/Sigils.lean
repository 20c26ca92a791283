import RakuAtlas.Proofs.Index.History
import RakuAtlas.Proofs.Text.Joined

/-!
# RakuAtlas.Proofs.Sigils — only variables have sigils

What a text declares besides variables, fields and phasers has a name without a
sigil, and so has every scope (`hasNoSigil_of_mem_parse`). Hence nothing that is
imported looks like a variable (`hasNoSigil_of_mem_imports`), and neither does
any key of an index (`hasNoSigil_of_mem_find`).
-/

namespace RakuAtlas

open Text
open RakuAtlas.Symbol (isSigil)
open RakuAtlas.Symbol.SymbolName.splitQualified? (splitLast?)

/-- The name does not start with a sigil. -/
def HasNoSigil (name : String) : Prop := ∀ c ∈ name.toList.head?, ¬isSigil c

theorem hasNoSigil_empty : HasNoSigil "" := by
  intro c hc
  cases hc

/-- A plain name has no sigil. -/
theorem IsPlainName.hasNoSigil {name : String} (h : IsPlainName name) : HasNoSigil name := by
  intro c hc hsigil
  have hpart := h c (List.mem_of_mem_head? hc)
  simp only [isSigil, Bool.or_eq_true, beq_iff_eq] at hsigil
  rcases hsigil with (rfl | rfl) | rfl <;> exact absurd hpart (by decide)

/-! ## Headers -/

namespace Header

theorem isFront_tidy (name : Line) : (tidy name).toList <+: name := by
  rw [tidy, String.toList_ofList, dropEndWhile, ← List.reverse_suffix, List.reverse_reverse]
  exact List.dropWhile_suffix _

/-- The name of a package starts with a word character. -/
theorem isWord_of_packageName? {cs name rest : Line} (h : packageName? cs = some (name, rest)) :
    ∀ c ∈ name.head?, Unicode.isWord c := by
  unfold packageName? at h
  split at h
  · split at h
    · next hword =>
      cases h
      intro c hc
      cases hc
      exact hword
    · cases h
  · cases h

/-- A name that a package's starts with has no sigil. -/
theorem hasNoSigil_of_packageName? {cs name rest : Line} {s : String}
    (h : packageName? cs = some (name, rest)) (hs : s.toList <+: name) : HasNoSigil s := by
  intro c hc hsigil
  have hhead : c ∈ name.head? := by
    rcases hs with ⟨more, rfl⟩
    exact List.mem_head?_append_of_mem_head? hc
  have hword := isWord_of_packageName? h c hhead
  simp only [isSigil, Bool.or_eq_true, beq_iff_eq] at hsigil
  rcases hsigil with (rfl | rfl) | rfl <;> exact absurd hword (by decide)

theorem hasNoSigil_of_scope? {cs : Line} {kind : ScopeKind} {name : String}
    (h : scope? cs = some (kind, name)) : HasNoSigil name := by
  simp only [scope?, Option.bind_eq_bind, Option.bind_eq_some_iff] at h
  rcases h with ⟨⟨keyword, after⟩, -, ⟨name', rest⟩, hname, heq⟩
  cases heq
  exact hasNoSigil_of_packageName? hname (isFront_tidy name')

theorem hasNoSigil_of_production? {cs : Line} {kind : ProductionKind} {name : String}
    (h : production? cs = some (kind, name)) : HasNoSigil name := by
  simp only [production?, Option.bind_eq_bind, Option.bind_eq_some_iff] at h
  rcases h with ⟨⟨keyword, after⟩, -, ⟨name', rest⟩, hname, heq⟩
  cases heq
  exact (isPlainName_tidy (isNamePart_of_name? hname)).hasNoSigil

theorem hasNoSigil_of_import? {cs : Line} {name : String} (h : import? cs = some name) :
    HasNoSigil name := by
  simp only [import?, Option.bind_eq_bind, Option.bind_eq_some_iff] at h
  rcases h with ⟨⟨keyword, after⟩, -, ⟨name', rest⟩, hname, h⟩
  have hself : name = String.ofList name' := by
    simp only at h
    split at h
    · split at h
      · cases h
      · exact (Option.some.inj h).symm
    · exact (Option.some.inj h).symm
  refine hasNoSigil_of_packageName? hname ⟨[], ?_⟩
  rw [hself, String.toList_ofList, List.append_nil]

end Header

/-! ## Declarations -/

/-- The name that is declared, unless it is that of a variable, a field or a
phaser. -/
def Form.plainName? : Form → Option String
  | .scope _ name _ | .callable _ name _ _ | .production _ name _ | .importing name => some name
  | .field _ | .phaser _ _ | .varDecl _ _ => none

namespace Declaration

/-- No line brings in a sigil: neither into the scope of the next lines nor by
what it declares. -/
theorem Recognized.hasNoSigil {here : Cursor} {ctx next : Context} {form : Form}
    (h : Recognized here ctx form next) (hctx : HasNoSigil ctx.scope) :
    HasNoSigil next.scope ∧ ∀ name ∈ form.plainName?, HasNoSigil name := by
  cases h with
  | scope hheader =>
    have hname := Header.hasNoSigil_of_scope? hheader
    exact ⟨hname, by simpa [Form.plainName?] using hname⟩
  | callable hheader =>
    have hname := (Header.isPlainName_of_callable? hheader).hasNoSigil
    exact ⟨hctx, by simpa [Form.plainName?] using hname⟩
  | production hheader =>
    have hname := Header.hasNoSigil_of_production? hheader
    exact ⟨hctx, by simpa [Form.plainName?] using hname⟩
  | importing hheader =>
    have hname := Header.hasNoSigil_of_import? hheader
    exact ⟨hctx, by simpa [Form.plainName?] using hname⟩
  | field | phaser | object | varDecl | introduced => exact ⟨hctx, by simp [Form.plainName?]⟩

theorem hasNoSigil_enter {ctx : Context} (h : HasNoSigil ctx.scope) (line : Nat) :
    HasNoSigil (ctx.enter line).scope := by
  unfold Context.enter
  split
  · split
    · exact hasNoSigil_empty
    · exact h
  · exact h

/-- Neither the scopes of a text nor what it declares in them have sigils,
variables, fields and phasers apart. -/
theorem hasNoSigil_of_mem_parse {mode : ParseMode} {classifier : Option Lexical.Classifier}
    {lines : List Line} {d : Declaration} (hd : d ∈ parse mode classifier lines) :
    HasNoSigil d.scope ∧ ∀ name ∈ d.form.plainName?, HasNoSigil name := by
  obtain ⟨above, code, following, before, next, -, -, hscope, hbefore, hfound⟩ :=
    @exists_recognize_of_invariant (fun ctx => HasNoSigil ctx.scope)
      (fun line hctx => hasNoSigil_enter hctx line) (fun hctx h => (h.hasNoSigil hctx).1)
      _ _ _ _ _ hasNoSigil_empty hd
  rw [hscope]
  exact ⟨hbefore, ((recognized_of_recognize hfound).hasNoSigil hbefore).2⟩

end Declaration

/-! ## Tables -/

namespace Table

/-- An indexable symbol has the name and the scope of its declaration. -/
theorem plainName?_of_isIndexable {file : FileId} {d : Declaration} {s : Symbol}
    (h : s ∈ symbolsOf file d) (hkind : s.kind.isIndexable) :
    d.form.plainName? = some s.name ∧ s.scope = d.scope := by
  cases mem_symbolsOf.1 h with
  | scope hform | callable hform | production hform =>
    rw [hform]
    exact ⟨rfl, rfl⟩
  | param | field | phaser | varDecl => cases hkind

/-- Nothing that a text imports has a sigil. -/
theorem hasNoSigil_of_mem_imports {file : FileId} {text : String} {mode : ParseMode}
    {classifier : Option Lexical.Classifier} {entry : String × Nat}
    (h : entry ∈ (parse file text mode classifier).imports) : HasNoSigil entry.1 := by
  rcases exists_of_mem_imports_parse h with ⟨d, hd, hform, -⟩
  have hname := (Declaration.hasNoSigil_of_mem_parse hd).2
  rw [hform] at hname
  exact hname entry.1 rfl

end Table

/-! ## Indexes -/

namespace Index

/-- What files have was declared in some text of each. -/
def Contents.AreParsed (contents : Contents) : Prop :=
  ∀ file, ∀ s ∈ contents file,
    ∃ text mode classifier, s ∈ indexed (Table.parse file text mode classifier)

theorem Contents.AreParsed.update {contents : Contents} (h : contents.AreParsed) {file : FileId}
    {symbols : List Symbol} (hnew : ∀ s ∈ symbols,
      ∃ text mode classifier, s ∈ indexed (Table.parse file text mode classifier)) :
    Contents.AreParsed (Function.update contents file symbols) := by
  intro other s hs
  by_cases hother : other = file
  · subst hother
    rw [Function.update_self] at hs
    exact hnew s hs
  · rw [Function.update_of_ne hother] at hs
    exact h other s hs

/-- Every change brings in what was declared in a text. -/
theorem Contents.AreParsed.act {contents : Contents} (h : contents.AreParsed) (change : Change) :
    Contents.AreParsed (change.act contents) := by
  cases change with
  | enter file text mode classifier =>
    apply h.update
    intro s hs
    exact ⟨text, mode, classifier, hs⟩
  | refresh files disk file =>
    apply h.update
    intro s hs
    unfold reread at hs
    split at hs
    · next text _ => exact ⟨text, _, _, hs⟩
    · cases hs
  | remove file =>
    apply h.update
    intro s hs
    cases hs
  | reset =>
    intro file s hs
    cases hs

theorem areParsed_contentsOf (history : List Change) : Contents.AreParsed (contentsOf history) := by
  refine List.foldlRecOn history _ (motive := Contents.AreParsed) ?_ ?_
  · intro file s hs
    cases hs
  · intro contents h change _
    exact h.act change

/-- What is found in an index belongs under its key and was declared in a text. -/
theorem exists_parse_of_mem_find {history : List Change} {key : String} {s : Symbol}
    (h : s ∈ (run history).find key) :
    isUnder key s ∧
      ∃ text mode classifier, s ∈ indexed (Table.parse s.file text mode classifier) := by
  have hmem : s ∈ ((run history).find key).filter (·.file == s.file) :=
    List.mem_filter.2 ⟨h, beq_self_eq_true _⟩
  rw [(image_run history).find_filter] at hmem
  rcases List.mem_filter.1 hmem with ⟨hcontents, hunder⟩
  exact ⟨hunder, areParsed_contentsOf history s.file s hcontents⟩

/-- What a text brings into an index is one of its symbols, but for where it was
learned of. -/
theorem exists_of_mem_indexed {t : Table} {s : Symbol} (h : s ∈ indexed t) :
    ∃ s' ∈ t.symbols, s'.kind.isIndexable ∧ s = { s' with origin := .index } := by
  rcases List.mem_map.1 h with ⟨s', hs', rfl⟩
  rcases List.mem_filter.1 hs' with ⟨hmem, hkind⟩
  exact ⟨s', t.byLine_perm.mem_iff.1 hmem, hkind, rfl⟩

/-- No key of an index has a sigil. -/
theorem hasNoSigil_of_mem_find {history : List Change} {key : String} {s : Symbol}
    (h : s ∈ (run history).find key) : HasNoSigil key := by
  rcases exists_parse_of_mem_find h with ⟨hunder, text, mode, classifier, hindexed⟩
  rcases exists_of_mem_indexed hindexed with ⟨s', hs', hkind, hs⟩
  rcases Table.mem_symbols_parse hs' with ⟨d, hd, hmem⟩
  rcases Table.plainName?_of_isIndexable hmem hkind with ⟨hname, hscope⟩
  rcases Declaration.hasNoSigil_of_mem_parse hd with ⟨hnoscope, hnoname⟩
  rw [← hscope] at hnoscope
  simp only [hs, isUnder, Bool.or_eq_true, Bool.and_eq_true, beq_iff_eq] at hunder
  rcases hunder with rfl | ⟨-, rfl⟩
  · exact hnoname s'.name hname
  · -- a qualified name starts as its scope does
    intro c hc
    rw [String.toList_append, String.toList_append] at hc
    cases hchars : s'.scope.toList with
    | nil =>
      rw [hchars] at hc
      cases hc
      decide
    | cons first more =>
      rw [hchars] at hc
      cases hc
      exact hnoscope c (by rw [hchars]; rfl)

/-- A symbol under a key has the key for its name, or what is behind the last
`::` of the key. -/
theorem name_of_mem_find {history : List Change} {key : String} {s : Symbol}
    (h : s ∈ (run history).find key) :
    s.name = key ∨ ∃ scope, splitLast? key.toList = some (scope, s.name.toList) := by
  rcases exists_parse_of_mem_find h with ⟨hunder, text, mode, classifier, hindexed⟩
  rcases exists_of_mem_indexed hindexed with ⟨s', hs', -, rfl⟩
  simp only [isUnder, Bool.or_eq_true, Bool.and_eq_true, beq_iff_eq] at hunder
  rcases hunder with hname | ⟨⟨hcallable, -⟩, rfl⟩
  · exact Or.inl hname
  · -- only callables have qualified names, and their own names are plain
    have hplain := Table.isPlainName_of_mem_symbols_parse hs' hcallable
    have hcolon : ':' ∉ s'.name.toList := by
      intro hmem
      exact absurd (hplain ':' hmem) (by decide)
    refine Or.inr ⟨s'.scope.toList, ?_⟩
    rw [String.toList_append, String.toList_append, List.append_assoc]
    exact splitLast?_append hcolon s'.scope.toList

end Index

end RakuAtlas
