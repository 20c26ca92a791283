import RakuAtlas.Proofs.Query.Names
import RakuAtlas.Proofs.Query.References

/-!
# RakuAtlas.Proofs.Query.Exactness — references are exactly the uses

For names of ASCII letters, digits, underscores and single inner hyphens the
search misses nothing, although it goes from left to right without overlaps and
looks at what surrounds a match only afterwards. A use could be hidden by an
earlier match in two ways, and both are impossible:

* a plain name would start inside the earlier match, where something of that
  match comes right before it (`not_startsIdentifier_of_inside`);
* a variable would have its sigil inside the earlier match, but a spelling has a
  sigil at its start only (`not_mem_tail_of_mem_spellings`).

So what is found are the uses (`mem_occurrences_iff`), and the references to a
symbol are its uses in all texts that are searched: `plain_references_exact` and
`variable_references_exact`. Nothing is searched for a name whose pattern cannot be
compiled, and then there are no references. The standard library compiles no name
that is very long (`plain_references_refused`, `variable_references_refused`).
-/

namespace RakuAtlas.Query

open Text
open RakuAtlas.Symbol (SymbolName isSigil isTwigil)
open Lexical (Classifier)

/-! ## Names in ASCII -/

/-- ASCII letters and digits, and the underscore. -/
def isAsciiWord (c : Char) : Bool := c.isAlphanum || c == '_'

/-- ASCII letters and the underscore. -/
def isAsciiStart (c : Char) : Bool := c.isAlpha || c == '_'

/-- Whether a name goes on with these characters to its end: a hyphen stands only
before a letter or an underscore. -/
def continuesAscii : Line → Bool
  | [] => true
  | c :: cs =>
    if c = '-' then headIs isAsciiStart cs && continuesAscii cs
    else isAsciiWord c && continuesAscii cs

/-- Whether the characters are a name of ASCII letters, digits, underscores and
single inner hyphens, each before a letter or an underscore. -/
def isAsciiName : Line → Bool
  | [] => false
  | c :: cs => isAsciiWord c && continuesAscii cs

theorem isAscii_of_isAlphanum {c : Char} (h : c.isAlphanum) : Unicode.isAscii c := by
  delta Char.isAlphanum Char.isAlpha Char.isUpper Char.isLower Char.isDigit at h
  simp only [Bool.or_eq_true, Bool.and_eq_true, decide_eq_true_eq, ge_iff_le,
    UInt32.le_iff_toNat_le] at h
  have hZ : 'Z'.val.toNat = 90 := rfl
  have hz : 'z'.val.toNat = 122 := rfl
  have h9 : '9'.val.toNat = 57 := rfl
  rw [Unicode.isAscii, decide_eq_true_eq]
  show c.val.toNat < 128
  omega

/-- Words in ASCII are made of characters that a name may not touch. -/
theorem isIdentifierChar_of_isAsciiWord {c : Char} (h : isAsciiWord c) : isIdentifierChar c := by
  simp only [isAsciiWord, Bool.or_eq_true] at h
  rcases h with halnum | hunderscore
  · have hascii := isAscii_of_isAlphanum halnum
    simp only [Char.isAlphanum, Bool.or_eq_true] at halnum
    rcases halnum with halpha | hdigit
    · simp [isIdentifierChar, Unicode.isAlphanumeric, Unicode.isAlphabetic, Unicode.isLetter,
        hascii, halpha]
    · simp [isIdentifierChar, Unicode.isAlphanumeric, Unicode.isNumber, Unicode.isDecimal, hascii,
        hdigit]
  · simp [isIdentifierChar, hunderscore]

/-- Every character of a name is of a word or a hyphen. -/
theorem isAsciiWord_of_mem_name {w : Line} (h : isAsciiName w) :
    ∀ c ∈ w, isAsciiWord c ∨ c = '-' := by
  have hcontinues : ∀ cs : Line, continuesAscii cs → ∀ c ∈ cs, isAsciiWord c ∨ c = '-' := by
    intro cs hcs
    induction cs with
    | nil => simp
    | cons d ds ih =>
      rw [continuesAscii] at hcs
      split at hcs
      · next hhyphen =>
        rw [Bool.and_eq_true] at hcs
        exact List.forall_mem_cons.2 ⟨Or.inr hhyphen, ih hcs.2⟩
      · rw [Bool.and_eq_true] at hcs
        exact List.forall_mem_cons.2 ⟨Or.inl hcs.1, ih hcs.2⟩
  cases w with
  | nil => cases h
  | cons c cs =>
    rw [isAsciiName, Bool.and_eq_true] at h
    exact List.forall_mem_cons.2 ⟨Or.inl h.1, hcontinues cs h.2⟩

/-- No sigil, twigil or brace is part of a name. -/
theorem not_mark_of_asciiWord {c : Char} (h : isAsciiWord c ∨ c = '-') :
    isSigil c = false ∧ isTwigil c = false ∧ c ≠ '{' ∧ c ≠ '}' := by
  have hname : (isAsciiWord c || c == '-') = true := by simpa using h
  exact @not_mark_of (fun c => isAsciiWord c || c == '-') (by decide) c hname

theorem startsClearly_of_isAsciiName {name : SymbolName} (h : isAsciiName name.base) :
    StartsClearly name := by
  have hall := isAsciiWord_of_mem_name h
  cases hbase : name.base with
  | nil =>
    rw [hbase] at h
    cases h
  | cons c rest =>
    rw [hbase] at hall
    have hmark := not_mark_of_asciiWord (hall c (List.mem_cons_self ..))
    exact ⟨c, rest, hbase, hmark.2.2.1, hmark.2.1⟩

theorem ne_nil_of_isAsciiName {w : Line} (h : isAsciiName w) : w ≠ [] := by
  rintro rfl
  cases h

/-- A name in ASCII is plain. -/
theorem parse_of_isAsciiName {w : Line} (h : isAsciiName w) :
    SymbolName.parse w = ⟨none, none, w⟩ := by
  apply parse_of_head
  intro c hc
  have hmark := not_mark_of_asciiWord (isAsciiWord_of_mem_name h c (List.mem_of_mem_head? hc))
  simp [hmark.1]

/-! ## Nothing is hidden -/

/-- Inside a name, what comes right before is a word character, or a hyphen
behind one, and then a letter or an underscore follows. -/
def Inside (before rest : Line) : Prop :=
  ∃ p more, isAsciiWord p ∧
    (before = p :: more ∨ before = '-' :: p :: more ∧ headIs isAsciiStart rest)

theorem not_startsIdentifier_of_inside {before rest : Line} (h : Inside before rest) :
    startsIdentifier before = false := by
  rcases h with ⟨p, more, hp, rfl | ⟨rfl, -⟩⟩
  · simp [startsIdentifier, isIdentifierChar_of_isAsciiWord hp]
  · have hhyphen : isIdentifierChar '-' = false := by decide +kernel
    simp [startsIdentifier, hhyphen, isSigil, isIdentifierChar_of_isAsciiWord hp]

/-- Going on inside a name one stays inside. -/
theorem inside_append {inner before rest : Line} (h : Inside before (inner ++ rest))
    (hname : continuesAscii (inner ++ rest)) : Inside (inner.reverse ++ before) rest := by
  induction inner generalizing before with
  | nil => exact h
  | cons c cs ih =>
    rw [List.reverse_cons, List.append_assoc, List.singleton_append]
    rw [List.cons_append, continuesAscii] at hname
    split at hname
    · next hhyphen =>
      subst hhyphen
      rw [Bool.and_eq_true] at hname
      -- no hyphen follows a hyphen
      have hnot : ¬isAsciiStart '-' := by decide
      rcases h with ⟨p, more, hp, rfl | ⟨-, hstart⟩⟩
      · exact ih ⟨p, more, hp, Or.inr ⟨rfl, hname.1⟩⟩ hname.2
      · exact absurd hstart hnot
    · rw [Bool.and_eq_true] at hname
      exact ih ⟨c, before, hname.1, Or.inl rfl⟩ hname.2

/-- Behind the first character of a name nothing starts that stands alone. -/
theorem not_startsIdentifier_of_name {inner rest : Line} (hname : isAsciiName (inner ++ rest))
    (hne : inner ≠ []) (before : Line) : startsIdentifier (inner.reverse ++ before) = false := by
  cases inner with
  | nil => exact absurd rfl hne
  | cons c cs =>
    rw [List.cons_append, isAsciiName, Bool.and_eq_true] at hname
    have hinside : Inside (c :: before) (cs ++ rest) := ⟨c, before, hname.1, Or.inl rfl⟩
    rw [List.reverse_cons, List.append_assoc, List.singleton_append]
    exact not_startsIdentifier_of_inside (inside_append hinside hname.2)

/-- A spelling of a variable has a sigil at its start only. -/
theorem not_mem_tail_of_mem_spellings {name : SymbolName} {sigil : Char}
    (hsigil : name.sigil = some sigil) (his : isSigil sigil) (hbase : sigil ∉ name.base)
    {sp : Spelling} (hsp : sp ∈ spellings name) {inner more : Line}
    (htext : sp.text = inner ++ sigil :: more) : inner = [] := by
  cases inner with
  | nil => rfl
  | cons c cs =>
    have hmem : sigil ∈ sp.text.tail := by simp [htext]
    have hbrace : sigil ≠ '{' := by
      rintro rfl
      exact absurd his (by decide)
    have hclose : sigil ≠ '}' := by
      rintro rfl
      exact absurd his (by decide)
    rw [mem_spellings_variable hsigil] at hsp
    rcases hsp with ⟨-, rfl | rfl⟩ | ⟨twigil, htwigil, rfl⟩
    · simp [Spelling.text, Spelling.bare, hbase] at hmem
    · simp [Spelling.text, Spelling.braced, hbase, hbrace, hclose] at hmem
    · have hne : sigil ≠ twigil := by
        rintro rfl
        simp only [isTwigil, Bool.or_eq_true, beq_iff_eq] at htwigil
        rcases htwigil with rfl | rfl <;> exact absurd his (by decide)
      simp [Spelling.text, Spelling.accessor, hbase, hne] at hmem

section
variable {classifier : Option Classifier} {name : SymbolName} {file : FileId} {text : String}

theorem head?_of_mem_spellings {sigil : Char} (hsigil : name.sigil = some sigil) {sp : Spelling}
    (hsp : sp ∈ spellings name) (back : Line) : (sp.text ++ back).head? = some sigil := by
  rw [mem_spellings_variable hsigil] at hsp
  rcases hsp with ⟨-, rfl | rfl⟩ | ⟨twigil, -, rfl⟩ <;> rfl

/-- A spelling of a variable is never inside an earlier match. -/
theorem not_covers_variable {sigil : Char} (hsigil : name.sigil = some sigil) (his : isSigil sigil)
    (hbase : sigil ∉ name.base) {sp : Spelling} (hsp : sp ∈ spellings name) {front back : Line}
    {h : Hit MatchForm} (hmem : h ∈ hits (matchLen? name) (front ++ (sp.text ++ back))) :
    ¬h.Covers front := by
  intro hcovers
  rcases exists_spelling_of_covers hmem hcovers with
    ⟨other, hother, inner, c, more, -, hne, htext, hhead, -⟩
  rw [head?_of_mem_spellings hsigil hsp] at hhead
  cases hhead
  exact hne (not_mem_tail_of_mem_spellings hsigil his hbase hother htext)

/-- A plain name that stands alone is never inside an earlier match. -/
theorem not_covers_plain (hsigil : name.sigil = none) (hname : isAsciiName name.base)
    {front rest : Line} (hstarts : startsIdentifier front.reverse) {h : Hit MatchForm}
    (hmem : h ∈ hits (matchLen? name) (front ++ rest)) : ¬h.Covers front := by
  intro hcovers
  rcases exists_spelling_of_covers hmem hcovers with
    ⟨sp, hsp, inner, c, more, hfront, hne, htext, -, -⟩
  rw [mem_spellings_plain hsigil] at hsp
  have hbase : name.base = inner ++ c :: more := by
    rw [← htext, hsp]
    simp [Spelling.text, Spelling.plain]
  rw [hbase] at hname
  have hnot := not_startsIdentifier_of_name hname hne h.before
  rw [hfront, List.reverse_append, List.reverse_reverse, hnot] at hstarts
  cases hstarts

/-- What is found for a name in ASCII are its uses from the first line on. -/
theorem mem_occurrences_iff (hsigil : ∀ sigil ∈ name.sigil, isSigil sigil)
    (hname : isAsciiName name.base) {first : Nat} {o : Occurrence} :
    o ∈ occurrences classifier name file text first ↔
      first ≤ o.location.range.start.line ∧ IsUse classifier name file text o := by
  constructor
  · exact isUse_of_mem_occurrences
  · rintro ⟨hfirst, huse⟩
    rcases huse with ⟨hsp, hline, hends, hstarts, hcode⟩
    refine mem_occurrences_of_not_covered (startsClearly_of_isAsciiName hname) hfirst hsp hline
      hends hstarts hcode ?_
    intro h hmem
    cases hvariable : name.sigil with
    | none =>
      have hplain : ¬name.hasSigil := by simp [SymbolName.hasSigil, hvariable]
      exact not_covers_plain hvariable hname (hstarts.resolve_left hplain) hmem
    | some sigil =>
      have his := hsigil sigil hvariable
      have hbase : sigil ∉ name.base := by
        intro hin
        have hmark := not_mark_of_asciiWord (isAsciiWord_of_mem_name hname sigil hin)
        rw [his] at hmark
        cases hmark.1
      exact not_covers_variable hvariable his hbase hsp hmem

end

/-! ## Names that are long -/

/-- A name of a single letter, over and over. -/
def longName (n : Nat) : Line := List.replicate n 'a'

/-- A document of one line, which declares what stands at its end. -/
def declaringDoc (front symbol : Line) (kind : SymbolKind) : Document :=
  ⟨⟨⟨0⟩, [.onLine (String.ofList symbol) kind ⟨0⟩ 0], []⟩, String.ofList (front ++ symbol)⟩

/-- There is nothing but the document, and all of it counts as code. -/
def plainWorld : World := ⟨⟨[]⟩, .empty, .empty, .empty, none⟩

theorem byteLen_longName (n : Nat) : byteLen (longName n) = n := by
  induction n with
  | zero => rfl
  | succ n ih =>
    have ha : 'a'.utf8Size = 1 := by decide
    rw [longName, List.replicate_succ, byteLen_cons, ← longName, ih, ha, Nat.add_comm]

theorem isAsciiName_longName {n : Nat} (h : 0 < n) : isAsciiName (longName n) := by
  have hcontinues : ∀ n, continuesAscii (longName n) := by
    intro n
    induction n with
    | zero => rfl
    | succ n ih =>
      rw [longName, List.replicate_succ, continuesAscii, if_neg (by decide), ← longName, ih]
      decide
  cases n with
  | zero => exact absurd h (Nat.lt_irrefl 0)
  | succ n =>
    rw [longName, List.replicate_succ, isAsciiName, ← longName, hcontinues]
    decide

/-- A line that ends in such a name has no line end in it. -/
theorem no_lineEnd_longName {front : Line} (hfront : ∀ c ∈ front, c ≠ '\n' ∧ c ≠ '\r') (n : Nat) :
    ∀ c ∈ front ++ longName n, c ≠ '\n' ∧ c ≠ '\r' := by
  intro c hc
  rcases List.mem_append.1 hc with hc | hc
  · exact hfront c hc
  · rw [(List.mem_replicate.1 hc).2]
    decide

section
variable {front symbol : Line} {kind : SymbolKind}

/-- What the document declares is found in it. -/
theorem resolve_declaringDoc (hne : symbol ≠ []) (world : World) :
    ((declaringDoc front symbol kind).scopes world).resolve (String.ofList symbol) 0 =
      .found .document (.onLine (String.ofList symbol) kind ⟨0⟩ 0) [] := by
  have hempty : (String.ofList symbol).isEmpty = false := by
    rw [Bool.eq_false_iff]
    intro h
    exact hne (by simpa using h)
  simp [Scopes.resolve, hempty, declaringDoc, Document.scopes, Scopes.localVariable,
    Scopes.localOthers, Scopes.nearest?, Table.get, Symbol.onLine, Resolution.ofList]

/-- What it declares is used where it stands, if nothing in front goes on with it. -/
theorem isUse_declaringDoc {sp : Spelling}
    (hsp : sp ∈ spellings (SymbolName.parse symbol)) (htext : sp.text = symbol)
    (hbreaks : ∀ c ∈ front ++ symbol, c ≠ '\n' ∧ c ≠ '\r')
    (hstarts : (SymbolName.parse symbol).hasSigil ∨ startsIdentifier front.reverse) :
    IsUse none (SymbolName.parse symbol) ⟨0⟩ (declaringDoc front symbol kind).text
      (sp.occurrence ⟨0⟩ 0 front) := by
  have hline : (lines (declaringDoc front symbol kind).text)[0]? =
      some (front ++ (sp.text ++ [])) := by
    have hreturn : (front ++ symbol).getLast? ≠ some '\r' := by
      intro hlast
      exact (hbreaks _ (List.mem_of_getLast? hlast)).2 rfl
    have hsplit : splitWhen (· == '\n') (front ++ symbol) = [front ++ symbol] :=
      splitWhen_of_forall fun c hc => beq_eq_false_iff_ne.2 (hbreaks c hc).1
    rw [declaringDoc, lines, linesOf, String.toList_ofList, hsplit, List.map_singleton, dropReturn,
      if_neg hreturn, htext, List.append_nil]
    rfl
  exact ⟨hsp, hline, rfl, hstarts, by simp [InCode]⟩

end

/-! ## References to plain names -/

/-- References are exact. The references to a symbol that is no variable are, in
the order of file, line and column and each once, the uses of the name of its
declaration in the document and in the files that declare it. If the pattern of the
name is not compiled, there are none. -/
theorem plain_references_exact [PatternLibrary] {world : World} {doc : Document} {symbol : String}
    {line : Nat} {declaration : Symbol}
    (hsymbol : (SymbolName.parse symbol.toList).hasSigil = false)
    (hresolve : ((doc.scopes world).resolve symbol line).primary? = some declaration)
    (hname : isAsciiName declaration.name.toList) :
    if PatternLibrary.builds ⟨none, none, declaration.name.toList⟩ then
      ∃ refs, referencesTo? world doc symbol line = some refs ∧ refs.symbol = declaration.name ∧
        refs.declaration = declaration ∧
        refs.occurrences.Pairwise (fun a b => a.location.Precedes b.location) ∧
        ∀ o, o ∈ refs.occurrences ↔
          ∃ file text, searchedText? world doc declaration.name file = some text ∧
            IsUse world.classifier ⟨none, none, declaration.name.toList⟩ file text o
    else referencesTo? world doc symbol line = none := by
  have hparse := parse_of_isAsciiName hname
  split
  · next hbuilds =>
    rcases exists_references_plain hresolve hsymbol (by rw [hparse]; rfl)
      (by rw [hparse]; exact ne_nil_of_isAsciiName hname) (by rw [hparse]; exact hbuilds) with
      ⟨refs, hrefs, hsearched, hdeclaration, hsorted, hmem⟩
    refine ⟨refs, hrefs, hsearched, hdeclaration, hsorted, ?_⟩
    intro o
    rw [hmem, hparse]
    refine exists_congr fun file => exists_congr fun text => and_congr_right fun _ => ?_
    rw [mem_occurrences_iff (by simp) hname]
    exact and_iff_right (Nat.zero_le _)
  · next hrefused =>
    refine referencesTo?_plain_refused hresolve hsymbol ?_
    rw [hparse, Bool.eq_false_iff]
    exact hrefused

/-! A name that overlaps itself: the search passes over its rests inside longer
names, and finds the uses behind them. -/

def hyphenText : String := "sub a-a \x7b \x7d\na-a-a; a-a # a-a"

def hyphenSub (file : Nat) : Symbol := .onLine "a-a" .sub ⟨file⟩ 0

def hyphenDoc : Document := ⟨⟨⟨0⟩, [hyphenSub 0], []⟩, hyphenText⟩

/-- Another file declares the name too. -/
def hyphenWorld : World :=
  ⟨⟨[]⟩, ⟨[], [(⟨1⟩, "our sub a-a \x7b \x7d")]⟩,
    ⟨[("a-a", [hyphenSub 1])], [(⟨1⟩, ["a-a"])], 1⟩, .empty, some .raku⟩

/-- The use on the second line and the one in the other file are found. -/
theorem hyphen_references_exact :
    ((hyphenDoc.scopes hyphenWorld).resolve "a-a" 1).primary? = some (hyphenSub 0) ∧
      ∃ refs, referencesTo? hyphenWorld hyphenDoc "a-a" 1 = some refs ∧
        ⟨⟨⟨0⟩, .onLine 1 7 10⟩, .onLine 1 7 10, .whole⟩ ∈ refs.occurrences ∧
        ⟨⟨⟨1⟩, .onLine 0 8 11⟩, .onLine 0 8 11, .whole⟩ ∈ refs.occurrences := by
  have hresolve : ((hyphenDoc.scopes hyphenWorld).resolve "a-a" 1).primary? =
      some (hyphenSub 0) := by decide +kernel
  have hexact := plain_references_exact (by decide) hresolve (by decide)
  rw [if_pos (by decide)] at hexact
  rcases hexact with ⟨refs, hrefs, -, -, -, hmem⟩
  have hhere : ⟨⟨⟨0⟩, .onLine 1 7 10⟩, .onLine 1 7 10, .whole⟩ ∈ occurrences (some .raku)
      ⟨none, none, "a-a".toList⟩ ⟨0⟩ hyphenText 0 := by decide +kernel
  have hother : ⟨⟨⟨1⟩, .onLine 0 8 11⟩, .onLine 0 8 11, .whole⟩ ∈ occurrences (some .raku)
      ⟨none, none, "a-a".toList⟩ ⟨1⟩ "our sub a-a \x7b \x7d" 0 := by decide +kernel
  refine ⟨hresolve, refs, hrefs, (hmem _).2 ?_, (hmem _).2 ?_⟩
  · exact ⟨⟨0⟩, hyphenText, rfl, (isUse_of_mem_occurrences hhere).2⟩
  · exact ⟨⟨1⟩, "our sub a-a \x7b \x7d", by decide +kernel, (isUse_of_mem_occurrences hother).2⟩

/-- The standard library does not compile a name that is too long. It may be declared
and used, but has no references. -/
theorem not_references_longName {n : Nat} (h : PatternLibrary.sizeLimit < 32 * n) :
    (SymbolName.parse (longName n)).hasSigil = false ∧ isAsciiName (longName n) ∧
      (((declaringDoc "sub ".toList (longName n) .sub).scopes plainWorld).resolve
          (String.ofList (longName n)) 0).primary? =
        some (.onLine (String.ofList (longName n)) .sub ⟨0⟩ 0) ∧
      IsUse none ⟨none, none, longName n⟩ ⟨0⟩ (declaringDoc "sub ".toList (longName n) .sub).text
        ⟨⟨⟨0⟩, .onLine 0 4 (4 + n)⟩, .onLine 0 4 (4 + n), .whole⟩ ∧
      referencesTo? plainWorld (declaringDoc "sub ".toList (longName n) .sub)
        (String.ofList (longName n)) 0 = none := by
  have hname : isAsciiName (longName n) := isAsciiName_longName (by omega)
  have hparse := parse_of_isAsciiName hname
  have hplain : (SymbolName.parse (longName n)).hasSigil = false := by rw [hparse]; rfl
  have hresolve : (((declaringDoc "sub ".toList (longName n) .sub).scopes plainWorld).resolve
      (String.ofList (longName n)) 0).primary? =
        some (.onLine (String.ofList (longName n)) .sub ⟨0⟩ 0) := by
    rw [resolve_declaringDoc (ne_nil_of_isAsciiName hname)]
    rfl
  refine ⟨hplain, hname, hresolve, ?_, ?_⟩
  · have huse := @isUse_declaringDoc "sub ".toList (longName n) .sub (.plain (longName n))
      (by rw [hparse, mem_spellings_plain rfl]) (List.append_nil _)
      (no_lineEnd_longName (by simp) n) (Or.inr (by decide +kernel))
    rw [hparse] at huse
    have hoccurrence : (Spelling.plain (longName n)).occurrence ⟨0⟩ 0 "sub ".toList =
        ⟨⟨⟨0⟩, .onLine 0 4 (4 + n)⟩, .onLine 0 4 (4 + n), .whole⟩ := by
      have hfront : byteLen "sub ".toList = 4 := by decide
      simp only [Spelling.occurrence, Spelling.text, Spelling.plain, byteLen_append, hfront,
        byteLen_nil, byteLen_longName, Nat.add_zero, Nat.zero_add]
    rwa [hoccurrence] at huse
  · refine referencesTo?_plain_refused hresolve (by rwa [String.toList_ofList]) ?_
    have hbytes : ¬32 * n ≤ PatternLibrary.sizeLimit := Nat.not_le_of_lt h
    rw [Symbol.onLine, String.toList_ofList, hparse]
    simpa [PatternLibrary.builds, PatternLibrary.stateSize, PatternLibrary.spelledBytes,
      byteLen_longName] using hbytes

/-- For example one of 500000 letters. -/
theorem plain_references_refused :
    (SymbolName.parse (longName 500000)).hasSigil = false ∧ isAsciiName (longName 500000) ∧
      (((declaringDoc "sub ".toList (longName 500000) .sub).scopes plainWorld).resolve
          (String.ofList (longName 500000)) 0).primary? =
        some (.onLine (String.ofList (longName 500000)) .sub ⟨0⟩ 0) ∧
      IsUse none ⟨none, none, longName 500000⟩ ⟨0⟩
        (declaringDoc "sub ".toList (longName 500000) .sub).text
        ⟨⟨⟨0⟩, .onLine 0 4 500004⟩, .onLine 0 4 500004, .whole⟩ ∧
      referencesTo? plainWorld (declaringDoc "sub ".toList (longName 500000) .sub)
        (String.ofList (longName 500000)) 0 = none :=
  not_references_longName (by decide)

/-! ## References to variables -/

/-- What the document itself declares does not depend on anything else. -/
theorem resolve_document {doc : Document} {world : World} {symbol : String} {line : Nat}
    {declaration : Symbol} {others : List Symbol}
    (h : (doc.scopes world).resolve symbol line = .found .document declaration others)
    (other : World) :
    (doc.scopes other).resolve symbol line = .found .document declaration others := by
  unfold Scopes.resolve at h ⊢
  split
  · next hempty =>
    rw [if_pos hempty] at h
    cases h
  · next hempty =>
    rw [if_neg hempty] at h
    simp only at h ⊢
    -- the first tier looks at the table only
    have hsame : (if (SymbolName.parse symbol.toList).hasSigil then
          (doc.scopes other).localVariable symbol line else (doc.scopes other).localOthers symbol) =
        if (SymbolName.parse symbol.toList).hasSigil then
          (doc.scopes world).localVariable symbol line
        else (doc.scopes world).localOthers symbol := rfl
    rw [hsame]
    revert h
    generalize (if (SymbolName.parse symbol.toList).hasSigil then
      (doc.scopes world).localVariable symbol line
      else (doc.scopes world).localOthers symbol) = inDocument
    intro h
    cases inDocument with
    | cons first more => exact h
    | nil =>
      -- an answer of a later tier says so
      simp only [Resolution.ofList] at h
      split at h
      · cases h
      · split at h <;> cases h

/-- References to a variable are exact and stay in the document. They are, in
order and each once, the uses of the variable from the line of its declaration
on, and nothing in the index or in other files matters. If the pattern of the
variable is not compiled, there are none. -/
theorem variable_references_exact [PatternLibrary] {world : World} {doc : Document}
    {symbol : String} {line : Nat} {declaration : Symbol} {others : List Symbol}
    (hsigil : (SymbolName.parse symbol.toList).hasSigil)
    (hname : isAsciiName (SymbolName.parse symbol.toList).base)
    (hresolve : (doc.scopes world).resolve symbol line = .found .document declaration others) :
    if PatternLibrary.builds (SymbolName.parse symbol.toList) then
      ∃ refs, referencesTo? world doc symbol line = some refs ∧ refs.symbol = symbol ∧
        refs.declaration = declaration ∧
        refs.occurrences.Pairwise (fun a b => a.location.Precedes b.location) ∧
        (∀ o, o ∈ refs.occurrences ↔ declaration.line ≤ o.location.range.start.line ∧
          IsUse world.classifier (SymbolName.parse symbol.toList) doc.table.file doc.text o) ∧
        (∀ o ∈ refs.occurrences, o.location.file = doc.table.file) ∧
        ∀ other : World, other.classifier = world.classifier →
          referencesTo? other doc symbol line = some refs
    else referencesTo? world doc symbol line = none := by
  have hprimary : ∀ other : World,
      ((doc.scopes other).resolve symbol line).primary? = some declaration := by
    intro other
    rw [resolve_document hresolve other]
    rfl
  split
  · next hbuilds =>
    rcases exists_references_variable (hprimary world) hsigil (ne_nil_of_isAsciiName hname) hbuilds
      with ⟨refs, hrefs, hsearched, hdeclaration, hsorted, hmem⟩
    refine ⟨refs, hrefs, hsearched, hdeclaration, hsorted, ?_, ?_, ?_⟩
    · intro o
      rw [hmem, mem_occurrences_iff (fun sigil => isSigil_of_parse) hname]
    · intro o ho
      exact file_of_mem_occurrences ((hmem o).1 ho)
    · intro other hclassifier
      rw [← hrefs]
      simp only [referencesTo?, hprimary, hsigil, hclassifier, Option.bind_eq_bind,
        Option.bind_some, if_true]
  · next hrefused => exact referencesTo?_variable_refused hsigil (Bool.eq_false_iff.2 hrefused)

/-! An attribute in all its forms, behind an older variable of the same name. -/

def scalarText : String := "my $x;\nmy $x = $!x; say $x-y, $\x7bx\x7d; # $x"

def scalarDoc : Document :=
  ⟨⟨⟨0⟩, [.onLine "$x" .localVar ⟨0⟩ 0, .onLine "$x" .localVar ⟨0⟩ 1], []⟩, scalarText⟩

/-- There is nothing but the document. -/
def soleWorld : World := ⟨⟨[]⟩, .empty, .empty, .empty, some .raku⟩

/-- The second declaration is searched for from its line on. Of the attribute and
of the braced form only the base is edited. -/
theorem scalar_references_exact :
    (scalarDoc.scopes soleWorld).resolve "$x" 1 =
        .found .document (.onLine "$x" .localVar ⟨0⟩ 1) [] ∧
      ∃ refs, referencesTo? soleWorld scalarDoc "$x" 1 = some refs ∧
        ⟨⟨⟨0⟩, .onLine 1 8 11⟩, .onLine 1 10 11, .baseOnly⟩ ∈ refs.occurrences ∧
        ⟨⟨⟨0⟩, .onLine 1 23 27⟩, .onLine 1 25 26, .baseOnly⟩ ∈ refs.occurrences ∧
        ∀ o ∈ refs.occurrences, 1 ≤ o.location.range.start.line := by
  have hresolve : (scalarDoc.scopes soleWorld).resolve "$x" 1 =
      .found .document (.onLine "$x" .localVar ⟨0⟩ 1) [] := by decide +kernel
  have hexact := variable_references_exact (by decide) (by decide) hresolve
  rw [if_pos (by decide)] at hexact
  rcases hexact with ⟨refs, hrefs, -, -, -, hmem, -⟩
  have hattribute : ⟨⟨⟨0⟩, .onLine 1 8 11⟩, .onLine 1 10 11, .baseOnly⟩ ∈ occurrences (some .raku)
      (.parse "$x".toList) ⟨0⟩ scalarText 1 := by decide +kernel
  have hbraced : ⟨⟨⟨0⟩, .onLine 1 23 27⟩, .onLine 1 25 26, .baseOnly⟩ ∈ occurrences (some .raku)
      (.parse "$x".toList) ⟨0⟩ scalarText 1 := by decide +kernel
  refine ⟨hresolve, refs, hrefs, (hmem _).2 ?_, (hmem _).2 ?_, ?_⟩
  · exact isUse_of_mem_occurrences hattribute
  · exact isUse_of_mem_occurrences hbraced
  · intro o ho
    exact ((hmem o).1 ho).1

theorem parse_sigil_longName {n : Nat} :
    SymbolName.parse ('$' :: longName n) = ⟨some '$', none, longName n⟩ := by
  cases n with
  | zero => rfl
  | succ n => simp [longName, List.replicate_succ, SymbolName.parse, isSigil, isTwigil]

/-- The pattern of a variable has its name three times. The standard library refuses a
name of a third of the length. -/
theorem not_references_sigil_longName {n : Nat} (h : PatternLibrary.sizeLimit < 32 * (3 * n)) :
    (SymbolName.parse ('$' :: longName n)).hasSigil ∧
      isAsciiName (SymbolName.parse ('$' :: longName n)).base ∧
      ((declaringDoc "my ".toList ('$' :: longName n) .localVar).scopes plainWorld).resolve
          (String.ofList ('$' :: longName n)) 0 =
        .found .document (.onLine (String.ofList ('$' :: longName n)) .localVar ⟨0⟩ 0) [] ∧
      IsUse none (.parse ('$' :: longName n)) ⟨0⟩
        (declaringDoc "my ".toList ('$' :: longName n) .localVar).text
        ⟨⟨⟨0⟩, .onLine 0 3 (4 + n)⟩, .onLine 0 3 (4 + n), .whole⟩ ∧
      referencesTo? plainWorld (declaringDoc "my ".toList ('$' :: longName n) .localVar)
        (String.ofList ('$' :: longName n)) 0 = none := by
  have hparse := @parse_sigil_longName n
  have hvariable : (SymbolName.parse ('$' :: longName n)).hasSigil := by rw [hparse]; rfl
  refine ⟨hvariable, ?_, resolve_declaringDoc (List.cons_ne_nil _ _) _, ?_, ?_⟩
  · rw [hparse]
    exact isAsciiName_longName (by omega)
  · have hlines : ∀ c ∈ "my ".toList ++ '$' :: longName n, c ≠ '\n' ∧ c ≠ '\r' :=
      @no_lineEnd_longName "my $".toList (by simp) n
    have huse := @isUse_declaringDoc "my ".toList ('$' :: longName n) .localVar
      (.bare '$' (longName n))
      (by rw [hparse, mem_spellings_variable rfl]; exact Or.inl ⟨rfl, Or.inl rfl⟩)
      (List.append_nil _) hlines (Or.inl hvariable)
    have hoccurrence : (Spelling.bare '$' (longName n)).occurrence ⟨0⟩ 0 "my ".toList =
        ⟨⟨⟨0⟩, .onLine 0 3 (4 + n)⟩, .onLine 0 3 (4 + n), .whole⟩ := by
      have hfront : byteLen "my ".toList = 3 := by decide
      have hsigil : '$'.utf8Size = 1 := by decide
      simp only [Spelling.occurrence, Spelling.text, Spelling.bare, byteLen_append, hfront,
        byteLen_cons, hsigil, byteLen_nil, byteLen_longName, Nat.add_zero,
        List.nil_append, ← Nat.add_assoc]
    rwa [hoccurrence] at huse
  · refine referencesTo?_variable_refused (by rwa [String.toList_ofList]) ?_
    have hbytes : ¬32 * (3 * n) ≤ PatternLibrary.sizeLimit := Nat.not_le_of_lt h
    rw [String.toList_ofList, hparse]
    simpa [PatternLibrary.builds, PatternLibrary.stateSize, PatternLibrary.spelledBytes,
      byteLen_longName] using hbytes

/-- For example one of 180000 letters. -/
theorem variable_references_refused :
    (SymbolName.parse ('$' :: longName 180000)).hasSigil ∧
      isAsciiName (SymbolName.parse ('$' :: longName 180000)).base ∧
      ((declaringDoc "my ".toList ('$' :: longName 180000) .localVar).scopes plainWorld).resolve
          (String.ofList ('$' :: longName 180000)) 0 =
        .found .document (.onLine (String.ofList ('$' :: longName 180000)) .localVar ⟨0⟩ 0) [] ∧
      IsUse none (.parse ('$' :: longName 180000)) ⟨0⟩
        (declaringDoc "my ".toList ('$' :: longName 180000) .localVar).text
        ⟨⟨⟨0⟩, .onLine 0 3 180004⟩, .onLine 0 3 180004, .whole⟩ ∧
      referencesTo? plainWorld (declaringDoc "my ".toList ('$' :: longName 180000) .localVar)
        (String.ofList ('$' :: longName 180000)) 0 = none :=
  not_references_sigil_longName (by decide)

end RakuAtlas.Query
