import Mathlib
import RakuAtlas.Proofs.Extents

/-!
# RakuAtlas.Proofs.Nesting — blocks in braces are nested

Each block is measured by a count of its own, which starts on its header. The counts
of two blocks differ by the depth between the headers (`depth_append`), and inside
the outer block that depth is positive. So the inner count is back to zero where the
outer one is, if not before (`sub_mem_closings`), and of two blocks whose headers open
a brace one is inside the other or they are apart (`nested_of_mem_readFrom`).

The count of a block ends on the first line at whose end no brace is open
(`closing?_eq_some`). Neither the early end of a search nor the other ways to
measure a block matter once the header has opened a brace.
-/

namespace RakuAtlas

open Text (Line)

/-! ## Depth -/

namespace Block

/-- What a character adds to the depth of braces. -/
def weight (c : Char) : Int := if c = '\x7b' then 1 else if c = '\x7d' then -1 else 0

/-- How many more braces the lines open than they close, empty hashes apart. -/
def depth (codes : List Line) : Int := ((codes.flatMap dropEmptyHashes).map weight).sum

@[simp] theorem depth_nil : depth [] = 0 := rfl

@[simp] theorem depth_append (above below : List Line) :
    depth (above ++ below) = depth above + depth below := by
  simp [depth]

theorem depth_cons (code : Line) (more : List Line) :
    depth (code :: more) = depth [code] + depth more :=
  depth_append [code] more

/-- Counting the characters of a line adds its depth and notes its opening braces. -/
theorem count_eq (braces : Braces) (cs : Line) :
    braces.count cs =
      ⟨braces.depth + (cs.map weight).sum, braces.opened || cs.contains '\x7b'⟩ := by
  induction cs generalizing braces with
  | nil => simp [Braces.count]
  | cons c more ih =>
    have hstep : braces.count (c :: more) = (braces.step c).count more := rfl
    rw [hstep, ih]
    by_cases hopen : c = '\x7b'
    · subst hopen
      simp [Braces.step, weight]
      omega
    · by_cases hclose : c = '\x7d'
      · subst hclose
        simp [Braces.step, weight]
        omega
      · simp [Braces.step, weight, hopen, hclose, Ne.symm hopen]

/-- The line opens a brace that is no part of an empty hash. -/
def OpensBrace (code : Line) : Prop := '\x7b' ∈ dropEmptyHashes code

instance (code : Line) : Decidable (OpensBrace code) :=
  inferInstanceAs (Decidable ('\x7b' ∈ dropEmptyHashes code))

theorem count_dropEmptyHashes (braces : Braces) (code : Line) :
    braces.count (dropEmptyHashes code) =
      ⟨braces.depth + depth [code], braces.opened || (dropEmptyHashes code).contains '\x7b'⟩ := by
  rw [count_eq]
  simp [depth]

/-! ## Where a block closes -/

/-- The lines at whose end no brace is open any more, if `opened` braces are open
in front of the first of them. -/
def closings (opened : Int) (codes : List Line) : Set Nat :=
  {n | n < codes.length ∧ opened + depth (codes.take (n + 1)) ≤ 0}

theorem zero_mem_closings {opened : Int} {code : Line} {more : List Line} :
    0 ∈ closings opened (code :: more) ↔ opened + depth [code] ≤ 0 := by
  simp [closings]

theorem succ_mem_closings {opened : Int} {code : Line} {more : List Line} {n : Nat} :
    n + 1 ∈ closings opened (code :: more) ↔ n ∈ closings (opened + depth [code]) more := by
  have hdepth : depth ((code :: more).take (n + 1 + 1)) =
      depth [code] + depth (more.take (n + 1)) := by
    rw [List.take_succ_cons, depth_cons]
  simp only [closings, Set.mem_ofPred_eq, List.length_cons, hdepth]
  omega

/-- A search that has seen a brace on its first line ends on the first line that closes
all braces, whatever makes it give up before it sees one. -/
theorem closingFrom?_eq_some {givesUp : Nat → Line → Bool} {line n : Nat} {braces : Braces}
    {codes : List Line}
    (hopened : ∀ code ∈ codes.head?, (braces.count (dropEmptyHashes code)).opened)
    (h : IsLeast (closings braces.depth codes) n) :
    closingFrom? givesUp line braces codes = some (line + n) := by
  induction codes generalizing line n braces with
  | nil =>
    have hlength : n < 0 := h.1.1
    omega
  | cons code more ih =>
    have hseen := hopened code rfl
    have hdepth : (braces.count (dropEmptyHashes code)).depth = braces.depth + depth [code] := by
      rw [count_dropEmptyHashes]
    rw [closingFrom?]
    by_cases hclosed : braces.depth + depth [code] ≤ 0
    · have hzero : n ≤ 0 := h.2 (zero_mem_closings.2 hclosed)
      obtain rfl : n = 0 := by omega
      simp [Braces.isClosed, hseen, hdepth, hclosed]
    · cases n with
      | zero => exact absurd (zero_mem_closings.1 h.1) hclosed
      | succ n =>
        have hleast : IsLeast (closings (braces.count (dropEmptyHashes code)).depth more) n := by
          rw [hdepth]
          refine ⟨succ_mem_closings.1 h.1, ?_⟩
          intro m hm
          have hle := h.2 (succ_mem_closings.2 hm)
          omega
        have hstay : ∀ next ∈ more.head?,
            ((braces.count (dropEmptyHashes code)).count (dropEmptyHashes next)).opened := by
          intro next _
          rw [count_dropEmptyHashes, hseen, Bool.true_or]
        simp only [Braces.isClosed, hseen, hdepth, hclosed, decide_false, Bool.and_false,
          Bool.not_true, Bool.false_and, Bool.false_eq_true, if_false]
        rw [ih hstay hleast]
        congr 1
        omega

theorem closing?_eq_some {givesUp : Nat → Line → Bool} {header : Line} {following : List Line}
    {n : Nat} (hopens : OpensBrace header) (h : IsLeast (closings 0 (header :: following)) n) :
    closing? givesUp (header :: following) = some n := by
  have hopened : ∀ code ∈ (header :: following).head?,
      (Braces.none.count (dropEmptyHashes code)).opened := by
    intro code hcode
    obtain rfl : header = code := by simpa using hcode
    rw [count_dropEmptyHashes, List.contains_iff_mem.2 hopens, Bool.or_true]
  rw [closing?, closingFrom?_eq_some hopened h, Nat.zero_add]

/-- Where the outer block closes first, the inner one is closed too: between the headers
the depth is positive. -/
theorem sub_mem_closings {codes : List Line} {n between : Nat}
    (h : IsLeast (closings 0 codes) n) (hbetween : 0 < between) (hin : between ≤ n) :
    n - between ∈ closings 0 (codes.drop between) := by
  obtain ⟨hlength, hclosed⟩ := h.1
  have hdeep : 0 < depth (codes.take between) := by
    by_contra hshallow
    have hearlier : between - 1 ∈ closings 0 codes := by
      refine ⟨by omega, ?_⟩
      rw [Nat.sub_add_cancel hbetween]
      omega
    have hle := h.2 hearlier
    omega
  have hsplit : depth (codes.take (n + 1)) =
      depth (codes.take between) + depth ((codes.drop between).take (n - between + 1)) := by
    have hlines : n + 1 = between + (n - between + 1) := by omega
    rw [hlines, List.take_add, depth_append]
  refine ⟨?_, ?_⟩
  · rw [List.length_drop]
    omega
  · omega

/-! ## Lengths of blocks -/

/-- A block whose header opens a brace ends on its header or on the first line that closes
all braces. -/
theorem blockLength_of_opensBrace {header : Line} {following : List Line} {n : Nat}
    (hopens : OpensBrace header) (h : IsLeast (closings 0 (header :: following)) n) :
    blockLength header following = 0 ∨ blockLength header following = n := by
  unfold blockLength
  split
  · exact Or.inl rfl
  · rw [closing?_eq_some hopens h]
    exact Or.inr rfl

/-- A scope that is no unit is such a block, too. -/
theorem scopeLength_of_opensBrace {header : Line} {following : List Line} {n : Nat}
    (hunit : Header.isUnit header = false) (hopens : OpensBrace header)
    (h : IsLeast (closings 0 (header :: following)) n) :
    scopeLength header following = 0 ∨ scopeLength header following = n := by
  simp only [scopeLength, hunit]
  split
  · exact Or.inl rfl
  · simp only [Bool.false_eq_true, if_false, closing?_eq_some hopens h, or_true]

end Block

/-! ## Declarations -/

namespace Declaration

/-- The last line of what is declared. -/
def lastLine (d : Declaration) : Nat := d.form.lastLine d.line

/-- The declaration has a block, and its header opens it with a brace: it is no unit. -/
structure InBraces (codes : List Line) (d : Declaration) : Prop where
  hasBlock : d.form.hasBlock
  isUnit_eq : ∀ code ∈ codes[d.line]?, Header.isUnit code = false
  opensBrace : ∀ code ∈ codes[d.line]?, Block.OpensBrace code

/-- The lines below that of a declaration at whose end its block is closed, counted from
that line. -/
def closings (codes : List Line) (d : Declaration) : Set Nat :=
  Block.closings 0 (codes.drop d.line)

/-- What is declared on a line ends there or where its block closes. -/
theorem Recognized.lastLine_of_opensBrace {here : Cursor} {ctx next : Context} {form : Form}
    {n : Nat} (h : Recognized here ctx form next) (hmode : here.mode.measuresBlocks)
    (hunit : Header.isUnit here.code = false) (hopens : Block.OpensBrace here.code)
    (hclosing : IsLeast (Block.closings 0 (here.code :: here.following)) n) :
    form.lastLine here.line = here.line ∨ form.lastLine here.line = here.line + n := by
  have hblock := Block.blockLength_of_opensBrace hopens hclosing
  cases h with
  | scope =>
    have hscope := Block.scopeLength_of_opensBrace hunit hopens hclosing
    simp only [Form.lastLine]
    omega
  | callable | production | phaser =>
    simp only [Form.lastLine, Cursor.blockStop, hmode, if_true]
    omega
  | field | object | varDecl | introduced | importing => exact Or.inl rfl

variable {mode : ParseMode} {codes : List Line}

theorem lastLine_of_inBraces {d : Declaration} {n : Nat} (hmode : mode.measuresBlocks)
    (hd : d ∈ readFrom mode 0 .initial codes) (hbraces : d.InBraces codes)
    (hclosing : IsLeast (d.closings codes) n) :
    d.lastLine = d.line ∨ d.lastLine = d.line + n := by
  obtain ⟨above, code, following, before, next, hcodes, hline, hfound⟩ :=
    exists_recognize_of_mem_readFrom hd
  have habove : d.line = above.length := by omega
  have hheader : codes[d.line]? = some code := by simp [hcodes, habove]
  have hdrop : codes.drop d.line = code :: following := by simp [hcodes, habove]
  rw [closings, hdrop] at hclosing
  exact (recognized_of_recognize hfound).lastLine_of_opensBrace hmode
    (hbraces.isUnit_eq code hheader) (hbraces.opensBrace code hheader) hclosing

/-- A block that begins inside another one ends inside it. -/
theorem lastLine_le_of_inside {outer inner : Declaration} (hmode : mode.measuresBlocks)
    (houter : outer ∈ readFrom mode 0 .initial codes)
    (hinner : inner ∈ readFrom mode 0 .initial codes) (hbraces : outer.InBraces codes)
    (hbraces' : inner.InBraces codes) (hcloses : (outer.closings codes).Nonempty)
    (hbelow : outer.line < inner.line) (hin : inner.line ≤ outer.lastLine) :
    inner.lastLine ≤ outer.lastLine := by
  have hclosing := isLeast_csInf hcloses
  obtain honly | hstop := lastLine_of_inBraces hmode houter hbraces hclosing
  · omega
  -- the inner block is closed where the outer one is
  have hmem : sInf (outer.closings codes) - (inner.line - outer.line) ∈ inner.closings codes := by
    have hsub := Block.sub_mem_closings hclosing (Nat.sub_pos_of_lt hbelow) (by omega)
    rwa [List.drop_drop, Nat.add_sub_cancel' hbelow.le] at hsub
  have hclosing' := isLeast_csInf ⟨_, hmem⟩
  have hfirst := hclosing'.2 hmem
  obtain honly' | hstop' := lastLine_of_inBraces hmode hinner hbraces' hclosing'
  · omega
  · omega

/-- The lines of a declaration with its block. -/
def extent (d : Declaration) : Set Nat := Set.Icc d.line d.lastLine

/-- A block that closes and one that begins no earlier are nested or apart. -/
theorem nested_of_line_le {outer inner : Declaration} (hmode : mode.measuresBlocks)
    (houter : outer ∈ readFrom mode 0 .initial codes)
    (hinner : inner ∈ readFrom mode 0 .initial codes) (hbraces : outer.InBraces codes)
    (hbraces' : inner.InBraces codes) (hcloses : (outer.closings codes).Nonempty)
    (hle : outer.line ≤ inner.line) :
    inner.extent ⊆ outer.extent ∨ outer.extent ⊆ inner.extent ∨
      Disjoint outer.extent inner.extent := by
  obtain hsame | hbelow := Nat.eq_or_lt_of_le hle
  · obtain hshorter | hlonger := Nat.le_total inner.lastLine outer.lastLine
    · exact Or.inl (Set.Icc_subset_Icc hle hshorter)
    · exact Or.inr (Or.inl (Set.Icc_subset_Icc hsame.ge hlonger))
  · by_cases hin : inner.line ≤ outer.lastLine
    · have hstop := lastLine_le_of_inside hmode houter hinner hbraces hbraces' hcloses hbelow hin
      exact Or.inl (Set.Icc_subset_Icc hle hstop)
    · refine Or.inr (Or.inr (Set.disjoint_left.2 ?_))
      intro line hline hline'
      exact hin (hline'.1.trans hline.2)

/-- In the modes that measure blocks, a block in braces that begins inside another one
which closes ends inside it. So of two blocks that close one is inside the other or they
have no line in common. -/
theorem nested_of_mem_readFrom {outer inner : Declaration} (hmode : mode.measuresBlocks)
    (houter : outer ∈ readFrom mode 0 .initial codes)
    (hinner : inner ∈ readFrom mode 0 .initial codes) (hbraces : outer.InBraces codes)
    (hbraces' : inner.InBraces codes) (hcloses : (outer.closings codes).Nonempty) :
    (outer.line < inner.line → inner.line ≤ outer.lastLine → inner.lastLine ≤ outer.lastLine) ∧
      ((inner.closings codes).Nonempty →
        inner.extent ⊆ outer.extent ∨ outer.extent ⊆ inner.extent ∨
          Disjoint outer.extent inner.extent) := by
  refine ⟨lastLine_le_of_inside hmode houter hinner hbraces hbraces' hcloses, ?_⟩
  intro hcloses'
  obtain hle | hle := Nat.le_total outer.line inner.line
  · exact nested_of_line_le hmode houter hinner hbraces hbraces' hcloses hle
  · obtain hin | hout | hapart :=
      nested_of_line_le hmode hinner houter hbraces' hbraces hcloses' hle
    · exact Or.inr (Or.inl hin)
    · exact Or.inl hout
    · exact Or.inr (Or.inr hapart.symm)

/-- A method whose block is closed on the same line as that of its class, and one brace
more than there is to close. -/
def closedAtOnce : List Line :=
  ["class Tree \x7b", "method size(%seen = \x7b\x7d) \x7b", "\x7d \x7d \x7d",
    "sub f \x7b \x7d"].map String.toList

theorem nested_closedAtOnce :
    (⟨0, "", .scope .classDecl "Tree" 2⟩ : Declaration) ∈
        readFrom .outline 0 .initial closedAtOnce ∧
      (⟨1, "Tree", .callable .method "size" 2 ["%seen"]⟩ : Declaration) ∈
        readFrom .outline 0 .initial closedAtOnce ∧
      (⟨1, "Tree", .callable .method "size" 2 ["%seen"]⟩ : Declaration).lastLine ≤
        (⟨0, "", .scope .classDecl "Tree" 2⟩ : Declaration).lastLine := by
  have houter : (⟨0, "", .scope .classDecl "Tree" 2⟩ : Declaration) ∈
      readFrom .outline 0 .initial closedAtOnce := by decide +kernel
  have hinner : (⟨1, "Tree", .callable .method "size" 2 ["%seen"]⟩ : Declaration) ∈
      readFrom .outline 0 .initial closedAtOnce := by decide +kernel
  have hnested := @nested_of_mem_readFrom .outline closedAtOnce _ _ rfl houter hinner
    ⟨rfl, by decide, by decide⟩ ⟨rfl, by decide, by decide⟩ ⟨2, by decide, by decide⟩
  exact ⟨houter, hinner, hnested.1 (by decide) (by decide)⟩

end Declaration

end RakuAtlas
