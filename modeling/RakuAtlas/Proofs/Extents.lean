import RakuAtlas.Proofs.Declarations

/-!
# RakuAtlas.Proofs.Extents — declarations stay inside their text

Whatever the braces of a text are, balanced or not, a search for a closing brace
ends on one of the lines it looks at, or fails (`closingFrom?_mem_Ico`), and so does
each of the ways to measure a block (`scopeLength_le`, `blockLength_le`). The lines
that are read are as many as those of the text (`length_prepare`). So what a line
declares ends neither before that line nor behind the text
(`lastLine_of_mem_parse`).
-/

namespace RakuAtlas

open Text (Line)

/-! ## Blocks -/

namespace Block

/-- A block closes on one of the lines that are searched. -/
theorem closingFrom?_mem_Ico {givesUp : Nat → Line → Bool} {line : Nat} {braces : Braces}
    {codes : List Line} {stop : Nat} (h : closingFrom? givesUp line braces codes = some stop) :
    line ≤ stop ∧ stop < line + codes.length := by
  induction codes generalizing line braces with
  | nil => cases h
  | cons code more ih =>
    rw [List.length_cons]
    simp only [closingFrom?] at h
    split at h
    · -- the block is closed on this line
      obtain rfl := Option.some.inj h
      omega
    · split at h
      · cases h
      · have := ih h
        omega

theorem closing?_lt {givesUp : Nat → Line → Bool} {codes : List Line} {stop : Nat}
    (h : closing? givesUp codes = some stop) : stop < codes.length := by
  have := (closingFrom?_mem_Ico h).2
  omega

/-- A scope goes on over lines that are there. -/
theorem scopeLength_le (header : Line) (following : List Line) :
    scopeLength header following ≤ following.length := by
  simp only [scopeLength]
  split
  · exact Nat.zero_le _
  · split
    · next length hblock =>
      split at hblock
      · cases hblock
      · have := closing?_lt hblock
        rw [List.length_cons] at this
        omega
    · exact (List.takeWhile_sublist _).length_le

/-- A block goes on over lines that are there. -/
theorem blockLength_le (header : Line) (following : List Line) :
    blockLength header following ≤ following.length := by
  unfold blockLength
  split
  · exact Nat.zero_le _
  · cases hclosing : closing? (fun _ _ => false) (header :: following) with
    | none => exact Nat.zero_le _
    | some stop =>
      have := closing?_lt hclosing
      rw [List.length_cons] at this
      rw [Option.getD_some]
      omega

end Block

/-! ## Lines -/

namespace Lexical

/-- A classifier that does not fail says something of each line. -/
theorem Classifier.length_of_runFrom {c : Classifier} {state : LineState} {lines : List Line}
    {found : List (LineState × List Piece)} (h : c.runFrom state lines = .ok found) :
    found.length = lines.length := by
  induction lines generalizing state found with
  | nil =>
    cases h
    rfl
  | cons line more ih =>
    simp only [runFrom] at h
    cases hline : c.classify state line with
    | error e =>
      rw [hline] at h
      cases h
    | ok cut =>
      obtain ⟨pieces, next⟩ := cut
      cases hmore : c.runFrom next more with
      | error e =>
        rw [hline] at h
        simp only [bind, Except.bind, hmore] at h
        cases h
      | ok others =>
        rw [hline] at h
        simp only [bind, Except.bind, hmore] at h
        cases h
        rw [List.length_cons, List.length_cons, ih hmore]

theorem Classifier.length_of_skeleton {c : Classifier} {lines codes : List Line}
    (h : c.skeleton lines = .ok codes) : codes.length = lines.length := by
  unfold skeleton run at h
  cases hrun : c.runFrom .initial lines with
  | error e =>
    rw [hrun] at h
    cases h
  | ok found =>
    rw [hrun] at h
    cases h
    rw [List.length_map, length_of_runFrom hrun]

end Lexical

/-- The last line of what is declared on a line. -/
def Form.lastLine (line : Nat) : Form → Nat
  | .scope _ _ stop | .callable _ _ stop _ | .production _ _ stop | .phaser _ stop => stop
  | .field _ | .varDecl _ _ | .importing _ => line

/-- Whether what is declared has a block. -/
def Form.hasBlock : Form → Bool
  | .scope _ _ _ | .callable _ _ _ _ | .production _ _ _ | .phaser _ _ => true
  | .field _ | .varDecl _ _ | .importing _ => false

namespace Declaration

/-- As many lines are read as there are, with a classifier that fails and without
one too. -/
@[simp] theorem length_prepare (mode : ParseMode) (classifier : Option Lexical.Classifier)
    (lines : List Line) : (prepare mode classifier lines).length = lines.length := by
  simp only [prepare]
  split
  · split
    · split
      · next hskeleton => exact Lexical.Classifier.length_of_skeleton hskeleton
      · exact List.length_map ..
    · exact List.length_map ..
  · exact List.length_map ..

/-! ## Declarations -/

theorem Cursor.blockStop_mem_Icc (here : Cursor) :
    here.line ≤ here.blockStop ∧ here.blockStop ≤ here.line + here.following.length := by
  have hlength := Block.blockLength_le here.code here.following
  unfold blockStop
  split
  · omega
  · omega

/-- What a line declares ends on the line or on one of those that follow. -/
theorem Recognized.lastLine_mem_Icc {here : Cursor} {ctx next : Context} {form : Form}
    (h : Recognized here ctx form next) :
    here.line ≤ form.lastLine here.line ∧
      form.lastLine here.line ≤ here.line + here.following.length := by
  cases h with
  | scope =>
    have hlength := Block.scopeLength_le here.code here.following
    simp only [Form.lastLine]
    omega
  | callable | production | phaser => exact here.blockStop_mem_Icc
  | field | object | varDecl | introduced | importing => simp only [Form.lastLine]; omega

/-- A declaration of a text ends on its line or behind it, and inside the text. -/
theorem lastLine_of_mem_parse {mode : ParseMode} {classifier : Option Lexical.Classifier}
    {lines : List Line} {d : Declaration} (hd : d ∈ parse mode classifier lines) :
    d.line ≤ d.form.lastLine d.line ∧ d.form.lastLine d.line < lines.length := by
  obtain ⟨above, code, following, before, next, hcodes, hline, hfound⟩ :=
    exists_recognize_of_mem_readFrom hd
  obtain ⟨hstart, hstop⟩ := (recognized_of_recognize hfound).lastLine_mem_Icc
  refine ⟨hstart, ?_⟩
  have hcount : lines.length = above.length + (following.length + 1) := by
    rw [← length_prepare mode classifier, hcodes, List.length_append, List.length_cons]
  dsimp only at hstop
  omega

end Declaration

end RakuAtlas
