import RakuAtlas.Total
import RakuAtlas.Unicode.CharClass

/-!
# RakuAtlas.Text.Chars — cutting character lists

Lines are handled as lists of characters, while every column that an answer
shows counts UTF-8 bytes. This module holds the byte measure, cutting at a
byte offset, trimming and splitting.

* `byteLen` is the byte measure;
* `cutBytes? n cs` cuts `cs` after `n` bytes, and refuses to cut a character;
* `trim` removes white space at both ends, `words` cuts at white space;
* `splitWhen` never returns the empty list: a text without separator is one
  part.
-/

namespace RakuAtlas.Text

open Unicode (isBlank)

/-! ## Bytes -/

/-- The number of UTF-8 bytes of the characters. -/
def byteLen (cs : List Char) : Nat := total Char.utf8Size cs

@[simp] theorem byteLen_nil : byteLen [] = 0 := rfl

@[simp] theorem byteLen_cons (c : Char) (cs : List Char) :
    byteLen (c :: cs) = c.utf8Size + byteLen cs := rfl

@[simp] theorem byteLen_append (xs ys : List Char) :
    byteLen (xs ++ ys) = byteLen xs + byteLen ys := total_append ..

/-- Cut after `n` bytes. `none` if there are fewer, or if the cut would fall
inside a character. -/
def cutBytes? : Nat → List Char → Option (List Char × List Char)
  | 0, cs => some ([], cs)
  | _ + 1, [] => none
  | n + 1, c :: cs =>
    if c.utf8Size ≤ n + 1 then
      (cutBytes? (n + 1 - c.utf8Size) cs).map fun (front, back) => (c :: front, back)
    else none

/-- A cut loses nothing, and the front has the bytes asked for. -/
theorem append_of_cutBytes? {n : Nat} {cs front back : List Char}
    (h : cutBytes? n cs = some (front, back)) : cs = front ++ back ∧ byteLen front = n := by
  induction cs generalizing n front back with
  | nil =>
    cases n with
    | zero => simp_all [cutBytes?]
    | succ n => simp [cutBytes?] at h
  | cons c cs ih =>
    cases n with
    | zero => simp_all [cutBytes?]
    | succ n =>
      simp only [cutBytes?] at h
      split at h
      · -- the first character goes to the front
        obtain ⟨⟨front', back'⟩, hcut, heq⟩ := Option.map_eq_some_iff.1 h
        obtain ⟨rfl, rfl⟩ := Prod.mk.inj heq
        obtain ⟨rfl, hlen⟩ := ih hcut
        exact ⟨rfl, by rw [byteLen_cons, hlen]; omega⟩
      · simp at h

/-- A text can be cut after each of its fronts. -/
theorem cutBytes?_byteLen (front back : List Char) :
    cutBytes? (byteLen front) (front ++ back) = some (front, back) := by
  induction front with
  | nil => simp [cutBytes?]
  | cons c cs ih =>
    have hpos : 0 < c.utf8Size := Char.utf8Size_pos c
    obtain ⟨n, hn⟩ : ∃ n, byteLen (c :: cs) = n + 1 :=
      ⟨byteLen (c :: cs) - 1, by rw [byteLen_cons]; omega⟩
    have hle : c.utf8Size ≤ n + 1 := by rw [← hn, byteLen_cons]; omega
    have hrest : n + 1 - c.utf8Size = byteLen cs := by rw [← hn, byteLen_cons]; omega
    rw [hn, List.cons_append, cutBytes?, if_pos hle, hrest, ih]
    rfl

/-- The characters between two byte offsets, both of which must fall between
characters, in order. -/
def slice? (start stop : Nat) (cs : List Char) : Option (List Char) :=
  if start ≤ stop then do
    let (_, back) ← cutBytes? start cs
    let (front, _) ← cutBytes? (stop - start) back
    return front
  else none

/-! ## Trimming -/

/-- Drop the white space in front. -/
def trimStart (cs : List Char) : List Char := cs.dropWhile isBlank

/-- Drop the longest run of characters with `p` at the end. -/
def dropEndWhile (p : Char → Bool) (cs : List Char) : List Char :=
  (cs.reverse.dropWhile p).reverse

/-- Drop the white space at the end. -/
def trimEnd (cs : List Char) : List Char := dropEndWhile isBlank cs

/-- Drop the white space at both ends. -/
def trim (cs : List Char) : List Char := trimEnd (trimStart cs)

/-! ## Splitting -/

/-- The parts between the characters with `p`, which are dropped. -/
def splitWhen (p : Char → Bool) : List Char → List (List Char)
  | [] => [[]]
  | c :: cs =>
    if p c then [] :: splitWhen p cs
    else match splitWhen p cs with
      | part :: parts => (c :: part) :: parts
      | [] => [[c]]

/-- There is always at least one part. -/
theorem splitWhen_ne_nil (p : Char → Bool) (cs : List Char) : splitWhen p cs ≠ [] := by
  cases cs with
  | nil => simp [splitWhen]
  | cons c cs =>
    rw [splitWhen]
    split
    · simp
    · split <;> simp

/-- The maximal runs without white space. -/
def words (cs : List Char) : List (List Char) := (splitWhen isBlank cs).filter (· ≠ [])

/-- The parts between the occurrences of `sep`, read from the left and not
overlapping. -/
def splitOnList (sep : List Char) (cs : List Char) : List (List Char) :=
  go 0 cs
where
  /-- Walk on; `skip` characters of a separator found before are left to drop. -/
  go (skip : Nat) : List Char → List (List Char)
    | [] => [[]]
    | c :: rest =>
      match skip with
      | k + 1 => go k rest
      | 0 =>
        if sep ≠ [] ∧ sep.isPrefixOf (c :: rest) then [] :: go (sep.length - 1) rest
        else match go 0 rest with
          | part :: parts => (c :: part) :: parts
          | [] => [[c]]

/-! ## Searching -/

/-- Whether `needle` occurs in the characters. -/
def occursIn (needle : List Char) : List Char → Bool
  | [] => needle.isEmpty
  | c :: cs => needle.isPrefixOf (c :: cs) || occursIn needle cs

end RakuAtlas.Text
