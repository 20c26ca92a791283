/-!
# RakuAtlas.Unicode.Additions — characters of later versions

The tables of letters, numbers and marks are those of Unicode 16. Code tokens
and declared names go by them alone. What may not touch an occurrence of a
name goes by Unicode 17, and what a new name is made of by Unicode 18: there
the characters of this module count as well.
-/

namespace RakuAtlas.Unicode

/-- Characters of a later version, by class. Closed ranges in ascending
order. -/
structure Additions where
  letters : List (Nat × Nat)
  numerals : List (Nat × Nat)
  decimals : List (Nat × Nat)
  marks : List (Nat × Nat)

/-- The characters of Unicode 17. -/
def additions17 : Additions where
  letters := [
    (0x88F, 0x88F), (0xC5C, 0xC5C), (0xCDC, 0xCDC), (0xA7CE, 0xA7CF), (0xA7D2, 0xA7D2),
    (0xA7D4, 0xA7D4), (0xA7F1, 0xA7F1), (0x10940, 0x10959), (0x10EC5, 0x10EC7),
    (0x11DB0, 0x11DDB), (0x16EA0, 0x16EB8), (0x16EBB, 0x16ED3), (0x16FF2, 0x16FF3),
    (0x187F8, 0x187FF), (0x18D09, 0x18D1E), (0x18D80, 0x18DF2), (0x1E6C0, 0x1E6DE),
    (0x1E6E0, 0x1E6E2), (0x1E6E4, 0x1E6E5), (0x1E6E7, 0x1E6ED), (0x1E6F0, 0x1E6F4),
    (0x1E6FE, 0x1E6FF), (0x2B73A, 0x2B73F), (0x2CEA2, 0x2CEAD), (0x323B0, 0x33479)]
  numerals := [(0x16FF4, 0x16FF6)]
  decimals := [(0x11DE0, 0x11DE9)]
  marks := [
    (0x1ACF, 0x1ADD), (0x1AE0, 0x1AEB), (0x10EFA, 0x10EFB), (0x11B60, 0x11B67),
    (0x1E6E3, 0x1E6E3), (0x1E6E6, 0x1E6E6), (0x1E6EE, 0x1E6EF), (0x1E6F5, 0x1E6F5)]

/-- Characters of Unicode 18, as far as they are known here. -/
def additions18 : Additions where
  letters := [
    (0x558, 0x558), (0x58B, 0x58B), (0x209D, 0x209F), (0xA7DD, 0xA7DD), (0x16D80, 0x16D9D),
    (0x18E00, 0x19191), (0x1DF2B, 0x1DF2B), (0x2B81E, 0x2B81E), (0x3D000, 0x3FC3F)]
  numerals := [(0x12550, 0x12686)]
  decimals := [(0x16DA0, 0x16DA9)]
  marks := [(0xB53, 0xB54), (0x10ECB, 0x10ECB), (0x1D127, 0x1D128), (0x1D25F, 0x1D280)]

end RakuAtlas.Unicode
