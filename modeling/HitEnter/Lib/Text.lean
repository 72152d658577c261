import Mathlib

/-! Trimming by the Unicode `White_Space` property. -/

namespace HitEnter.Lib.Text

/-- The Unicode `White_Space` characters. -/
def isWhitespace (c : Char) : Bool :=
  (0x09 ≤ c.toNat && c.toNat ≤ 0x0d) ||
    [0x20, 0x85, 0xa0, 0x1680, 0x2028, 0x2029, 0x202f, 0x205f, 0x3000].contains c.toNat ||
    (0x2000 ≤ c.toNat && c.toNat ≤ 0x200a)

/-- The text without the white space at its two ends. -/
def trim (text : String) : String :=
  .ofList ((text.toList.dropWhile isWhitespace).reverse.dropWhile isWhitespace).reverse

end HitEnter.Lib.Text
