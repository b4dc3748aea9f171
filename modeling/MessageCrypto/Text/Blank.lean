/-!
# Blank characters

The characters with the property White_Space of Unicode, and texts without those at their ends.

* `isBlank`, `trim`.
-/

namespace MessageCrypto.Text

def isBlank (c : Char) : Bool :=
  let k := c.toNat
  (0x09 ≤ k && k ≤ 0x0d) || (0x2000 ≤ k && k ≤ 0x200a) ||
    k ∈ [0x20, 0x85, 0xa0, 0x1680, 0x2028, 0x2029, 0x202f, 0x205f, 0x3000]

/-- The text without blank characters in front and at the end. -/
def trim (s : String) : String :=
  String.ofList ((s.toList.dropWhile isBlank).reverse.dropWhile isBlank).reverse

end MessageCrypto.Text
