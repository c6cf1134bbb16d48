/-! # Blank characters

The characters with the property `White_Space`. There are twenty-five of them, eight below `U+0100`
and seventeen above. Trimming and the gap between a number and its noun both use this class. -/

namespace QualityGate.Text

def isBlank (c : Char) : Bool :=
  let n := c.toNat
  (9 ≤ n && n ≤ 13) || n == 0x20 || n == 0x85 || n == 0xA0 || n == 0x1680 ||
  (0x2000 ≤ n && n ≤ 0x200A) || n == 0x2028 || n == 0x2029 || n == 0x202F || n == 0x205F ||
  n == 0x3000

end QualityGate.Text
