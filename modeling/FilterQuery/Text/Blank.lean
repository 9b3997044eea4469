/-!
# Blank characters

The **blank** characters are those with the Unicode property `White_Space`, twenty-five in all. They
separate the words of a query and are trimmed from numeric arguments.

The property is given by the list of its code points. In a quoted string a blank is a character like
any other.
-/

namespace FilterQuery.Text

/-- Whether the character has the Unicode property `White_Space`. -/
def isBlank (c : Char) : Bool :=
  let n := c.toNat
  (0x09 ≤ n && n ≤ 0x0D) || n == 0x20 || n == 0x85 || n == 0xA0 || n == 0x1680
    || (0x2000 ≤ n && n ≤ 0x200A) || n == 0x2028 || n == 0x2029 || n == 0x202F
    || n == 0x205F || n == 0x3000

/-- The characters between the outermost characters that are not blank. -/
def trimBlanks (cs : List Char) : List Char :=
  ((cs.dropWhile isBlank).reverse.dropWhile isBlank).reverse

end FilterQuery.Text
