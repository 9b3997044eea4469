import FilterQuery.Number.Decimal
import FilterQuery.Text.Case

/-!
# Reading doubles

The text of a double is an optional sign followed by a word for infinity or for what is no number,
in any letter case, or by digits with at most one point among them and an optional power of ten. A
point needs a digit on at least one of its sides. The double is the one nearest to the number.

The digits are read to a decimal first (`readDecimal`), however many there are, and the decimal is
rounded once. So numbers that are spelled with more zeros, or with the point at another place and
another power of ten, are the same double. A number beyond the largest double is read as an
infinity; whether that is allowed is decided where the double is used.
-/

namespace FilterQuery

/-- Reads a power of ten, which may be left out. -/
def readExponent : List Char → Option Int
  | [] => some 0
  | c :: rest => if c = 'e' || c = 'E' then readInt rest else none

/-- Reads digits with at most one point among them and an optional power of ten. -/
def readDecimal (cs : List Char) : Option Decimal :=
  let whole := cs.takeWhile Char.isDigit
  let (fraction, rest) := match cs.dropWhile Char.isDigit with
    | '.' :: rest => (rest.takeWhile Char.isDigit, rest.dropWhile Char.isDigit)
    | rest => ([], rest)
  if whole.isEmpty && fraction.isEmpty then none
  else (readExponent rest).map fun exponent =>
    ⟨ofDigits (whole ++ fraction), exponent - fraction.length⟩

/-- Reads a double. -/
def readDouble (cs : List Char) : Option Double :=
  let (negative, rest) := splitSign cs
  let word := String.ofList (rest.map Char.toLower)
  if word = "inf" || word = "infinity" then some (.infinity negative)
  else if word = "nan" then some (if negative then Double.nan.neg else .nan)
  else (readDecimal rest).map (Decimal.toDouble negative)

end FilterQuery
