import FilterQuery.Json.Basic
import FilterQuery.Json.Syntax

/-!
# JSON documents

A **document** is a JSON text read as a value. Three things are settled here that the syntax tree
leaves open: arrays and objects nest at most 127 deep, the escaped code units of a string have to
denote characters, and a number has to be in the range of doubles.

A number is read from at most as many leading digits as fit a 64-bit word, and is scaled by powers
of ten in double arithmetic; the last bit is thus not always that of the nearest double. A numeral
without a point and a power of ten is a whole number if it is in the range of 64-bit words, signed
or unsigned, and a double otherwise; the negative zero is a double.

Of two members of an object with the same key, the later one counts (`Json.ofMembers`). The values
of all members are read, though, so an error in one that does not count is an error of the document.
-/

namespace FilterQuery

/-! ### Strings -/

namespace Json

/-- The character of two surrogates. -/
def joinSurrogates (high low : Nat) : Char :=
  Char.ofNat ((high - 0xD800) * 0x400 + (low - 0xDC00) + 0x10000)

/-- The characters that the code units denote; a surrogate without its partner denotes none. -/
def decodeUnits : List Nat → Option (List Char)
  | [] => some []
  | unit :: rest =>
    if unit < 0xD800 || 0xDFFF < unit then (decodeUnits rest).map (Char.ofNat unit :: ·)
    else match rest with
      | low :: rest =>
        if unit ≤ 0xDBFF && 0xDC00 ≤ low && low ≤ 0xDFFF then
          (decodeUnits rest).map (joinSurrogates unit low :: ·)
        else none
      | [] => none

/-- The text that the code units denote. -/
def text? (units : List Nat) : Option String :=
  (decodeUnits units).map String.ofList

end Json

/-! ### Numbers -/

namespace JsonNumber

/-- The greatest number of a 64-bit word. -/
def maxWord : Nat := 0xFFFFFFFFFFFFFFFF

/-- The leading digits of a numeral as far as they fit a 64-bit word, and the number of digits
left over. -/
def takeDigits (significand : Nat) : List Char → Nat × Nat
  | [] => (significand, 0)
  | c :: rest =>
    let next := 10 * significand + (c.toNat - '0'.toNat)
    if next ≤ maxWord then takeDigits next rest else (significand, rest.length + 1)

/-- The double nearest to `10 ^ n`. -/
def tenTo (n : Nat) : Double := Decimal.toDouble false ⟨1, n⟩

/-- The number divided by `10 ^ n`, in steps that a double can hold. -/
def scaleDown (x : Double) (n : Nat) : Double :=
  if n ≤ 308 then x.div (tenTo n)
  else if x.word.val = 0 then x
  else scaleDown (x.div (tenTo 308)) (n - 308)
  termination_by n

/-- The number times `10 ^ exponent`, if it is in the range of doubles. -/
def scale? (x : Double) (exponent : Int) : Option Double :=
  if exponent < 0 then some (scaleDown x exponent.natAbs)
  else if x.word.val = 0 then some x
  else if 308 < exponent then none
  else
    let product := x.mul (tenTo exponent.toNat)
    if product.isInfinite then none else some product

/-- The double that a numeral denotes, if it is in range. -/
def float? (n : Json.Numeral) : Option JsonNumber :=
  let (whole, beyond) := takeDigits 0 n.whole
  let (significand, unread) := takeDigits whole n.fraction
  let places : Int := n.fraction.length - unread
  let exponent : Int := beyond - places + n.exponent.getD 0
  (scale? (Double.ofInt significand) exponent).map fun x =>
    float (if n.negative then x.neg else x)

/-- The number that a numeral denotes, if it is in range. A numeral without point and power of ten
denotes a whole number, unless that number is negative zero or leaves the range of 64-bit words. -/
def ofNumeral? (n : Json.Numeral) : Option JsonNumber :=
  if n.fraction.isEmpty && n.exponent.isNone then
    let size := ofDigits n.whole
    if n.negative then
      if 0 < size && size ≤ 0x8000000000000000 then some (int (-(size : Int))) else float? n
    else if size ≤ maxWord then some (int size) else float? n
  else float? n

end JsonNumber

/-! ### Values -/

namespace Json

/-- The greatest number of arrays and objects inside each other. -/
def maxDepth : Nat := 127

mutual

/-- The value of a syntax tree in which at most `depth` arrays and objects nest. -/
def ofTree? (depth : Nat) : SyntaxTree → Option Json
  | .null => some null
  | .boolean b => some (boolean b)
  | .number n => (JsonNumber.ofNumeral? n).map number
  | .string units => (text? units).map string
  | .array items => if depth = 0 then none else (itemsOfTrees? (depth - 1) items).map array
  | .object members =>
    if depth = 0 then none else (membersOfTrees? (depth - 1) members).map ofMembers

/-- The values of the items of an array. -/
def itemsOfTrees? (depth : Nat) : List SyntaxTree → Option (List Json)
  | [] => some []
  | item :: items => do
    return (← ofTree? depth item) :: (← itemsOfTrees? depth items)

/-- The members of an object as they are written. -/
def membersOfTrees? (depth : Nat) : List (List Nat × SyntaxTree) → Option (List (String × Json))
  | [] => some []
  | (key, value) :: members => do
    return (← text? key, ← ofTree? depth value) :: (← membersOfTrees? depth members)

end

/-- The document of a text. -/
def document? (text : String) : Option Json :=
  (SyntaxTree.ofText? text).bind (ofTree? maxDepth)

end Json

end FilterQuery
