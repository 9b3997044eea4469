import FilterQuery.Number.Decimal

/-!
# The text of a double

The digits of a double are laid out either positionally or with a power of ten, and a whole number
may be marked as such. A **layout** holds these choices; the library has two of them, one for the
text of arguments (`Layout.plain`) and one for JSON (`Layout.json`).

The plain layout is positional throughout and has no mark for whole numbers, so a double that is
whole has the text of an integer. The layout of JSON writes large and small numbers with a power of
ten, and puts `.0` behind a whole number that it writes without one. The tie rule is a part of the
layout too, so the two may write different digits where a double is half-way between two of the
shortest decimals.
-/

namespace FilterQuery

/-- How the digits of a double are written. -/
structure Layout where
  /-- Which of two equally near decimals is written. -/
  tie : Tie
  /-- Whether a number whose leading digit stands at this power of ten is written without an
  exponent. -/
  positional : Int → Bool
  /-- What follows the digits of a whole number that is written without an exponent. -/
  wholeMark : List Char

namespace Layout

/-- Always positional, whole numbers unmarked, the greater of two equally near decimals. -/
def plain : Layout := ⟨.up, fun _ => true, []⟩

/-- Positional for leading digits from `10 ^ -5` to `10 ^ 15`, whole numbers marked by `.0`, the
even one of two equally near decimals. -/
def json : Layout := ⟨.toEven, fun place => -5 ≤ place && place ≤ 15, ['.', '0']⟩

end Layout

namespace Decimal

/-- The power of ten at which the leading digit stands. -/
def leadingPlace (d : Decimal) : Int := (digitsOf d.digits).length - 1 + d.exponent

/-- The decimal without an exponent; `wholeMark` follows a whole number. -/
def positional (wholeMark : List Char) (d : Decimal) : List Char :=
  let digits := digitsOf d.digits
  let places := (-d.exponent).toNat
  if places = 0 then digits ++ List.replicate d.exponent.toNat '0' ++ wholeMark
  else if places < digits.length then
    digits.take (digits.length - places) ++ '.' :: digits.drop (digits.length - places)
  else '0' :: '.' :: List.replicate (places - digits.length) '0' ++ digits

/-- The decimal with its leading digit before the point and a signed power of ten. -/
def scientific (d : Decimal) : List Char :=
  let mantissa := match digitsOf d.digits with
    | first :: second :: rest => first :: '.' :: second :: rest
    | digits => digits
  mantissa ++ 'e' :: (if d.leadingPlace < 0 then '-' else '+') :: digitsOf d.leadingPlace.natAbs

/-- The decimal as the layout has it. -/
def render (layout : Layout) (d : Decimal) : List Char :=
  if layout.positional d.leadingPlace then d.positional layout.wholeMark else d.scientific

end Decimal

namespace Double

/-- The text of a finite double. -/
def renderFinite (layout : Layout) (x : Double) : List Char :=
  (if x.negative then ['-'] else []) ++ (x.shortest layout.tie).render layout

/-- The plain text of a double. -/
def text (x : Double) : String :=
  if x.isNaN then "NaN"
  else if x.isInfinite then (if x.negative then "-inf" else "inf")
  else String.ofList (x.renderFinite .plain)

end Double

end FilterQuery
