import Replica.Number.Shortest

/-!
# Decimal text of numbers

Both written forms of a number share the shortest digits. They differ in where positional
notation ends, in whether an integer shows a fraction, and in how ties between digits fall.
-/

namespace Replica.Number

/-- The decisions of one written form. -/
structure Style where
  /-- Whether a decimal point at this place is written positionally. -/
  positional : Int → Bool
  /-- Whether an integer ends in `.0`. -/
  fractionAlways : Bool
  halfway : Halfway

/-- Numbers inside documents: positional for points from -4 to 16, integers marked by `.0`. -/
def Style.document : Style where
  positional := fun point => -5 < point && point ≤ 16
  fractionAlways := true
  halfway := .even

/-- Numbers inside messages and identifiers: always positional, integers bare. -/
def Style.plain : Style where
  positional := fun _ => true
  fractionAlways := false
  halfway := .away

def positionalText (d : Digits) (fractionAlways : Bool) : String :=
  let count := d.digits.length
  if d.point ≤ 0 then
    "0." ++ String.ofList (List.replicate (-d.point).toNat '0' ++ d.digits)
  else if count ≤ d.point.toNat then
    String.ofList (d.digits ++ List.replicate (d.point.toNat - count) '0') ++
      (if fractionAlways then ".0" else "")
  else
    String.ofList (d.digits.take d.point.toNat) ++ "." ++
      String.ofList (d.digits.drop d.point.toNat)

/-- Scientific notation with one digit before the point and a sign on every exponent. -/
def scientificText (d : Digits) : String :=
  let exponent := d.point - 1
  let mantissa :=
    match d.digits with
    | [] => "0"
    | [digit] => String.ofList [digit]
    | digit :: rest => String.ofList (digit :: '.' :: rest)
  let sign := if exponent < 0 then "-" else "+"
  mantissa ++ "e" ++ sign ++ toString exponent.natAbs

/-- The text of a number in a style. The sign of a negative zero is kept. -/
def text (style : Style) (x : Number) : String :=
  let sign := if x.negative then "-" else ""
  let absolute :=
    if x.magnitude = 0 then (if style.fractionAlways then "0.0" else "0")
    else
      let d := x.shortestDigits style.halfway
      if style.positional d.point then positionalText d style.fractionAlways
      else scientificText d
  sign ++ absolute

end Replica.Number
