import Replica.Text.Printable

/-!
# Quoted text

Messages show keys, paths and text values inside quotation marks, so that blanks and control
characters stay visible. Escapes are the usual two-character ones and, for every other character
that cannot be shown, its code point in lower-case hexadecimal between braces.
-/

namespace Replica.Text

/-- The lower-case hexadecimal digits of a number, without leading zeros. -/
def hexDigits (n : Nat) : String :=
  String.ofList (Nat.toDigits 16 n)

/-- One character inside quotation marks `mark`. Of the two marks only the enclosing one is
escaped. -/
def quotedChar (mark : Char) (c : Char) : String :=
  if c = mark then String.ofList ['\\', c]
  else if c = '\\' then "\\\\"
  else if c = '\x00' then "\\0"
  else if c = '\t' then "\\t"
  else if c = '\r' then "\\r"
  else if c = '\n' then "\\n"
  else if isPrintable c then c.toString
  else "\\u\x7b" ++ hexDigits c.toNat ++ "\x7d"

/-- Text between double quotation marks. -/
def quoted (text : String) : String :=
  "\"" ++ String.join (text.toList.map (quotedChar '\x22')) ++ "\""

/-- A single character between apostrophes. -/
def quotedSingle (c : Char) : String :=
  "\x27" ++ quotedChar '\x27' c ++ "\x27"

end Replica.Text
