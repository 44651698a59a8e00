/-!
# Lines of a text

A text is cut into lines at line feeds. A carriage return directly before the line feed belongs
to the line end, and a last line needs no line end.
-/

namespace Replica.Text

/-- The blank characters: those with the White_Space property. -/
def isBlank (c : Char) : Bool :=
  (0x09 ≤ c.toNat && c.toNat ≤ 0x0D) || c.toNat == 0x20 || c.toNat == 0x85 || c.toNat == 0xA0 ||
    c.toNat == 0x1680 || (0x2000 ≤ c.toNat && c.toNat ≤ 0x200A) || c.toNat == 0x2028 ||
    c.toNat == 0x2029 || c.toNat == 0x202F || c.toNat == 0x205F || c.toNat == 0x3000

def isBlankLine (line : String) : Bool :=
  line.toList.all isBlank

/-- The line whose characters, read backwards, are `reversed`, without the carriage return that
ends it. -/
def finishLine (reversed : List Char) : String :=
  match reversed with
  | '\r' :: rest => String.ofList rest.reverse
  | rest => String.ofList rest.reverse

/-- Cuts characters into lines; `reversed` holds the current line backwards. Characters after
the last line feed form a line of their own, from which nothing is dropped. -/
def splitLines (reversed : List Char) : List Char → List String
  | [] => if reversed.isEmpty then [] else [String.ofList reversed.reverse]
  | '\n' :: rest => finishLine reversed :: splitLines [] rest
  | c :: rest => splitLines (c :: reversed) rest

def lines (text : String) : List String :=
  splitLines [] text.toList

end Replica.Text
