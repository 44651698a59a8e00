/-!
# Child keys

A key names a child within its parent. Keys that read as 32-bit integers come first and in
numeric order, all others follow in text order, and two reserved names bound the whole order.
-/

namespace Replica

/-- The name of a child within its parent. -/
structure Key where
  text : String
  deriving DecidableEq, Inhabited, Repr

namespace Key

/-- The key below every other one. -/
def least : Key := ⟨"[MIN_NAME]"⟩

/-- The key above every other one. -/
def greatest : Key := ⟨"[MAX_NAME]"⟩

/-- The reserved key under which a node shows its priority. -/
def priority : Key := ⟨".priority"⟩

/-- The reserved key that holds the value of a leaf in documents with priorities. -/
def value : Key := ⟨".value"⟩

def isPriority (key : Key) : Bool :=
  key == priority

def maxBytes : Nat := 768

/-! ## Order -/

/-- The first natural number beyond the 32-bit integers. -/
def integerBound : Nat := 0x80000000

/-- The natural number written by a run of one to ten decimal digits. -/
def digitsValue? (digits : List Char) : Option Nat :=
  if digits.isEmpty || 10 < digits.length || !digits.all Char.isDigit then none
  else some (digits.foldl (fun value digit => 10 * value + (digit.toNat - '0'.toNat)) 0)

/-- The 32-bit integer that a text reads as: an optional minus, then one to ten digits. -/
def integerOf? (text : String) : Option Int :=
  match text.toList with
  | '-' :: digits =>
    (digitsValue? digits).bind fun n => if n ≤ integerBound then some (-(n : Int)) else none
  | digits => (digitsValue? digits).bind fun n => if n < integerBound then some (n : Int) else none

/-- The band of the order that a key belongs to: the least key, integers, other texts, the
greatest key. -/
def band (key : Key) : Nat :=
  if key = least then 0
  else if key = greatest then 3
  else if (integerOf? key.text).isSome then 1
  else 2

/-- The integer a key reads as, and 0 for every other key. -/
def number (key : Key) : Int :=
  (integerOf? key.text).getD 0

/-- The byte length that ranks different spellings of one integer, and 0 for every other key. -/
def width (key : Key) : Nat :=
  if (integerOf? key.text).isSome then key.text.utf8ByteSize else 0

/-- Keys are ordered by band, then as integers, then by the length of the spelling, then as
texts. -/
instance : Ord Key where
  compare a b :=
    (compare a.band b.band).then <| (compare a.number b.number).then <|
      (compare a.width b.width).then (compare a.text b.text)

/-! ## Validity -/

/-- Why a text is no data key. -/
inductive Fault where
  | empty
  | tooLong
  | forbidden (c : Char)
  deriving DecidableEq, Repr

/-- Whether a data key may not hold a character: path punctuation, brackets and controls. -/
def isForbidden (c : Char) : Bool :=
  c == '.' || c == '#' || c == '$' || c == '[' || c == ']' || c == '/' || c.toNat < 0x20 ||
    c.toNat == 0x7F

def fault? (text : String) : Option Fault :=
  if text.isEmpty then some .empty
  else if maxBytes < text.utf8ByteSize then some .tooLong
  else (text.toList.find? isForbidden).map .forbidden

def isValid (key : Key) : Bool :=
  (fault? key.text).isNone

end Key

end Replica
