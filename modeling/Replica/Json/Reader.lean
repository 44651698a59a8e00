import Replica.Json.Basic
import Replica.Number.Rounding

/-!
# Reading JSON

Reading goes in two passes, each a fold with a small state. The first turns characters into
tokens and undoes the escapes of strings; the second turns tokens into one value and keeps the
open containers on a stack. The grammar is the strict one: no byte order mark, no comments, no
trailing commas, no unpaired surrogates, no number beyond the finite ones, and at most 127
containers inside one another.
-/

namespace Replica.Json

/-! ## Numbers -/

def naturalOf (digits : List Char) : Nat :=
  digits.foldl (fun value digit => 10 * value + (digit.toNat - '0'.toNat)) 0

/-- A digit run at the front of the characters, and what follows it. A run must not be empty. -/
def digitRun? (cs : List Char) : Option (List Char × List Char) :=
  match cs.span Char.isDigit with
  | ([], _) => none
  | run => some run

/-- The digits of an integer part: a lone zero, or a run that does not start with zero. -/
def wholePart? (cs : List Char) : Option (List Char × List Char) :=
  match digitRun? cs with
  | some ('0' :: _ :: _, _) => none
  | run => run

def fractionPart? : List Char → Option (Option (List Char) × List Char)
  | '.' :: cs => (digitRun? cs).map fun (digits, rest) => (some digits, rest)
  | cs => some (none, cs)

def exponentPart? : List Char → Option (Option Int)
  | [] => some none
  | mark :: cs =>
    if mark = 'e' ∨ mark = 'E' then
      let (negative, digits) :=
        match cs with
        | '-' :: digits => (true, digits)
        | '+' :: digits => (false, digits)
        | digits => (false, digits)
      match digitRun? digits with
      | some (run, []) => some (some (if negative then -(naturalOf run : Int) else naturalOf run))
      | _ => none
    else none

/-- An integer that fits 64 bits stays one; a larger one, and the negative zero, become the
nearest number. -/
def integerValue? (negative : Bool) (n : Nat) : Option Json :=
  if negative then
    if 0 < n ∧ n ≤ UInt64.size / 2 then some (.integer (-(n : Int)))
    else (Number.ofDecimal? true n 0).map .decimal
  else if n < UInt64.size then some (.integer n)
  else (Number.ofDecimal? false n 0).map .decimal

def numberValue? (cs : List Char) : Option Json := do
  let (negative, unsigned) :=
    match cs with
    | '-' :: unsigned => (true, unsigned)
    | unsigned => (false, unsigned)
  let (whole, afterWhole) ← wholePart? unsigned
  let (fraction?, afterFraction) ← fractionPart? afterWhole
  let exponent? ← exponentPart? afterFraction
  match fraction?, exponent? with
  | none, none => integerValue? negative (naturalOf whole)
  | _, _ =>
    let fraction := fraction?.getD []
    let exponent := exponent?.getD 0 - fraction.length
    (Number.ofDecimal? negative (naturalOf (whole ++ fraction)) exponent).map .decimal

/-! ## Tokens -/

/-- The smallest pieces of JSON text. -/
inductive Token where
  | openArray
  | closeArray
  | openObject
  | closeObject
  | comma
  | colon
  | scalar (value : Json)

/-- Where the reader stands inside a string. -/
inductive Within where
  | plain
  | escape
  /-- Inside a four-digit escape: digits still owed, their value so far, and the leading
  surrogate that came before. -/
  | unit (owed value : Nat) (leading : Option Nat)
  /-- After a leading surrogate, where another escape must begin. -/
  | leading (unit : Nat)
  /-- After the backslash that follows a leading surrogate. -/
  | leadingEscape (unit : Nat)

/-- Where the reader stands among the tokens. The characters of an unfinished piece are held
backwards. -/
inductive Mode where
  | between
  | word (reversed : List Char)
  | string (reversed : List Char) (within : Within)

def wordToken? (word : List Char) : Option Token :=
  if word = ['n', 'u', 'l', 'l'] then some (.scalar .null)
  else if word = ['t', 'r', 'u', 'e'] then some (.scalar (.bool true))
  else if word = ['f', 'a', 'l', 's', 'e'] then some (.scalar (.bool false))
  else (numberValue? word).map .scalar

def isSpace (c : Char) : Bool :=
  c == ' ' || c == '\t' || c == '\n' || c == '\r'

def punctuation? (c : Char) : Option Token :=
  if c = '[' then some .openArray
  else if c = ']' then some .closeArray
  else if c = '\x7b' then some .openObject
  else if c = '\x7d' then some .closeObject
  else if c = ',' then some .comma
  else if c = ':' then some .colon
  else none

/-- The tokens so far, the last one first, and where the reader stands. -/
structure Scan where
  tokens : List Token
  mode : Mode

/-- Takes a character that stands between tokens. -/
def Scan.start (tokens : List Token) (c : Char) : Scan :=
  if isSpace c then ⟨tokens, .between⟩
  else if c = '\x22' then ⟨tokens, .string [] .plain⟩
  else
    match punctuation? c with
    | some token => ⟨token :: tokens, .between⟩
    | none => ⟨tokens, .word [c]⟩

def endsWord (c : Char) : Bool :=
  isSpace c || c == '\x22' || (punctuation? c).isSome

def hexValue? (c : Char) : Option Nat :=
  if '0' ≤ c ∧ c ≤ '9' then some (c.toNat - '0'.toNat)
  else if 'a' ≤ c ∧ c ≤ 'f' then some (c.toNat - 'a'.toNat + 10)
  else if 'A' ≤ c ∧ c ≤ 'F' then some (c.toNat - 'A'.toNat + 10)
  else none

/-- The character that a two-character escape stands for. -/
def simpleEscape? (c : Char) : Option Char :=
  if c = '\x22' ∨ c = '\\' ∨ c = '/' then some c
  else if c = 'b' then some '\x08'
  else if c = 'f' then some '\x0c'
  else if c = 'n' then some '\n'
  else if c = 'r' then some '\r'
  else if c = 't' then some '\t'
  else none

/-- Closes a four-digit escape. A leading surrogate waits for its partner, and a trailing one
must have had a leading one before it. -/
def closeUnit? (reversed : List Char) (unit : Nat) (leading : Option Nat) : Option Mode :=
  let isLeading := 0xD800 ≤ unit && unit < 0xDC00
  let isTrailing := 0xDC00 ≤ unit && unit < 0xE000
  match leading with
  | some high =>
    if isTrailing then
      let code := 0x10000 + (high - 0xD800) * 0x400 + (unit - 0xDC00)
      some (.string (Char.ofNat code :: reversed) .plain)
    else none
  | none =>
    if isTrailing then none
    else if isLeading then some (.string reversed (.leading unit))
    else some (.string (Char.ofNat unit :: reversed) .plain)

/-- Takes a character inside a string that does not end there. -/
def stepWithin? (reversed : List Char) (c : Char) : Within → Option Mode
  | .plain =>
    if c = '\\' then some (.string reversed .escape)
    else if c.toNat < 0x20 then none
    else some (.string (c :: reversed) .plain)
  | .escape =>
    if c = 'u' then some (.string reversed (.unit 4 0 none))
    else (simpleEscape? c).map fun plain => .string (plain :: reversed) .plain
  | .unit owed value leading => do
    let digit ← hexValue? c
    let value := 16 * value + digit
    if owed ≤ 1 then closeUnit? reversed value leading
    else some (.string reversed (.unit (owed - 1) value leading))
  | .leading unit => if c = '\\' then some (.string reversed (.leadingEscape unit)) else none
  | .leadingEscape unit =>
    if c = 'u' then some (.string reversed (.unit 4 0 (some unit))) else none

def Scan.step? (scan : Scan) (c : Char) : Option Scan :=
  match scan.mode with
  | .between => some (Scan.start scan.tokens c)
  | .word reversed =>
    if endsWord c then
      (wordToken? reversed.reverse).map fun token => Scan.start (token :: scan.tokens) c
    else some { scan with mode := .word (c :: reversed) }
  | .string reversed .plain =>
    if c = '\x22' then
      some ⟨.scalar (.string (String.ofList reversed.reverse)) :: scan.tokens, .between⟩
    else (stepWithin? reversed c .plain).map fun mode => { scan with mode := mode }
  | .string reversed within =>
    (stepWithin? reversed c within).map fun mode => { scan with mode := mode }

def Scan.finish? (scan : Scan) : Option (List Token) :=
  match scan.mode with
  | .between => some scan.tokens.reverse
  | .word reversed =>
    (wordToken? reversed.reverse).map fun token => (token :: scan.tokens).reverse
  | .string _ _ => none

def tokens? (text : String) : Option (List Token) := do
  let scan ← text.toList.foldlM Scan.step? ⟨[], .between⟩
  scan.finish?

/-! ## Values -/

/-- An open container with what it holds so far, the last entry first. -/
inductive Frame where
  | array (items : List Json)
  | object (members : List (String × Json)) (name : String)

/-- What the next token may be. -/
inductive Expect where
  | value
  /-- The first item of an array, or its end. -/
  | firstItem
  /-- The first name of an object, or its end. -/
  | firstName (members : List (String × Json))
  | name (members : List (String × Json))
  | colon
  /-- Whatever may follow a complete value. -/
  | after (value : Json)

/-- The containers open around the next token, innermost first, and what that token may be. -/
structure Build where
  frames : List Frame
  expect : Expect

def maxDepth : Nat := 127

/-- Takes a token that begins a value. -/
def Build.begin? (frames : List Frame) : Token → Option Build
  | .scalar value => some ⟨frames, .after value⟩
  | .openArray =>
    if frames.length < maxDepth then some ⟨.array [] :: frames, .firstItem⟩ else none
  | .openObject =>
    if frames.length < maxDepth then some ⟨.object [] "" :: frames, .firstName []⟩ else none
  | _ => none

/-- Takes a token that stands where a name must. -/
def Build.name? (frames : List Frame) (members : List (String × Json)) : Token → Option Build
  | .scalar (.string name) =>
    match frames with
    | .object _ _ :: outer => some ⟨.object members name :: outer, .colon⟩
    | _ => none
  | _ => none

def Build.step? (build : Build) (token : Token) : Option Build :=
  match build.expect, token, build.frames with
  | .firstItem, .closeArray, .array _ :: outer => some ⟨outer, .after (.array [])⟩
  | .firstItem, token, frames => begin? frames token
  | .value, token, frames => begin? frames token
  | .firstName _, .closeObject, .object _ _ :: outer => some ⟨outer, .after (.object [])⟩
  | .firstName members, token, frames => name? frames members token
  | .name members, token, frames => name? frames members token
  | .colon, .colon, frames => some ⟨frames, .value⟩
  | .after item, .comma, .array items :: outer => some ⟨.array (item :: items) :: outer, .value⟩
  | .after item, .closeArray, .array items :: outer =>
    some ⟨outer, .after (.array (item :: items).reverse)⟩
  | .after value, .comma, .object members name :: outer =>
    some ⟨.object [] "" :: outer, .name ((name, value) :: members)⟩
  | .after value, .closeObject, .object members name :: outer =>
    some ⟨outer, .after (.object ((name, value) :: members).reverse)⟩
  | _, _, _ => none

/-- Reads a text as written: members in the order of the text, repeated names kept. -/
def read? (text : String) : Option Json := do
  let tokens ← tokens? text
  let build ← tokens.foldlM Build.step? ⟨[], .value⟩
  match build with
  | ⟨[], .after value⟩ => some value
  | _ => none

/-- Reads a text into canonical form. -/
def parse? (text : String) : Option Json :=
  (read? text).map canonical

end Replica.Json
