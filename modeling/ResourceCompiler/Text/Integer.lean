/-!
Integers as they are written in source text: decimal digits with optional grouping marks and sign.
-/

namespace ResourceCompiler.Text

/-- The marks that group digits and do not count. -/
def isGroupingMark (c : Char) : Bool := c == '_' || c == ','

/-- The number that a non-empty run of ASCII digits writes. -/
def digitsValue? (digits : List Char) : Option Nat :=
  if digits.isEmpty || !digits.all Char.isDigit then none
  else some (digits.foldl (fun value c => value * 10 + (c.toNat - '0'.toNat)) 0)

/-- A number without grouping marks, with at most one sign in front. -/
def signedValue? : List Char → Option Int
  | '-' :: digits => (digitsValue? digits).map fun value => -(value : Int)
  | '+' :: digits => (digitsValue? digits).map fun value => (value : Int)
  | digits => (digitsValue? digits).map fun value => (value : Int)

/-- Half of the numbers of 128 bits. -/
def literalLimit : Int := 0x80000000000000000000000000000000

/-- Literals are held in 128 bits; a longer number is not an integer at all. -/
def fitsLiteral (value : Int) : Bool := -literalLimit ≤ value && value < literalLimit

/-- The value of an integer-like text, or nothing when it is none. -/
def parseInteger (text : String) : Option Int :=
  (signedValue? (text.toList.filter fun c => !isGroupingMark c)).filter fitsLiteral

/-- An integer as a signed 64-bit number, if it is one. -/
def narrow64? (value : Int) : Option Int64 :=
  if Int64.minValue.toInt ≤ value ∧ value ≤ Int64.maxValue.toInt then some (Int64.ofInt value)
  else none

/-- The value of a text that has to be a signed 64-bit number. -/
def parseInt64 (text : String) : Option Int64 := (parseInteger text).bind narrow64?

/-- The value of a text that counts bytes: an unsigned 64-bit number. -/
def parseByteCount (text : String) : Option Nat :=
  (parseInteger text).bind fun value =>
    if 0 ≤ value ∧ value < 0x10000000000000000 then some value.toNat else none

end ResourceCompiler.Text
