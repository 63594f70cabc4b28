/-!
# Narrow values

What is known of a number in one register.  Literals are followed closely, so that a later use
can still give them a precise type: zero and one have a category of their own, and numbers that
are not negative are kept apart from the signed types they fit in.

Zero and one are also booleans, and zero is also the null reference.  A number of 32 bits may be
an integer or a floating point number, and `float` is a number that was used as the latter.
-/

namespace Dalvik

/-- What is known of a number in one register. -/
inductive Narrow where
  /-- Zero, or the null reference. -/
  | null
  /-- One. -/
  | one
  /-- Zero or one. -/
  | boolean
  | byte
  /-- A byte that is not negative. -/
  | posByte
  | short
  /-- A short number that is not negative. -/
  | posShort
  | char
  | integer
  | float
  deriving DecidableEq, Repr

namespace Narrow

/-- The name of a category. -/
def name : Narrow → String
  | .null => "Null"
  | .one => "One"
  | .boolean => "Boolean"
  | .byte => "Byte"
  | .posByte => "PosByte"
  | .short => "Short"
  | .posShort => "PosShort"
  | .char => "Char"
  | .integer => "Integer"
  | .float => "Float"

/-- Whether the value is zero or one. -/
def isBit : Narrow → Bool
  | .null | .one | .boolean => true
  | _ => false

/-- What is known of a value that comes from either of two sources.  Integers take in all else,
and floating point numbers all but integers. -/
def join : Narrow → Narrow → Narrow
  | .integer, _ => .integer
  | _, .integer => .integer
  | .float, _ => .float
  | _, .float => .float
  | .null, .null => .null
  | .one, .one => .one
  | .null, .one => .boolean
  | .one, .null => .boolean
  | .boolean, .null => .boolean
  | .boolean, .one => .boolean
  | .null, n => n
  | .one, n => n
  | .boolean, n => n
  | n, .null => n
  | n, .one => n
  | n, .boolean => n
  | .posByte, n => n
  | n, .posByte => n
  | .byte, .byte => .byte
  | .byte, .short => .short
  | .byte, .posShort => .short
  | .byte, .char => .integer
  | .short, .byte => .short
  | .short, .short => .short
  | .short, .posShort => .short
  | .short, .char => .integer
  | .posShort, .byte => .short
  | .posShort, .short => .short
  | .posShort, .posShort => .posShort
  | .posShort, .char => .char
  | .char, .byte => .integer
  | .char, .short => .integer
  | .char, .posShort => .char
  | .char, .char => .char

/-- The narrowest category of a literal. -/
def ofLiteral (v : Int) : Narrow :=
  if v < -32768 then .integer
  else if v < -128 then .short
  else if v < 0 then .byte
  else if v = 0 then .null
  else if v = 1 then .one
  else if v ≤ 127 then .posByte
  else if v ≤ 32767 then .posShort
  else if v ≤ 65535 then .char
  else .integer

/-- What a right shift by a number of places makes of a value, if that is narrower. -/
def shifted? (signed : Bool) (places : Int) : Narrow → Option Narrow
  | .integer | .float =>
    if signed then
      if 24 ≤ places then some .byte else if 16 ≤ places then some .short else none
    else if 24 < places then some .posByte else if 16 ≤ places then some .char else none
  | .short => if signed && decide (8 ≤ places) then some .byte else none
  | .posShort => if 8 ≤ places then some .posByte else none
  | .char => if 8 < places then some .posByte else none
  | .posByte => some .posByte
  | .null | .one | .boolean => some .null
  | .byte => none

/-- What is known of a value after a right shift by a literal, of which the low five bits
count.  A shift that fills in zeros can turn a negative number into any integer. -/
def shiftRight (signed : Bool) (literal : Int) (n : Narrow) : Narrow :=
  if literal = 0 then n
  else (shifted? signed (literal % 32) n).getD (if signed then n else .integer)

end Narrow

end Dalvik
