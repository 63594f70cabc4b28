import Dalvik.ModelError

/-!
# Registers

A method body works on numbered registers.  Calls and array literals take their arguments from
a list of at most five registers, or from a range of consecutive ones.
-/

namespace Dalvik

/-- A register of a method body. -/
structure Reg where
  /-- Its number. -/
  index : Nat
  deriving DecidableEq, Repr, Inhabited

namespace Reg

/-- The register after this one, which holds the high half of a wide value. -/
def next (r : Reg) : Reg := ⟨r.index + 1⟩

/-- Registers are written with a `v`. -/
def text (r : Reg) : String := "v" ++ toString r.index

end Reg

/-- Consecutive registers. -/
structure RegRange where
  /-- The first register. -/
  start : Reg
  /-- How many there are. -/
  count : Nat
  deriving DecidableEq, Repr, Inhabited

namespace RegRange

/-- The registers of a range, in order. -/
def regs (r : RegRange) : List Reg := (List.range r.count).map fun i => ⟨r.start.index + i⟩

/-- The first register, if there is one. -/
def first? (r : RegRange) : Option Reg := if 0 < r.count then some r.start else none

/-- The last register, if there is one. -/
def last? (r : RegRange) : Option Reg :=
  if 0 < r.count then some ⟨r.start.index + r.count - 1⟩ else none

/-- A range is written by its first and last register between braces. -/
def text (r : RegRange) : String :=
  match r.last? with
  | some last => "\x7b" ++ r.start.text ++ " .. " ++ last.text ++ "\x7d"
  | none => "\x7b\x7d"

end RegRange

/-- The registers of a list, between braces. -/
def regListText (regs : List Reg) : String :=
  "\x7b" ++ ", ".intercalate (regs.map Reg.text) ++ "\x7d"

/-- The most registers a list can name. -/
def maxListed : Nat := 5

/-- A list of registers, refused if an instruction cannot hold it. -/
def checkRegList (regs : List Reg) : Except ModelError (List Reg) :=
  if regs.length ≤ maxListed then .ok regs else .error (.tooManyRegisters regs.length)

/-- The argument registers of a call or of an array literal. -/
inductive Args where
  | list (regs : List Reg)
  | range (range : RegRange)
  deriving DecidableEq, Repr

namespace Args

/-- The first argument register, which holds the receiver of an instance call. -/
def first? : Args → Option Reg
  | .list regs => regs.head?
  | .range r => r.first?

/-- The number of argument registers. -/
def count : Args → Nat
  | .list regs => regs.length
  | .range r => r.count

/-- The written form of the registers. -/
def text : Args → String
  | .list regs => regListText regs
  | .range r => r.text

/-- What a mnemonic ends with when its arguments are a range. -/
def mark : Args → String
  | .list _ => ""
  | .range _ => "/range"

end Args

end Dalvik
