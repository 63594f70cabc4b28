import Dalvik.Instr.Printer
import Dalvik.Instr.Traits
import Dalvik.Search

/-!
# Method bodies

A body is a number of registers, instructions laid out one after another, and try ranges.
`Body.assemble` gives each instruction its address, and `Body.replaceAt` is the only change: it
puts an instruction in the place of one of the same size, so that no address moves.

An instruction is found at its address by halving (`Body.find?`).  Addresses increase unless an
instruction has no size, which only a marker for an unresolved instruction may have, or the
instructions take more units than there are addresses.
-/

namespace Dalvik

/-- Where an exception goes. -/
structure Handler where
  /-- The type it catches, or every type. -/
  exception? : Option Ty
  /-- The address of its code. -/
  addr : Addr
  deriving DecidableEq, Repr

/-- A range of addresses with the handlers of the exceptions raised there. -/
structure TryRange where
  /-- The first address. -/
  start : Addr
  /-- The number of code units. -/
  units : Nat
  /-- The handlers, first match first. -/
  handlers : List Handler
  deriving DecidableEq, Repr

namespace TryRange

/-- The address after the range. -/
def stop (t : TryRange) : Addr := t.start.advance t.units

/-- Whether an address lies in the range. -/
def covers (t : TryRange) (a : Addr) : Bool :=
  decide (t.start.toNat ≤ a.toNat) && decide (a.toNat < t.stop.toNat)

end TryRange

/-- An instruction at its address. -/
structure Line where
  /-- The address. -/
  addr : Addr
  /-- The instruction. -/
  instr : Instr
  deriving DecidableEq, Repr

namespace Line

/-- The address after the instruction. -/
def next (l : Line) : Addr := l.addr.advance l.instr.size

/-- The printed line. -/
def text (l : Line) : String := l.addr.text ++ ": " ++ l.instr.text

end Line

/-- The code of a method. -/
structure Body where
  /-- The number of registers. -/
  registers : Nat
  /-- The instructions, in order of address. -/
  lines : List Line
  /-- The try ranges, first match first. -/
  tries : List TryRange
  deriving DecidableEq, Repr

namespace Body

/-- Instructions one after another from an address on. -/
def layOut : Addr → List Instr → List Line
  | _, [] => []
  | a, i :: rest => ⟨a, i⟩ :: layOut (a.advance i.size) rest

/-- The body of a list of instructions. -/
def assemble (registers : Nat) (instrs : List Instr) (tries : List TryRange) : Body :=
  ⟨registers, layOut .entry instrs, tries⟩

/-- The instructions without their addresses. -/
def instrs (b : Body) : List Instr := b.lines.map Line.instr

/-- The number of code units of a body. -/
def units (b : Body) : Nat :=
  match b.lines.getLast? with
  | some l => l.next.toNat
  | none => 0

/-- The index that the search for an address ends at, if it is one of the address. -/
def find? (b : Body) (a : Addr) : Option Nat := search? a.toNat (b.lines.map fun l => l.addr.toNat)

/-- The index of the instruction that starts at an address. -/
def indexAt (b : Body) (a : Addr) : Except ModelError Nat :=
  match b.find? a with
  | some i => .ok i
  | none => .error (.noInstruction a)

/-- The line of the instruction that starts at an address. -/
def lineAt (b : Body) (a : Addr) : Except ModelError Line :=
  match (b.find? a).bind fun i => b.lines[i]? with
  | some l => .ok l
  | none => .error (.noInstruction a)

/-- Puts an instruction in the place of the one at an address, which must have its size. -/
def replaceAt (b : Body) (a : Addr) (instr : Instr) : Except ModelError Body := do
  let i ← b.indexAt a
  let old ← b.lineAt a
  if old.instr.size = instr.size then
    return { b with lines := b.lines.set i ⟨old.addr, instr⟩ }
  else throw (.sizeMismatch a old.instr.size instr.size)

/-- The handlers of an exception raised at an address: those of the first range around it. -/
def handlersAt (b : Body) (a : Addr) : List Handler :=
  match b.tries.find? (·.covers a) with
  | some t => t.handlers
  | none => []

end Body

end Dalvik
