import Dalvik.AnalysisError
import Dalvik.InlineTable

/-!
# Points

A point is an instruction under analysis: the instruction as it was, the instruction it has
become, and the types of the registers before and after it.

`Point.receive` joins a type that comes in with what is known already.  It passes through the
instruction unless the instruction writes the register.
-/

namespace Dalvik.Analysis

/-! ## Rules -/

/-- A computation about one instruction.  It asks the class path, and it can fail. -/
abbrev Rule := EStateM AnalysisError Memo

namespace Rule

variable {α : Type}

/-- Asks the class path. -/
def ask (q : Query α) : Rule α := fun m =>
  match q m with
  | .ok a m => .ok a m
  | .error e m => .error (.hierarchy e) m

/-- Takes an answer about the hierarchy that needs no memory. -/
def known (r : Except HierarchyError α) : Rule α := ask (Asking.lift r)

/-- Takes a result that needs no class path. -/
def lift (r : Except AnalysisError α) : Rule α := fun m =>
  match r with
  | .ok a => .ok a m
  | .error e => .error e m

end Rule

/-! ## Points -/

/-- An instruction under analysis. -/
structure Point where
  /-- Its address. -/
  addr : Addr
  /-- The instruction of the body. -/
  given : Instr
  /-- The instruction in its place. -/
  instr : Instr
  /-- The types of the registers before it. -/
  before : Array RegType
  /-- The types of the registers after it. -/
  after : Array RegType
  deriving DecidableEq, Repr

namespace Point

/-- A point of which nothing is known. -/
def ofLine (registers : Nat) (l : Line) : Point :=
  ⟨l.addr, l.instr, l.instr, .replicate registers .unknown, .replicate registers .unknown⟩

/-- The line of the instruction in its place. -/
def line (p : Point) : Line := ⟨p.addr, p.instr⟩

/-- Whether two registers hold the same object, and its constructor was not called yet. -/
def sameNewObject (p : Point) (r s : Nat) : Bool :=
  match p.before[r]?, p.before[s]? with
  | some a, some b =>
    match a with
    | .uninitRef _ _ | .uninitThis _ => a == b
    | _ => false
  | _, _ => false

/-- Whether the instruction writes a register.  A constructor call writes its receiver, and every
register that holds the same new object. -/
def sets (p : Point) (r : Nat) : Bool :=
  if p.instr.isConstructorCall then
    match p.instr.receiver? with
    | some object => r == object.index || p.sameNewObject r object.index
    | none => false
  else
    match p.instr.destination? with
    | some dst => r == dst.index || (p.instr.setsWide && r == dst.index + 1)
    | none => false

/-- The type of a register before the instruction. -/
def typeBefore (p : Point) (r : Reg) : Except AnalysisError RegType :=
  match p.before[r.index]? with
  | some t => .ok t
  | none => .error (.registerOutOfBounds r)

/-- Joins a type with that of a register before the instruction.  The answer is nothing if it
adds nothing, else the new point and whether the type also changed after the instruction. -/
def receive (cp : ClassPath) (p : Point) (r : Nat) (t : RegType) : Query (Option (Point × Bool)) :=
  match p.before[r]? with
  | none => pure none
  | some old => do
    let joined ← old.join cp t
    if joined = old then return none
    else
      let p := { p with before := p.before.setIfInBounds r joined }
      if p.sets r then return some (p, false)
      else return some ({ p with after := p.after.setIfInBounds r joined }, true)

/-- The types of some registers, as they are listed. -/
def dump (types : Array RegType) : String :=
  " ".intercalate (types.toList.zipIdx.map fun (t, r) => (⟨r⟩ : Reg).text ++ "=" ++ t.text)

end Point

end Dalvik.Analysis
