import Dalvik.Analysis.Transfer

/-!
# States of an analysis

The state of an analysis holds the types at all points.  `Subject.assign` writes the type of a
register after a node and carries it on: it is joined into the types before each successor, and
from there through every instruction that does not write the register, lowest index first.  A
point whose types change has to be analysed again.

A register can only climb so often: through the categories, through the classes above the class
of a reference, and through the dimensions of an array.  That bounds how often a type is carried
on (`Subject.budget`).  The dimensions can grow where classes are declared below arrays, by those
of one superclass at each point (`Subject.reach`).
-/

namespace Dalvik.Analysis

/-- The state of an analysis. -/
structure State where
  /-- The answers about the hierarchy found so far. -/
  memo : Memo
  /-- The types of the registers after the start node. -/
  entry : Array RegType
  /-- The points, in the order of the instructions. -/
  points : Array Point
  /-- The points that need no analysis until a type before them changes. -/
  settled : Worklist
  deriving Repr

/-- A step of an analysis.  A failure keeps the state. -/
abbrev Step := EStateM AnalysisError State

namespace State

/-- The state in which nothing is known. -/
def initial (b : Body) (m : Memo) : State :=
  ⟨m, .replicate b.registers .unknown, (b.lines.map (Point.ofLine b.registers)).toArray, .empty⟩

/-- The type of a register after a node. -/
def typeAfter? (s : State) (n : NodeId) (r : Nat) : Option RegType :=
  match n with
  | .start => s.entry[r]?
  | .instr i => (s.points[i]?).bind fun p => p.after[r]?

/-- Writes the type of a register after a node. -/
def setAfter (s : State) (n : NodeId) (r : Nat) (t : RegType) : State :=
  match n with
  | .start => { s with entry := s.entry.setIfInBounds r t }
  | .instr i =>
    { s with points := s.points.modify i fun p => { p with after := p.after.setIfInBounds r t } }

/-- The most dimensions of an array in a register before any point. -/
def depth (s : State) (r : Nat) : Nat :=
  s.points.foldl (fun n p => max n (((p.before[r]?).map RegType.dims).getD 0)) 0

/-- Puts a point at an index. -/
def setPoint (s : State) (i : Nat) (p : Point) : State :=
  { s with points := s.points.setIfInBounds i p }

/-- Puts an instruction in the place of the one at an index. -/
def setInstr (s : State) (i : Nat) (instr : Instr) : State :=
  { s with points := s.points.modify i fun p => { p with instr := instr } }

/-- Takes the point at an index back to be analysed again. -/
def unsettle (s : State) (i : Nat) : State := { s with settled := s.settled.erase i }

/-- Notes that the point at an index was analysed. -/
def settle (s : State) (i : Nat) : State := { s with settled := s.settled.insert i }

/-- The lines of the instructions in their places. -/
def lines (s : State) : List Line := s.points.toList.map Point.line

end State

namespace Step

variable {α : Type}

/-- Follows a rule. -/
def ofRule (r : Rule α) : Step α := fun s =>
  match r s.memo with
  | .ok a m => .ok a { s with memo := m }
  | .error e m => .error e { s with memo := m }

end Step

namespace Subject

/-- The most dimensions that arrays come to, where none starts with more than a number of
dimensions. -/
def reach (s : Subject) (depth : Nat) : Nat :=
  depth + (s.body.lines.length + 1) * s.classPath.depth

/-- A bound on how often a type is carried on, where no array starts with more than a number of
dimensions.  At each point and with each number of dimensions a register climbs through the
categories, and through the defined classes and a few others. -/
def budget (s : Subject) (depth : Nat) : Nat :=
  (s.body.lines.length + 1) * (s.reach depth + 1) * (4 * (s.classPath.defs.length + 16))

/-- Joins a type into that of a register before a point.  The index is added to those from which
the type has to be carried on, if it passes through the point. -/
def receive (s : Subject) (r : Nat) (t : RegType) (changed : Worklist) (i : Nat) :
    Step Worklist := do
  match (← get).points[i]? with
  | none => return changed
  | some p =>
    match ← Step.ofRule (Rule.ask (p.receive s.classPath r t)) with
    | none => return changed
    | some (p, passed) =>
      modify fun st => (st.setPoint i p).unsettle i
      return if passed then changed.insert i else changed

/-- Joins the type of a register after a node into those before its successors. -/
def carry (s : Subject) (n : NodeId) (r : Nat) (changed : Worklist) : Step Worklist := do
  match (← get).typeAfter? n r with
  | none => return changed
  | some t => (s.graph.successors n).foldlM (s.receive r t) changed

/-- Carries the type of a register on from some points, lowest index first, a number of times
that is left of a limit. -/
def carryAll (s : Subject) (r limit : Nat) : Nat → Worklist → Step Unit
  | left, changed =>
    match changed.pop? with
    | none => return
    | some (i, rest) =>
      match left with
      | 0 => throw (.iterationLimit limit)
      | left + 1 => do s.carryAll r limit left (← s.carry (.instr i) r rest)

/-- Writes the type of one register after a node and carries it on.  The answer is whether the
type is a new one. -/
def assignOne (s : Subject) (n : NodeId) (r : Nat) (t : RegType) : Step Bool := do
  let st ← get
  if st.typeAfter? n r = some t then return false
  else
    let limit := s.budget (max t.dims (st.depth r))
    set (st.setAfter n r t)
    s.carryAll r limit limit (← s.carry n r .empty)
    return true

/-- Writes the type of a register after a node and carries it on.  A wide value takes the next
register too. -/
def assign (s : Subject) (n : NodeId) (r : Nat) (t : RegType) : Step Unit := do
  if s.body.registers ≤ r then throw (.registerOutOfBounds ⟨r⟩)
  else if ← s.assignOne n r t then
    match t.high? with
    | none => return
    | some high =>
      if s.body.registers ≤ r + 1 then throw (.widePairOutOfBounds ⟨r⟩)
      else discard (s.assignOne n (r + 1) high)
  else return

end Subject

end Dalvik.Analysis
