import Dalvik.Analysis.State

/-!
# Runs

A run analyses points until all that can be reached are settled.  The lowest pending point is
taken first, and its successors become pending when it is done.  A point that has to wait is put
aside, and tried again when no other point is left and something was done since.

Each analysis of a point is a pass, and the number of passes is bounded.
-/

namespace Dalvik.Analysis

/-! ## Limits -/

/-- The number of times a register type can climb. -/
def latticeHeight : Nat := 20

/-- The number of passes that is always allowed. -/
def minPasses : Nat := 1024

/-- The largest number of passes that is counted. -/
def maxCount : Nat := 0xFFFFFFFFFFFFFFFF

/-- The limit of passes for a number of instructions and registers, unless one is given.  A point
is analysed again when one of its registers climbs. -/
def passLimit (given? : Option Nat) (instrs registers : Nat) : Nat :=
  match given? with
  | some n => n
  | none =>
    let climbs := min maxCount (instrs * (registers + 1))
    max minPasses (min maxCount (climbs * latticeHeight))

/-- The number of passes after which a run is cut off.  The usual limit may itself be cut off at
`maxCount`.  No count gets past it, so it then cuts off no run that keeps to the passes it stands
for. -/
def passBound (given? : Option Nat) (instrs registers : Nat) : Nat :=
  match given? with
  | some n => n
  | none => max minPasses (instrs * (registers + 1) * latticeHeight)

namespace Subject

/-! ## One pass -/

/-- Makes the new object in a register an object of a class, and so every copy of it. -/
def initialiseFrom (s : Subject) (i : Nat) (object : Reg) (n : TypeNode) : List Nat → Step Unit
  | [] => return
  | r :: rest => do
    match (← get).points[i]? with
    | none => return
    | some p =>
      if r == object.index || p.sets r then s.assign (.instr i) r (.reference n)
      s.initialiseFrom i object n rest

/-- Carries out the effect of the instruction at an index.  The answer is whether it is known. -/
def apply (s : Subject) (i : Nat) (instr : Instr) : Effect → Step Bool
  | .waiting => return false
  | .nothing => return true
  | .write t =>
    match instr.destination? with
    | none => throw (.noDestination instr.mnemonic)
    | some dst => do
      s.assign (.instr i) dst.index t
      return true
  | .initialise object n => do
    s.initialiseFrom i object n (List.range s.body.registers)
    return true

/-- The instruction before the one at an index. -/
def previous? (st : State) : Nat → Option Instr
  | 0 => none
  | i + 1 => (st.points[i]?).map Point.instr

/-- Analyses the point at an index whose instruction is standard. -/
def transfer (s : Subject) (i : Nat) (p : Point) : Step Bool := do
  let e ← Step.ofRule (s.effect i p (previous? (← get) i))
  s.apply i p.instr e

/-- Analyses the point at an index, after it got its standard form.  The answer is whether it
could be analysed. -/
def analyse (s : Subject) (i : Nat) : Step Bool := do
  match (← get).points[i]? with
  | none => return true
  | some p =>
    if p.instr.hasStandardForm then
      match ← Step.ofRule (s.standardForm? p) with
      | none => return false
      | some standard =>
        modify fun st => st.setInstr i standard
        s.transfer i { p with instr := standard }
    else s.transfer i p

/-- Adds the place of a point to a failure. -/
def locate (s : Subject) (st : State) (i : Nat) (e : AnalysisError) : AnalysisError :=
  match st.points[i]? with
  | some p => .context p.instr.mnemonic p.addr s.method.text e
  | none => e

/-- Takes an odexed instruction back to what it was, since more may be known now. -/
def restore (st : State) (i : Nat) : State :=
  match st.points[i]? with
  | some p => if p.given.odexOnly then st.setInstr i p.given else st
  | none => st

/-- One pass over the point at an index. -/
def pass (s : Subject) (i : Nat) : Step Bool := fun st =>
  match s.analyse i (restore st i) with
  | .ok done st => .ok done st
  | .error e st => .error (s.locate st i e) st

/-! ## All passes -/

/-- What is left to do in a run. -/
structure Agenda where
  /-- The points to analyse. -/
  pending : Worklist
  /-- The points that have to wait. -/
  waiting : Worklist
  /-- Whether a point was analysed since the waiting ones were tried. -/
  progress : Bool
  deriving DecidableEq, Repr

namespace Agenda

/-- The lowest pending point that is not settled, with what is left after it. -/
def next? (a : Agenda) (settled : Worklist) : Option (Nat × Agenda) :=
  match a.pending.items.dropWhile settled.contains with
  | [] => none
  | i :: rest => some (i, { a with pending := ⟨rest⟩ })

/-- The agenda on which the waiting points are tried again. -/
def retry (a : Agenda) : Agenda := { a with pending := a.waiting, progress := false }

/-- The point to analyse next.  If none is pending the waiting ones are tried again, provided
that a point was analysed since. -/
def take? (a : Agenda) (settled : Worklist) : Option (Nat × Agenda) :=
  match a.next? settled with
  | some next => some next
  | none => if a.progress then a.retry.next? settled else none

/-- The agenda after a pass over a point. -/
def after (a : Agenda) (i : Nat) (done : Bool) (successors : List Nat) : Agenda :=
  if done then ⟨a.pending.insertAll successors, a.waiting.erase i, true⟩
  else { a with waiting := a.waiting.insert i }

end Agenda

/-- Analyses points until none is left, with a number of passes left of a limit. -/
def runFrom (s : Subject) (limit : Nat) : Nat → Agenda → Step Unit
  | passes, agenda => do
    match agenda.take? (← get).settled with
    | none => return
    | some (i, agenda) =>
      match passes with
      | 0 => throw (.iterationLimit limit)
      | passes + 1 =>
        let done ← s.pass i
        if done then modify fun st => st.settle i
        s.runFrom limit passes (agenda.after i done (s.graph.successors (.instr i)))

/-- Analyses all points that can be reached, with a limit of passes or the usual one. -/
def run (s : Subject) (passes? : Option Nat) : Step Unit :=
  s.runFrom (passLimit passes? s.body.lines.length s.body.registers)
    (passBound passes? s.body.lines.length s.body.registers)
    ⟨Worklist.empty.insertAll s.graph.entry, .empty, false⟩

/-! ## Before and after -/

/-- Writes the types of parameters after the start node, from a register on. -/
def enterParams (s : Subject) : Nat → List Ty → Step Unit
  | _, [] => return
  | r, ty :: rest => do
    let t ← Step.ofRule (Rule.known (RegType.ofTy ty))
    s.assign .start r t
    s.enterParams (r + ty.registerCount) rest

/-- Writes the type of the receiver after the start node. -/
def enterReceiver (s : Subject) (r : Nat) : Step Unit := do
  let n ← Step.ofRule (Rule.known (TypeNode.ofTy s.cls.ty))
  s.assign .start r
    (if s.method.name = Instr.constructorName then .uninitThis n else .reference n)

/-- Writes the types the method is entered with: the receiver and the parameters are in the last
registers, and the others hold nothing. -/
def enter (s : Subject) (isStatic : Bool) (locals : Nat) : Step Unit := do
  if isStatic then s.enterParams locals s.method.params
  else
    s.enterReceiver locals
    s.enterParams (locals + 1) s.method.params
  (List.range locals).forM fun r => s.assign .start r .uninit

/-- Replaces the odexed instructions that are left at some points. -/
def finishFrom (s : Subject) : List Nat → Step Unit
  | [] => return
  | i :: rest => do
    let st ← get
    match st.points[i]? with
    | none => return
    | some p =>
      if p.instr.odexOnly then
        match p.instr.finalForm with
        | .ok final => set (st.setInstr i final)
        | .error e => throw (s.locate st i e)
      s.finishFrom rest

/-- Replaces the odexed instructions that are left. -/
def finish (s : Subject) : Step Unit := s.finishFrom (List.range s.body.lines.length)

end Subject

end Dalvik.Analysis
