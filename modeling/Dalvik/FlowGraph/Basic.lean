import Dalvik.Body
import Dalvik.Remaining
import Dalvik.Worklist

/-!
# Flow graphs

The nodes of the flow graph of a body are a start node and the instructions.  An instruction is
followed by its *normal* successors: the next instruction, the target of a jump, the targets of
a switch.  An instruction that throws changes no register, so its handlers do not follow it.
They follow every node that it follows itself.  Hence the successors of a node are its normal
successors, closed under going from an instruction that can throw to its handlers
(`FlowGraph.close`).

Only code that can be reached is looked at, lowest index first, so a body may hold tables and
dead code.  The handlers of all instructions are looked up beforehand.
-/

namespace Dalvik

/-! ## Malformed flow -/

/-- What is wrong with the flow of a body. -/
inductive FlowError where
  /-- An address of the body is not that of an instruction. -/
  | model (e : ModelError)
  /-- There is no instruction. -/
  | noCode
  /-- The last instruction does not end the method. -/
  | continuesPastEnd
  /-- An instruction that fetches an exception follows one that raised none. -/
  | moveExceptionEdge (source : String) (sourceAddr targetAddr : Addr)
  /-- A jump does not lead to an instruction. -/
  | invalidTarget (source : Addr) (offset : Int)
  /-- A switch does not lead to a table. -/
  | missingTable (addr : Addr)
  deriving DecidableEq, Repr

/-- The wording of a fault. -/
def FlowError.message : FlowError → String
  | .model e => "dex error: " ++ e.message
  | .noCode => "the method has no implementation"
  | .continuesPastEnd => "Execution can continue past the last instruction"
  | .moveExceptionEdge source sourceAddr targetAddr =>
    "Execution can pass from the " ++ source ++ " instruction at code address " ++
      sourceAddr.text ++ " to the move-exception instruction at address " ++ targetAddr.text
  | .invalidTarget source offset =>
    "invalid branch target: offset " ++ toString offset ++ " from code address " ++ source.text
  | .missingTable addr => "no switch payload at code address " ++ addr.text

/-! ## Normal successors -/

namespace Body

/-- The instruction an offset leads to. -/
def target (b : Body) (source : Addr) (offset : Int) : Except FlowError Nat :=
  match (source.offset? offset).bind b.find? with
  | some i => .ok i
  | none => .error (.invalidTarget source offset)

/-- The instructions the table of a switch leads to.  Its offsets count from the switch. -/
def switchTargets (b : Body) (source : Addr) (offset : Int) : Except FlowError (List Nat) := do
  let i ← b.target source offset
  match b.lines[i]? with
  | none => throw (.invalidTarget source offset)
  | some table =>
    match table.instr.tableTargets? with
    | none => throw (.missingTable table.addr)
    | some offsets => offsets.mapM (b.target source)

/-- Where the instruction of a line jumps to. -/
def jumpTargets (b : Body) (l : Line) : Except FlowError (List Nat) :=
  match l.instr.targetOffset? with
  | none => .ok []
  | some offset =>
    if l.instr.isSwitch then b.switchTargets l.addr offset
    else if l.instr.isBranch then (b.target l.addr offset).map fun i => [i]
    else .ok []

/-- Refuses a normal edge to an instruction that fetches an exception. -/
def checkEdge (b : Body) (source : String) (sourceAddr : Addr) (i : Nat) :
    Except FlowError Unit :=
  match b.lines[i]? with
  | some l =>
    if l.instr.isMoveException then .error (.moveExceptionEdge source sourceAddr l.addr)
    else .ok ()
  | none => .ok ()

/-- The next instruction, if an instruction can continue to it. -/
def nextOf (b : Body) (i : Nat) (l : Line) : Except FlowError (List Nat) :=
  if l.instr.canContinue then
    if i + 1 < b.lines.length then do
      b.checkEdge l.instr.mnemonic l.addr (i + 1)
      return [i + 1]
    else throw .continuesPastEnd
  else return []

/-- The normal successors of an instruction, in order. -/
def normalSuccessors (b : Body) (i : Nat) (l : Line) : Except FlowError (List Nat) := do
  let next ← b.nextOf i l
  let targets ← b.jumpTargets l
  targets.forM (b.checkEdge l.instr.mnemonic l.addr)
  return next ++ targets

/-- The instruction a handler starts with. -/
def handlerIndex (b : Body) (h : Handler) : Except FlowError Nat :=
  match b.indexAt h.addr with
  | .ok i => .ok i
  | .error e => .error (.model e)

/-- The handlers of the instruction of a line, as indices. -/
def handlersOf (b : Body) (l : Line) : Except FlowError (List Nat) :=
  if l.instr.canThrow then (b.handlersAt l.addr).mapM b.handlerIndex else .ok []

end Body

/-! ## Edges -/

/-- A node of a flow graph. -/
inductive NodeId where
  | start
  | instr (index : Nat)
  deriving DecidableEq, Repr

/-- The written form of a node. -/
def NodeId.text : NodeId → String
  | .start => "<start>"
  | .instr i => "#" ++ toString i

/-- The nodes that an instruction follows. -/
structure Sources where
  /-- Whether the start node is one of them. -/
  start : Bool
  /-- The instructions among them. -/
  instrs : Worklist
  deriving DecidableEq, Repr

namespace Sources

/-- No nodes. -/
def none : Sources := ⟨false, .empty⟩

/-- Adds a node. -/
def insert (s : Sources) : NodeId → Sources
  | .start => { s with start := true }
  | .instr i => { s with instrs := s.instrs.insert i }

/-- The nodes in order, the start node first. -/
def nodes (s : Sources) : List NodeId :=
  (if s.start then [.start] else []) ++ s.instrs.items.map .instr

end Sources

/-- The edges of every node that can be reached. -/
structure FlowGraph where
  /-- The successors of the start node. -/
  entry : List Nat
  /-- The successors of each instruction, or nothing if it is not reached. -/
  succs : List (Option (List Nat))
  /-- The nodes that each instruction follows. -/
  sources : List Sources
  deriving DecidableEq, Repr

namespace FlowGraph

/-- What is left after elements are dropped starts with one that is not dropped. -/
theorem refused_of_dropWhile {α : Type} {p : α → Bool} {l rest : List α} {a : α}
    (h : l.dropWhile p = a :: rest) : p a = false := by
  have := List.head?_dropWhile_not p l
  rwa [h] at this

/-- Adds indices to a list of indices below a bound, each followed by its handlers, and leaves
out those that are there.  `todo` is still to be added. -/
def close (handlers : List (List Nat)) (todo found : List Nat) : List Nat :=
  match _h : todo.dropWhile fun t => decide (t ∈ found ∨ handlers.length ≤ t) with
  | [] => found
  | t :: rest => close handlers (handlers.getD t [] ++ rest) (found ++ [t])
termination_by remaining (List.range handlers.length) found
decreasing_by
  have ht := refused_of_dropWhile _h
  simp only [decide_eq_false_iff_not, not_or, Nat.not_le] at ht
  exact remaining_lt (fun _ hx => List.mem_append_left _ hx) (List.mem_range.2 ht.2) ht.1
    (by simp)

/-- The first pending index is one of an instruction, and was not done. -/
theorem fresh_of_dropWhile {n i : Nat} {done items rest : List Nat}
    (h : (items.dropWhile fun i => decide (i ∈ done ∨ n ≤ i)) = i :: rest) :
    i ∉ done ∧ i < n := by
  have hi := refused_of_dropWhile h
  simpa only [decide_eq_false_iff_not, not_or, Nat.not_le] using hi

/-- Notes a node at each of its successors. -/
def link (n : NodeId) (succs : List Nat) (sources : List Sources) : List Sources :=
  succs.foldl (fun sources t => sources.modify t (·.insert n)) sources

/-- Finds the successors of every instruction that can be reached, lowest index first.  `done`
has those found so far, `sources` the nodes that each instruction follows so far, and `pending` the
indices reached so far. -/
def explore (b : Body) (handlers : List (List Nat)) (done : List (Nat × List Nat))
    (sources : List Sources) (pending : Worklist) :
    Except FlowError (List (Nat × List Nat) × List Sources) :=
  match _hp : pending.items.dropWhile fun i =>
      decide (i ∈ done.map Prod.fst ∨ b.lines.length ≤ i) with
  | [] => .ok (done, sources)
  | i :: rest =>
    have hi : i < b.lines.length := (fresh_of_dropWhile _hp).2
    match b.normalSuccessors i b.lines[i] with
    | .error e => .error e
    | .ok normal =>
      let succs := close handlers normal []
      explore b handlers ((i, succs) :: done) (link (.instr i) succs sources)
        (Worklist.insertAll ⟨rest⟩ succs)
termination_by remaining (List.range b.lines.length) (done.map Prod.fst)
decreasing_by
  exact remaining_cons_lt (List.mem_range.2 hi) (fresh_of_dropWhile _hp).1

/-- The flow graph of a body. -/
def build (b : Body) : Except FlowError FlowGraph := do
  if b.lines = [] then throw .noCode
  let handlers ← b.lines.mapM b.handlersOf
  b.checkEdge "start-of-method" .entry 0
  let entry := close handlers [0] []
  let (done, sources) ← explore b handlers []
    (link .start entry (.replicate b.lines.length .none)) (Worklist.empty.insertAll entry)
  return ⟨entry, (List.range b.lines.length).map fun i => done.lookup i, sources⟩

/-- The number of instructions. -/
def size (g : FlowGraph) : Nat := g.succs.length

/-- The successors of a node. -/
def successors (g : FlowGraph) : NodeId → List Nat
  | .start => g.entry
  | .instr i => ((g.succs[i]?).bind id).getD []

/-- The nodes an instruction follows, the start node first. -/
def predecessors (g : FlowGraph) (i : Nat) : List NodeId := ((g.sources[i]?).getD .none).nodes

/-- Whether an instruction can be reached: only then it follows a node. -/
def isReachable (g : FlowGraph) (i : Nat) : Bool := !(g.predecessors i).isEmpty

/-- Whether an instruction can be the first one that is executed to its end. -/
def isBeginning (g : FlowGraph) (i : Nat) : Bool := (g.predecessors i).head? == some .start

end FlowGraph

end Dalvik
