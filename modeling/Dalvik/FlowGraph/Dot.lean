import Dalvik.FlowGraph.Basic

/-!
# Drawing flow graphs

A drawing numbers the start node and the reachable instructions, and labels each edge with how
control passes along it.  The label of an edge is read off the instruction it leaves: an edge
that is neither to the next instruction nor along a jump is that of an exception.
-/

namespace Dalvik

/-- How control passes along an edge. -/
inductive Edge where
  | sequence
  | jump
  | switch
  | catch
  deriving DecidableEq, Repr

namespace Edge

/-- The label of an edge. -/
def label : Edge → String
  | .sequence => "<seq>"
  | .jump => "<jmp>"
  | .switch => "<switch>"
  | .catch => "<catch>"

/-- The colour of an edge. -/
def colour : Edge → String
  | .sequence => "black"
  | .jump => "blue"
  | .switch => "purple"
  | .catch => "orchid"

end Edge

/-- A numbered drawing. -/
structure Drawing where
  /-- The texts of the nodes, in the order of their numbers. -/
  nodes : List String
  /-- The edges by the numbers of their ends. -/
  edges : List (Nat × Edge × Nat)

namespace FlowGraph

/-- How control passes along an edge of a graph over some lines. -/
def edgeKind (lines : List Line) (source : NodeId) (target : Nat) : Edge :=
  match source with
  | .start => if target = 0 then .sequence else .catch
  | .instr i =>
    match lines[i]? with
    | none => .catch
    | some l =>
      if l.instr.canContinue && target == i + 1 then .sequence
      else if l.instr.isSwitch then .switch
      else if l.instr.isBranch &&
          l.instr.targetOffset?.bind l.addr.offset? == (lines[target]?).map Line.addr then
        .jump
      else .catch

/-- The number of an instruction in a drawing: the start node is 0, and instructions that are
not reached have none. -/
def number (g : FlowGraph) (i : Nat) : Nat := ((List.range i).filter g.isReachable).length + 1

/-- The drawing of a graph over some lines. -/
def draw (g : FlowGraph) (lines : List Line) : Drawing where
  nodes :=
    NodeId.start.text ::
      ((List.range g.size).filter g.isReachable).filterMap fun i => (lines[i]?).map Line.text
  edges :=
    (g.entry.map fun t => (0, edgeKind lines .start t, g.number t)) ++
      (List.range g.size).flatMap fun i =>
        (g.successors (.instr i)).map fun t =>
          (g.number i, edgeKind lines (.instr i) t, g.number t)

end FlowGraph

namespace Drawing

/-- Text as it stands inside a label of marked-up text. -/
def escape (s : String) : String :=
  String.join (s.toList.map fun c =>
    match c with
    | '&' => "&amp;"
    | '<' => "&lt;"
    | '>' => "&gt;"
    | c => String.singleton c)

/-- The line of a node. -/
def nodeLine (n : Nat × String) : String :=
  "    " ++ toString n.1 ++ " [ shape=box,label=<" ++ escape n.2 ++ ">]\n"

/-- The line of an edge. -/
def edgeLine (e : Nat × Edge × Nat) : String :=
  "    " ++ toString e.1 ++ " -> " ++ toString e.2.2 ++ " [ color=" ++ e.2.1.colour ++
    ",xlabel=<" ++ escape e.2.1.label ++ ">]\n"

/-- The drawing in the DOT language. -/
def dot (d : Drawing) : String :=
  "digraph \x7b\n  nodesep=1;\n" ++
    String.join ((d.nodes.zipIdx.map fun (text, n) => (n, text)).map nodeLine) ++
    String.join (d.edges.map edgeLine) ++ "\x7d"

end Drawing

end Dalvik
