import Dalvik.Analysis.Run
import Dalvik.FlowGraph.Dot

/-!
# Analysed methods

`analyseMethod` finds the types of the registers around every instruction of a method, and the
standard form of its odexed instructions.  `analyseClasses` does so for all methods of some
classes.  The answers about the hierarchy are remembered from one method to the next.
-/

namespace Dalvik.Analysis

/-- An analysed method. -/
structure Analysed where
  /-- The method, with its body and graph. -/
  subject : Subject
  /-- The number of registers of the receiver and the parameters. -/
  paramRegisters : Nat
  /-- The types the method is entered with. -/
  entry : Array RegType
  /-- The points, in the order of the instructions. -/
  points : Array Point

namespace Analysed

/-- The instructions, in standard form as far as it was found. -/
def instrs (a : Analysed) : List Instr := a.points.toList.map Point.instr

/-- The body with these instructions. -/
def body (a : Analysed) : Body :=
  .assemble a.subject.body.registers a.instrs a.subject.body.tries

/-- The drawing of the flow graph with these instructions. -/
def draw (a : Analysed) : Drawing :=
  a.subject.graph.draw (a.points.toList.map Point.line)

end Analysed

/-- How to analyse: with an inline table or without, and with a limit of passes or the usual
one. -/
structure Options where
  /-- The inline table. -/
  inline? : Option InlineTable := none
  /-- The limit of passes. -/
  passes? : Option Nat := none

/-- What is analysed of a method with a body, and the number of its parameter registers. -/
def subjectOf (cp : ClassPath) (options : Options) (cls : ClassDef) (method : MethodDef) :
    Except AnalysisError (Subject × Nat) :=
  match method.body? with
  | none => .error (.flow .noCode)
  | some body =>
    let ref := method.ref cls.ty
    let params := ref.paramRegisters + if method.isStatic then 0 else 1
    if body.registers < params then .error (.parameterRegisters params body.registers)
    else
      match FlowGraph.build body with
      | .error e => .error (.flow e)
      | .ok graph => .ok (⟨cp, options.inline?, cls, ref, body, graph⟩, params)

/-- Analyses a method of a class. -/
def analyseMethod (cp : ClassPath) (options : Options) (cls : ClassDef) (method : MethodDef) :
    Rule Analysed := do
  let (s, params) ← Rule.lift (subjectOf cp options cls method)
  let steps : Step Unit := do
    s.enter method.isStatic (s.body.registers - params)
    s.run options.passes?
    s.finish
  fun m =>
    match steps (.initial s.body m) with
    | .ok _ st => .ok ⟨s, params, st.entry, st.points⟩ st.memo
    | .error e st => .error e st.memo

/-- Analyses a method, and takes a failure for an answer. -/
def outcome (cp : ClassPath) (options : Options) (cls : ClassDef) (method : MethodDef)
    (m : Memo) : (MethodRef × Except AnalysisError Analysed) × Memo :=
  match analyseMethod cp options cls method m with
  | .ok a m => ((method.ref cls.ty, .ok a), m)
  | .error e m => ((method.ref cls.ty, .error e), m)

/-- Analyses some methods, each with its class, one after another. -/
def outcomes (cp : ClassPath) (options : Options) :
    List (ClassDef × MethodDef) → Memo → List (MethodRef × Except AnalysisError Analysed)
  | [], _ => []
  | (cls, method) :: rest, m =>
    let (first, m) := outcome cp options cls method m
    first :: outcomes cp options rest m

/-- Analyses all methods of some classes that have a body. -/
def analyseClasses (cp : ClassPath) (options : Options) (classes : List ClassDef) :
    List (MethodRef × Except AnalysisError Analysed) :=
  let methods := classes.flatMap fun c =>
    (c.methods.filter fun m => m.body?.isSome).map fun m => (c, m)
  outcomes cp options methods .empty

end Dalvik.Analysis
