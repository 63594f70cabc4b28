import Dalvik.Accessor
import Dalvik.Analysis.Point
import Dalvik.ClassPath.Layout
import Dalvik.ClassPath.Vtable

/-!
# Deodexing

The standard form of an odexed instruction.  Some have one that can be read off
(`Instr.plainForm?`).  An inlined call is looked up in the inline table.  A field offset and a
vtable index are looked up in the class of the receiver, so they wait until that is known.

A field or method is named through its own class if the analysed class sees it, else through
the nearest class above the receiver's that is seen.
-/

namespace Dalvik

namespace Instr

/-- The standard form of an odexed instruction that can be read off. -/
def plainForm? (i : Instr) : Except AnalysisError (Option Instr) :=
  match i with
  | .returnVoidBarrier => .ok (some .returnVoid)
  | .invokeDirectEmpty regs m => .ok (some (.invoke .direct (.list regs) m))
  | .invokeObjectInit range m =>
    if range.count = 1 ∧ range.start.index < 16 then
      .ok (some (.invoke .direct (.list [range.start]) m))
    else .ok (some (.invoke .direct (.range range) m))
  | .instanceVolatile _ _ _ _ _ | .staticVolatile _ _ _ _ => i.accessVolatile.map some
  | _ => .ok none

/-- The register a marker names: that of the object, or the first of the arguments. -/
def markedRegister? : Instr → Option Reg
  | .instanceQuick _ _ _ object _ => some object
  | .executeInline args _ | .invokeQuick _ args _ =>
    match args with
    | .list regs => regs.head?
    | .range range => some range.start
  | _ => none

/-- What an odexed instruction becomes that the analysis left: its standard form if that can be
read off, else a marker of the same size.  An instruction without a register to name stays. -/
def finalForm (i : Instr) : Except AnalysisError Instr := do
  match ← i.plainForm? with
  | some standard => return standard
  | none =>
    match i.markedRegister? with
    | some r => return .unresolvedOdex r i.size
    | none => return i

/-- Whether the instruction has a standard form. -/
def hasStandardForm : Instr → Bool
  | .throwVerificationError _ _ => false
  | i => i.odexOnly

end Instr

/-- How a call by vtable index is made. -/
def QuickDispatch.dispatch : QuickDispatch → Dispatch
  | .virtual => .virtual
  | .super => .super

/-- How an inlined method is called. -/
def InlineMethod.dispatch (m : InlineMethod) : Dispatch :=
  if m.isStatic then .static else if m.isPrivate then .direct else .virtual

namespace Analysis

/-- What is analysed: a method, with all that its analysis looks up. -/
structure Subject where
  /-- The known classes. -/
  classPath : ClassPath
  /-- The inline table, if there is one. -/
  inline? : Option InlineTable
  /-- The class of the method. -/
  cls : ClassDef
  /-- The method. -/
  method : MethodRef
  /-- Its body. -/
  body : Body
  /-- The flow graph of the body. -/
  graph : FlowGraph

namespace Subject

/-! ## Visible classes -/

/-- Whether the analysed class sees a class.  Every array is seen. -/
def sees (s : Subject) (descriptor : String) : Except HierarchyError Bool :=
  if descriptor.toList.head? = some '[' then .ok true
  else (s.classPath.classDef descriptor).map fun c => c.isPublic || c.package == s.cls.package

/-- The first of some nodes that the analysed class sees. -/
def firstSeen (s : Subject) : List TypeNode → Except HierarchyError (Option TypeNode)
  | [] => .ok none
  | n :: rest => do if ← s.sees n.descriptor then return some n else s.firstSeen rest

/-- The nearest node from a node upwards that the analysed class sees. -/
def visibleAbove (s : Subject) (n : TypeNode) : Except HierarchyError (Option TypeNode) := do
  s.firstSeen (n :: (← s.classPath.superclassChain n))

/-- The type of a node. -/
def tyOfNode (n : TypeNode) : Rule Ty :=
  match Ty.read n.descriptor with
  | .ok t => pure t
  | .error e => throw (.model e)

/-! ## Look-ups -/

/-- The class of the object in a register, or nothing while it is not known. -/
def receiverNode? (p : Point) (object : Reg) : Rule (Option TypeNode) := do
  match ← Rule.lift (p.typeBefore object) with
  | .unknown | .narrow .null => return none
  | .uninitRef n _ | .uninitThis n | .reference n => return some n
  | t => throw (.invalidRegisterType t object)

/-- The field at an offset in the objects of a node, as the analysed class names it. -/
def fieldAt (s : Subject) (n : TypeNode) (offset : Nat) : Rule FieldRef := do
  match ← Rule.ask (s.classPath.fieldAt? n offset) with
  | none => throw (.fieldNotResolved n.descriptor offset)
  | some f =>
    if ← Rule.known (s.sees f.definer.descriptor) then return f
    else
      match ← Rule.known (s.visibleAbove n) with
      | none => throw (.inaccessibleDefiner (.field f))
      | some definer =>
        match ← Rule.ask (s.classPath.fieldAt? definer offset) with
        | none => throw (.inaccessibleDefiner (.field f))
        | some g => return ⟨← tyOfNode definer, g.name, g.ty⟩

/-- The node whose vtable a call to the superclass goes through: the superclass of the analysed
class, or the class itself if that is not known. -/
def superNode (s : Subject) : Rule TypeNode := do
  let this ← Rule.known (TypeNode.ofTy s.cls.ty)
  match s.classPath.superclass? this with
  | .ok (some d) => Rule.known (TypeNode.ofDescriptor d)
  | .ok none => return this
  | .error e => if e.isUnresolved then return this else throw (.hierarchy e)

/-- The slot at an index of the vtable of a node, for an object of a class. -/
def slotAt (s : Subject) (n receiver : TypeNode) (index : Nat) : Rule Slot := do
  match ← Rule.ask (s.classPath.methodAt? n index) with
  | none => throw (.methodNotResolved receiver.descriptor index)
  | some slot => return slot

/-- The method at an index of the vtable of a node, as the analysed class names it. -/
def methodAt (s : Subject) (n : TypeNode) (index : Nat) : Rule MethodRef := do
  let m := (← s.slotAt n n index).method
  if ← Rule.known (s.sees m.definer.descriptor) then return m
  else
    match ← Rule.known (s.visibleAbove n) with
    | none => throw (.inaccessibleDefiner (.method m))
    | some definer =>
      match ← Rule.ask (s.classPath.methodAt? definer index) with
      | none => throw (.inaccessibleDefiner (.method m))
      | some slot => return { slot.method with definer := ← tyOfNode definer }

/-- The method a call by vtable index reaches on an object of a class.  A call to the superclass
always names the method of the superclass. -/
def quickMethod (s : Subject) (dispatch : QuickDispatch) (receiver : TypeNode) (index : Nat) :
    Rule MethodRef := do
  match dispatch with
  | .super => return (← s.slotAt (← s.superNode) receiver index).method
  | .virtual => s.methodAt receiver index

/-! ## Standard forms -/

/-- The standard form of an odexed access to a field, or nothing while the class of the object is
not known. -/
def quickField? (s : Subject) (p : Point) (object : Reg) (offset : Nat) :
    Rule (Option Instr) := do
  match ← receiverNode? p object with
  | none => return none
  | some n =>
    let f ← s.fieldAt n offset
    return some (← Rule.lift (p.instr.accessField f))

/-- The standard form of a call by vtable index, or nothing while the class of the receiver is
not known. -/
def quickCall? (s : Subject) (p : Point) (dispatch : QuickDispatch) (args : Args) (index : Nat) :
    Rule (Option Instr) := do
  match args.first? with
  | none => throw (.missingReceiver p.instr.mnemonic)
  | some object =>
    match ← receiverNode? p object with
    | none => return none
    | some n => return some (.invoke dispatch.dispatch args (← s.quickMethod dispatch n index))

/-- The standard form of an inlined call. -/
def inlineCall (s : Subject) (args : Args) (index : Nat) : Except AnalysisError Instr := do
  match s.inline? with
  | none => throw .noInlineResolver
  | some table =>
    let m ← table.resolve index args.count
    return .invoke m.dispatch args m.method

/-- The standard form of the instruction of a point, or nothing while it is not known. -/
def standardForm? (s : Subject) (p : Point) : Rule (Option Instr) :=
  match p.instr with
  | .instanceQuick _ _ _ object offset => s.quickField? p object offset
  | .invokeQuick dispatch args index => s.quickCall? p dispatch args index
  | .executeInline args index => Rule.lift ((s.inlineCall args index).map some)
  | i => Rule.lift i.plainForm?

end Subject

end Analysis

end Dalvik
