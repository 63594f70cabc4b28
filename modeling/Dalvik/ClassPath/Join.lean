import Dalvik.ClassPath.Interfaces

/-!
# Common superclasses

The join of two nodes is the nearest node above both.  For two classes it is one of them if that
is an interface the other implements, and the last common node of their superclass chains
otherwise.  A class that is not defined is taken for an interface.  Where the hierarchy is not
known well enough, the join is the unknown class.

Arrays of one number of dimensions over classes join element by element.  A class may be declared
below an array, and then the elements can join to an array and the join has more dimensions.
Other arrays meet in arrays of the root class, in the root class, or in an interface of arrays.
-/

namespace Dalvik.ClassPath

/-- Whether a class is an interface that another class implements.  Of a class that is not
defined, `false` also says that this is not known. -/
def isInterfaceOf (cp : ClassPath) (iface d : String) : Query Bool :=
  match cp.def? iface with
  | some c => if c.isInterface then cp.classImplements d iface else pure false
  | none => do
    match ← Asking.attempt (cp.classImplements d iface) with
    | .ok answer => pure answer
    | .error e => if e.isUnresolved then pure false else throw e

/-- The chain of a node from the root down to itself, or nothing if it is cyclic. -/
def chainDown (cp : ClassPath) (n : TypeNode) : Except HierarchyError (Option (List TypeNode)) :=
  match cp.superclassChain n with
  | .ok above => .ok (some (n :: above).reverse)
  | .error (.cycle _) => .ok none
  | .error e => .error e

/-- The last node of the common start of two chains. -/
def lastCommon? : List TypeNode → List TypeNode → Option TypeNode
  | a :: as, b :: bs => if a = b then some ((lastCommon? as bs).getD a) else none
  | _, _ => none

/-- The join of two different classes by their superclass chains. -/
def chainJoin (cp : ClassPath) (a b : String) : Except HierarchyError TypeNode := do
  let down ← cp.chainDown (.cls a)
  let down' ← cp.chainDown (.cls b)
  match down, down' with
  | some as, some bs => return (lastCommon? as bs).getD .unknown
  | _, _ => return .unknown

/-- The join of two classes. -/
def classJoin (cp : ClassPath) (a b : String) : Query TypeNode :=
  if a = b ∨ a = objectClass then pure (.cls a)
  else if b = objectClass then pure (.cls b)
  else do
    match ← Asking.attempt (cp.isInterfaceOf a b) with
    | .ok true => pure (.cls a)
    | first =>
      if let .error e := first then
        if !e.isUnresolved then throw e
      match ← Asking.attempt (cp.isInterfaceOf b a) with
      | .ok true => pure (.cls b)
      | .error e => if e.isUnresolved then pure .unknown else throw e
      | .ok false =>
        match first with
        | .error _ => pure .unknown
        | .ok _ => Asking.lift (cp.chainJoin a b)

/-- The join of two nodes that are not arrays. -/
def plainJoin (cp : ClassPath) : TypeNode → TypeNode → Query TypeNode
  | .primitive d, _ => throw (.noCommonSuperclass d)
  | .unknown, b => pure (if b = .cls objectClass then b else .unknown)
  | .cls a, .cls b => cp.classJoin a b
  | .cls a, .unknown => pure (if a = objectClass then .cls a else .unknown)
  | .cls _, .primitive d => throw (.noCommonSuperclass d)
  | .cls _, .array _ _ | .array _ _, _ => pure (.cls objectClass)

/-- Whether the element of an array is one byte long, as that of an array of numbers. -/
def isPrimitiveElement (element : String) : Bool := element.utf8ByteSize == 1

/-- The join of two arrays. -/
def arrayJoin (cp : ClassPath) (dims : Nat) (elem : String) (dims' : Nat) (elem' : String) :
    Query TypeNode :=
  if isPrimitiveElement elem || isPrimitiveElement elem' then
    pure (if dims = dims' ∧ elem = elem' then .array dims elem else .cls objectClass)
  else if dims = dims' then do
    let a ← Asking.lift (TypeNode.ofDescriptor elem)
    let b ← Asking.lift (TypeNode.ofDescriptor elem')
    return .arrayOf dims (← cp.plainJoin a b)
  else pure (.array (min dims dims') objectClass)

/-- The join of an array and a class. -/
def arrayClassJoin (cp : ClassPath) (d : String) : TypeNode :=
  match cp.def? d with
  | some c => if c.isInterface && arrayImplements d then .cls d else .cls objectClass
  | none => .cls objectClass

/-- The join of two nodes. -/
def commonSuperclass (cp : ClassPath) : TypeNode → TypeNode → Query TypeNode
  | .primitive d, _ => throw (.noCommonSuperclass d)
  | .unknown, .array _ _ => pure (.cls objectClass)
  | .array dims elem, .array dims' elem' => cp.arrayJoin dims elem dims' elem'
  | .array _ _, .cls d | .cls d, .array _ _ => pure (cp.arrayClassJoin d)
  | .array _ _, .unknown => pure (.cls objectClass)
  | .array _ _, .primitive d => throw (.noCommonSuperclass d)
  | a, b => cp.plainJoin a b

end Dalvik.ClassPath
