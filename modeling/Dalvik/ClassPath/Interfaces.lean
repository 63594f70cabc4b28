import Dalvik.ClassPath.Memo

/-!
# Implemented interfaces

A class implements the interfaces it declares, those they extend, those of its superclass, and
itself if it is an interface.  `ClassPath.interfacesOf` collects them in that order.

A declared interface that cannot be resolved is recorded, and then no further declared one is
looked at.  What is recorded after that may be incomplete, so the question whether a class
implements an interface has three answers: yes, no, and not known.
-/

namespace Dalvik.ClassPath

/-- Adds declared interfaces with all they extend, up to the first that is not resolved.
`inherited` answers for an interface that is a class. -/
def addDeclared {σ : Type} (cp : ClassPath) (inherited : String → Asking σ Interfaces) :
    List Ty → Interfaces → Asking σ Interfaces
  | [], acc => pure acc
  | t :: rest, acc =>
    if acc.contains t.descriptor then addDeclared cp inherited rest acc
    else do
      let acc :=
        match cp.def? t.descriptor with
        | some _ => acc.insert ⟨t.descriptor, true⟩
        | none => (acc.insert ⟨t.descriptor, false⟩).unresolved
      match ← Asking.lift (TypeNode.ofTy t) with
      | .cls name =>
        match ← Asking.attempt (inherited name) with
        | .ok more => addDeclared cp inherited rest (acc.absorb more)
        | .error e => if e.isUnresolved then pure acc.unresolved else throw e
      | _ => pure acc.unresolved

/-- Adds the interfaces of a superclass that is a class. -/
def addInherited {σ : Type} (inherited : String → Asking σ Interfaces) (superclass? : Option Ty)
    (acc : Interfaces) : Asking σ Interfaces :=
  match superclass? with
  | none => pure acc
  | some s => do
    match ← Asking.lift (TypeNode.ofTy s) with
    | .cls name =>
      match ← Asking.attempt (inherited name) with
      | .ok more => pure (acc.inherit more)
      | .error e => if e.isUnresolved then pure acc.unresolved else throw e
    | _ => pure acc

/-- The interfaces of a defined class, when those of the classes above it are given. -/
def collectInterfaces {σ : Type} (cp : ClassPath) (inherited : String → Asking σ Interfaces)
    (d : String) (c : ClassDef) : Asking σ Interfaces := do
  let declared ← addDeclared cp inherited c.interfaces ⟨[], true⟩
  let own := if c.isInterface then declared.insert ⟨d, false⟩ else declared
  addInherited inherited c.superclass? own

/-- The interfaces a class implements.  `open_` are the classes whose interfaces are being
collected. -/
def interfacesFrom (cp : ClassPath) (open_ : List String) (d : String) : Query Interfaces :=
  fun m =>
    match m.interfaces.lookup d with
    | some known => .ok known m
    | none =>
      if _hopen : d ∈ open_ then .error (.cycle d) m
      else
        match _hdef : cp.def? d with
        | none => .error (.unresolvedClass d) m
        | some c =>
          match collectInterfaces cp (fun name => interfacesFrom cp (d :: open_) name) d c m with
          | .ok found m => .ok found (m.addInterfaces d found)
          | .error e m => .error e m
termination_by cp.unmet open_
decreasing_by exact unmet_cons_lt _hdef _hopen

/-- The interfaces a class implements. -/
def interfacesOf (cp : ClassPath) (d : String) : Query Interfaces := cp.interfacesFrom [] d

/-- The definitions of the interfaces a class declares, and of those they extend, when `interfaces`
answers for the interfaces of a class. -/
def directAmong {σ : Type} (cp : ClassPath) (interfaces : String → Asking σ Interfaces)
    (d : String) : Asking σ (List ClassDef) := do
  let i ← interfaces d
  if i.resolved then
    return (i.entries.filter Implemented.direct).filterMap fun e => cp.def? e.name
  else throw (.interfacesNotResolved d)

/-- The definitions of the interfaces a class declares, and of those they extend. -/
abbrev directInterfaces (cp : ClassPath) (d : String) : Query (List ClassDef) :=
  cp.directAmong cp.interfacesOf d

/-- Whether a class implements an interface. -/
def classImplements (cp : ClassPath) (d iface : String) : Query Bool := do
  let i ← cp.interfacesOf d
  if i.contains iface then return true
  else if i.resolved then return false
  else throw (.interfacesNotResolved d)

/-- Whether arrays implement an interface. -/
def arrayImplements (iface : String) : Bool :=
  iface == cloneableClass || iface == serializableClass

/-- Whether a node implements an interface. -/
def implements (cp : ClassPath) (n : TypeNode) (iface : String) : Query Bool :=
  match n with
  | .cls d => cp.classImplements d iface
  | .array _ _ => pure (arrayImplements iface)
  | .primitive _ | .unknown => pure false

end Dalvik.ClassPath
