import Dalvik.ClassPath.Interfaces
import Dalvik.Text.Order

/-!
# Vtables

The vtable of a class starts with that of its superclass.  Then come the virtual methods of the
class in the order of their signatures, and then those of its direct interfaces, which the class
is taken to implement.  A method takes the first slot of its signature that it can override, and
a new slot at the end if there is none.  On devices that check packages, a slot that only its
package sees cannot be overridden from another package.

The vtable of a class that is not defined is that of the root class, and below it nothing is
known.  The same holds below a cyclic superclass.
-/

namespace Dalvik.ClassPath

/-- What orders methods in a vtable: the name, then the result, then the parameters. -/
def signatureKey (s : Slot) : List String :=
  s.method.name :: s.method.result.descriptor :: s.method.params.map Ty.descriptor

/-- The virtual methods of a class as slots of another, in the order of their signatures. -/
def slotsOf (c : ClassDef) (definer : Ty) : List Slot :=
  let slots := c.virtualMethods.map fun m => (⟨m.ref definer, m.flags⟩ : Slot)
  slots.mergeSort fun a b => Text.listLe (signatureKey a) (signatureKey b)

/-- Who may override a slot. -/
structure Overriding where
  /-- Whether packages are checked. -/
  checksPackages : Bool
  /-- The package of the overriding class. -/
  package : String

/-- Whether a method can take a slot: the signature is the same, and the slot is visible. -/
def Overriding.allows (o : Overriding) (slot entry : Slot) : Bool :=
  slot.method.sameSignature entry.method &&
    (!o.checksPackages || !slot.flags.isPackagePrivate ||
      (match packageOf slot.method.definer.descriptor with
        | .ok p => p == o.package
        | .error _ => false))

/-- Puts a method into the first slot it can take, or at the end.  It only takes the place of the
method there if `replace` says so. -/
def place (o : Overriding) (replace : Bool) (entry : Slot) : List Slot → List Slot
  | [] => [entry]
  | slot :: rest =>
    if o.allows slot entry then (if replace then entry else slot) :: rest
    else slot :: place o replace entry rest

/-- Puts methods into a vtable one after another. -/
def placeAll (o : Overriding) (replace : Bool) (entries slots : List Slot) : List Slot :=
  entries.foldl (fun slots entry => place o replace entry slots) slots

/-- The vtable of a defined class over the slots of its superclass.  `interfaces` answers for the
interfaces of a class. -/
def extendVtable {σ : Type} (cp : ClassPath) (interfaces : String → Asking σ Interfaces)
    (d : String) (c : ClassDef) (inherited : List Slot) : Asking σ Vtable :=
  if c.isInterface then pure ⟨inherited, true⟩
  else do
    let o : Overriding := ⟨cp.checksPackages, c.package⟩
    let own := placeAll o true (slotsOf c c.ty) inherited
    let direct ← cp.directAmong interfaces d
    pure ⟨direct.foldl (fun slots i => placeAll o false (slotsOf i c.ty) slots) own, true⟩

/-- The vtable of a defined class, when that of its superclass is given. -/
def collectVtable {σ : Type} (cp : ClassPath) (interfaces : String → Asking σ Interfaces)
    (inherited : String → Asking σ Vtable) (d : String) (c : ClassDef) : Asking σ Vtable :=
  match c.superclass? with
  | none => cp.extendVtable interfaces d c []
  | some s => do
    match ← Asking.lift (TypeNode.ofTy s) with
    | .cls name =>
      match ← Asking.attempt (inherited name) with
      | .ok above =>
        if above.resolved then cp.extendVtable interfaces d c above.slots
        else pure ⟨above.slots, false⟩
      | .error (.cycle _) => pure ⟨[], false⟩
      | .error e => throw e
    | _ => throw (.invalidType s.descriptor)

/-- How far a class is from the defined classes: a missing class other than the root is one step
away. -/
def gap (cp : ClassPath) (d : String) : Nat :=
  if (cp.def? d).isNone ∧ d ≠ objectClass then 1 else 0

/-- No class is more than one step away. -/
theorem gap_le (cp : ClassPath) (d : String) : cp.gap d ≤ 1 := by
  unfold gap
  split <;> omega

/-- The vtable of a class.  `open_` are the classes whose vtables are being computed. -/
def vtableFrom (cp : ClassPath) (open_ : List String) (d : String) : Query Vtable := fun m =>
  match m.vtables.lookup d with
  | some known => .ok known m
  | none =>
    if _hopen : d ∈ open_ then .error (.cycle d) m
    else
      let answer : EStateM.Result HierarchyError Memo Vtable :=
        match _hdef : cp.def? d with
        | some c =>
          collectVtable cp cp.interfacesOf (fun name => vtableFrom cp (d :: open_) name) d c m
        | none =>
          if _hroot : d = objectClass then .error (.cycle d) m
          else
            match vtableFrom cp (d :: open_) objectClass m with
            | .ok above m => .ok ⟨above.slots, false⟩ m
            | .error e m => .error e m
      match answer with
      | .ok found m => .ok found (m.addVtable d found)
      | .error e m => .error e m
termination_by 2 * cp.unmet open_ + cp.gap d
decreasing_by
  · have := unmet_cons_lt _hdef _hopen
    have := cp.gap_le name
    omega
  · have := cp.unmet_cons_le d open_
    have : cp.gap d = 1 := by simp [gap, _hdef, _hroot]
    have : cp.gap objectClass = 0 := by simp [gap]
    omega

/-- The vtable of a class. -/
def vtableOf (cp : ClassPath) (d : String) : Query Vtable := cp.vtableFrom [] d

/-- The method at an index of the vtable of a node.  Arrays and unknown classes have that of the
root class. -/
def methodAt? (cp : ClassPath) (n : TypeNode) (index : Nat) : Query (Option Slot) :=
  let lookup (d : String) : Query (Option Slot) := do
    let v ← cp.vtableOf d
    return v.slots[index]?
  match n with
  | .cls d => lookup d
  | .array _ _ | .unknown => lookup objectClass
  | .primitive _ => pure none

end Dalvik.ClassPath
