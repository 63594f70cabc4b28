import Dalvik.ClassDef
import Dalvik.Remaining

/-!
# The class path

A class path is every class definition that is known.  Types are looked up by descriptor, and
the first definition of a class wins.  Classes may be missing, so an answer about a class can be
that it is not known.  The members of a definition have the types that their descriptors name,
so members of different types have different descriptors (`ClassPath.flat`).

A *type node* is what a descriptor stands for in the hierarchy: a primitive type, an array, a
class, or the unknown class, which takes the place of what a missing definition hides.  The
*superclass chain* of a node follows declared superclasses up to a class without one.  It ends
with the unknown class when a class on the way is not defined.

The walk up the chain keeps the descriptors it has met and stops at the first repetition.  Each
step from a defined class meets one definition more, which bounds the walk
(`ClassPath.unmet_cons_lt`).
-/

namespace Dalvik

/-! ## Failed questions -/

/-- Why a question about the hierarchy has no answer. -/
inductive HierarchyError where
  /-- A class is not defined. -/
  | unresolvedClass (descriptor : String)
  /-- Some interface of a class is not known. -/
  | interfacesNotResolved (descriptor : String)
  /-- The answer needs itself. -/
  | cycle (subject : String)
  /-- A descriptor names no type of the kind needed. -/
  | invalidType (descriptor : String)
  /-- A primitive type was compared with a class. -/
  | noCommonSuperclass (descriptor : String)
  deriving DecidableEq, Repr

namespace HierarchyError

/-- Whether the failure means that the answer is not known, and not that something is
malformed. -/
def isUnresolved : HierarchyError → Bool
  | .unresolvedClass _ | .interfacesNotResolved _ | .cycle _ => true
  | .invalidType _ | .noCommonSuperclass _ => false

/-- The wording of a failure. -/
def message : HierarchyError → String
  | .unresolvedClass d => "Could not resolve class " ++ d
  | .interfacesNotResolved d => "Interfaces for class " ++ d ++ " not fully resolved"
  | .cycle subject => "Cyclic class hierarchy while computing " ++ subject
  | .invalidType d => "Invalid type: " ++ d
  | .noCommonSuperclass d => "Cannot compute a common superclass for primitive type " ++ d

end HierarchyError

/-! ## Nodes -/

/-- The descriptor of the root class. -/
def objectClass : String := "Ljava/lang/Object;"

/-- The descriptor of the class above everything that is not known. -/
def unknownClass : String := "Ujava/lang/Object;"

/-- The descriptors without a hierarchy: the primitive types, and a lone `L`. -/
def primitiveDescriptors : List String := ["Z", "B", "S", "C", "I", "J", "F", "D", "L"]

/-- What a descriptor stands for in the hierarchy. -/
inductive TypeNode where
  | primitive (descriptor : String)
  | unknown
  /-- An array, by its dimensions and the descriptor of its element. -/
  | array (dims : Nat) (element : String)
  | cls (descriptor : String)
  deriving DecidableEq, Repr

namespace TypeNode

/-- The descriptor of an array. -/
def arrayDescriptor (dims : Nat) (element : String) : String :=
  String.ofList (List.replicate dims '[' ++ element.toList)

/-- The descriptor of a node. -/
def descriptor : TypeNode → String
  | .primitive d => d
  | .unknown => unknownClass
  | .array dims element => arrayDescriptor dims element
  | .cls d => d

/-- The number of dimensions of an array. -/
def dims : TypeNode → Nat
  | .array dims _ => dims
  | .primitive _ | .unknown | .cls _ => 0

/-- The array of a number of dimensions over a node.  Arrays over an array are one array with the
dimensions of both. -/
def arrayOf (dims : Nat) : TypeNode → TypeNode
  | .array n element => .array (dims + n) element
  | n => .array dims n.descriptor

/-- The node of a descriptor.  The element of an array may be anything that is not empty. -/
def ofDescriptor (d : String) : Except HierarchyError TypeNode :=
  if d = unknownClass then .ok .unknown
  else if primitiveDescriptors.contains d then .ok (.primitive d)
  else
    match Ty.splitBrackets d.toList with
    | (0, elem) => if (Ty.className? elem).isSome then .ok (.cls d) else .error (.invalidType d)
    | (_, []) => .error (.invalidType d)
    | (dims, elem) => .ok (.array dims (String.ofList elem))

/-- The node of a type. -/
def ofTy (t : Ty) : Except HierarchyError TypeNode := ofDescriptor t.descriptor

end TypeNode

/-! ## Definitions -/

/-- The API level from which overriding asks whether the overridden method is visible. -/
def packageCheckLevel : Nat := 17

/-- The API level assumed when none is given. -/
def defaultLevel : Nat := 15

/-- The known classes, and the rules of the device they run on. -/
structure ClassPath where
  /-- The API level. -/
  level : Nat
  /-- Whether a method that only its package sees is overridden from there only. -/
  checksPackages : Bool
  /-- The definitions by descriptor.  The first of a descriptor wins. -/
  defs : List (String × ClassDef)
  /-- Members have the types that descriptors name. -/
  flat : ∀ e ∈ defs, e.2.flat = e.2
  deriving Repr

namespace ClassPath

/-- The definition of a class. -/
def def? (cp : ClassPath) (d : String) : Option ClassDef := cp.defs.lookup d

/-- The definition of a class, or the failure that there is none. -/
def classDef (cp : ClassPath) (d : String) : Except HierarchyError ClassDef :=
  match cp.def? d with
  | some c => .ok c
  | none => .error (.unresolvedClass d)

/-- The descriptors of all definitions, each once. -/
def descriptors (cp : ClassPath) : List String := (cp.defs.map Prod.fst).eraseDups

/-- The most dimensions of an array that is declared as a superclass. -/
def depth (cp : ClassPath) : Nat :=
  cp.defs.foldr (fun d n => max ((d.2.superclass?.map Ty.dims).getD 0) n) 0

/-- Whether a node is an interface. -/
def isInterface (cp : ClassPath) : TypeNode → Except HierarchyError Bool
  | .cls d => (cp.classDef d).map ClassDef.isInterface
  | _ => .ok false

/-- The declared superclass of a node.  That of an array is the root class. -/
def superclass? (cp : ClassPath) : TypeNode → Except HierarchyError (Option String)
  | .cls d => (cp.classDef d).map fun c => c.superclass?.map Ty.descriptor
  | .array _ _ => .ok (some objectClass)
  | .primitive _ | .unknown => .ok none

/-! ## Bounded walks -/

/-- The number of definitions whose descriptors are not among those met. -/
def unmet (cp : ClassPath) (met : List String) : Nat := remaining (cp.defs.map Prod.fst) met

/-- Meeting one more descriptor leaves no more definitions. -/
theorem unmet_cons_le (cp : ClassPath) (d : String) (met : List String) :
    cp.unmet (d :: met) ≤ cp.unmet met :=
  remaining_cons_le _ _ _

/-- A definition that is found is one of the class path. -/
theorem mem_of_def? {cp : ClassPath} {d : String} {c : ClassDef} (h : cp.def? d = some c) :
    (d, c) ∈ cp.defs := by
  obtain ⟨before, rest, hdefs, _⟩ := List.lookup_eq_some_iff.1 h
  exact hdefs ▸ List.mem_append_right before List.mem_cons_self

/-- The descriptor of a defined class is among those of the definitions. -/
theorem mem_defs_of_def? {cp : ClassPath} {d : String} {c : ClassDef}
    (h : cp.def? d = some c) : d ∈ cp.defs.map Prod.fst :=
  List.mem_map.2 ⟨(d, c), mem_of_def? h, rfl⟩

/-- A definition that is found is flat. -/
theorem flat_of_def? {cp : ClassPath} {d : String} {c : ClassDef} (h : cp.def? d = some c) :
    c.flat = c :=
  cp.flat (d, c) (mem_of_def? h)

/-- Meeting a defined class for the first time leaves fewer definitions. -/
theorem unmet_cons_lt {cp : ClassPath} {d : String} {c : ClassDef} {met : List String}
    (hdef : cp.def? d = some c) (hmet : d ∉ met) : cp.unmet (d :: met) < cp.unmet met :=
  remaining_cons_lt (mem_defs_of_def? hdef) hmet

/-! ## Superclass chains -/

/-- The node above a node: its declared superclass, or the unknown class above a class that is
not defined. -/
def parent? (cp : ClassPath) : TypeNode → Except HierarchyError (Option TypeNode)
  | .primitive _ | .unknown => .ok none
  | .array _ _ => .ok (some (.cls objectClass))
  | .cls d =>
    match cp.def? d with
    | none => .ok (some .unknown)
    | some c =>
      match c.superclass? with
      | none => .ok none
      | some s => (TypeNode.ofTy s).map some

/-- How far a node is from the defined classes: an array is below the root class, which may be
missing, and a missing class is below the unknown class. -/
def distance (cp : ClassPath) : TypeNode → Nat
  | .array _ _ => 2
  | .cls d => if (cp.def? d).isNone then 1 else 0
  | .primitive _ | .unknown => 0

/-- No node is more than two steps from the defined classes. -/
theorem distance_le (cp : ClassPath) (n : TypeNode) : cp.distance n ≤ 2 := by
  cases n with
  | primitive d => exact Nat.zero_le 2
  | unknown => exact Nat.zero_le 2
  | array dims elem => exact Nat.le_refl 2
  | cls d =>
    simp only [distance]
    split <;> omega

/-- A step up from a node that was not met before comes closer to the end of the walk. -/
theorem parent?_decreases {cp : ClassPath} {n m : TypeNode} {met : List String}
    (h : cp.parent? n = .ok (some m)) (hmet : n.descriptor ∉ met) :
    3 * cp.unmet (n.descriptor :: met) + cp.distance m < 3 * cp.unmet met + cp.distance n := by
  have hle := cp.unmet_cons_le n.descriptor met
  have hm := cp.distance_le m
  match n with
  | .primitive d => simp [parent?] at h
  | .unknown => simp [parent?] at h
  | .array dims elem =>
    simp only [parent?, Except.ok.injEq, Option.some.injEq] at h
    subst h
    have : cp.distance (.cls objectClass) ≤ 1 := by
      simp only [distance]
      split <;> omega
    simp only [distance] at this ⊢
    omega
  | .cls d =>
    cases hd : cp.def? d with
    | none =>
      simp only [parent?, hd, Except.ok.injEq, Option.some.injEq] at h
      subst h
      simp only [distance, hd, Option.isNone_none, if_true]
      omega
    | some c =>
      have := unmet_cons_lt hd hmet
      simp only [distance, TypeNode.descriptor] at *
      omega

/-- The nodes from a node upwards, itself included, when those below it are given.  `origin` is
the node the walk started from. -/
def walkUp (cp : ClassPath) (origin : String) (met : List String) (n : TypeNode) :
    Except HierarchyError (List TypeNode) :=
  if _hmet : n.descriptor ∈ met then .error (.cycle ("superclass chain of " ++ origin))
  else
    match _hp : cp.parent? n with
    | .error e => .error e
    | .ok none => .ok [n]
    | .ok (some m) =>
      match walkUp cp origin (n.descriptor :: met) m with
      | .error e => .error e
      | .ok chain => .ok (n :: chain)
termination_by 3 * cp.unmet met + cp.distance n
decreasing_by exact parent?_decreases _hp _hmet

/-- The superclasses of a node, nearest first. -/
def superclassChain (cp : ClassPath) (n : TypeNode) : Except HierarchyError (List TypeNode) :=
  (cp.walkUp n.descriptor [] n).map List.tail

end ClassPath

end Dalvik
