import Dalvik.ClassPath.Join
import Dalvik.RegType.Category

/-!
# Register types

A register type is a category, with a class for references.  A new object also carries the
index of the instruction that made it, so that objects of one class made at two places stay
apart.

`RegType.join` follows the join of categories.  Two references join to their common superclass,
which is a question to the class path.
-/

namespace Dalvik

/-- What is known of the value in a register. -/
inductive RegType where
  | unknown
  | uninit
  | narrow (n : Narrow)
  | half (h : WideHalf)
  /-- The object made by the instruction at an index, before its constructor call. -/
  | uninitRef (node : TypeNode) (site : Nat)
  /-- The receiver of a constructor, before the constructor call of its superclass. -/
  | uninitThis (node : TypeNode)
  | reference (node : TypeNode)
  | conflicted
  deriving DecidableEq, Repr

namespace RegType

/-- The category of a register type. -/
def category : RegType → Category
  | .unknown => .unknown
  | .uninit => .uninit
  | .narrow n => .narrow n
  | .half h => .half h
  | .uninitRef _ _ => .uninitRef
  | .uninitThis _ => .uninitThis
  | .reference _ => .reference
  | .conflicted => .conflicted

/-- The class of a reference. -/
def node? : RegType → Option TypeNode
  | .uninitRef n _ | .uninitThis n | .reference n => some n
  | _ => none

/-- The index of the instruction that made an object without constructor call. -/
def site? : RegType → Option Nat
  | .uninitRef _ site => some site
  | _ => none

/-- The number of dimensions of the array in a register. -/
def dims (t : RegType) : Nat := (t.node?.map TypeNode.dims).getD 0

/-- The register type of a category that carries no class. -/
def ofCategory? : Category → Option RegType
  | .unknown => some .unknown
  | .uninit => some .uninit
  | .narrow n => some (.narrow n)
  | .half h => some (.half h)
  | .conflicted => some .conflicted
  | .uninitRef | .uninitThis | .reference => none

/-- The written form of a register type. -/
def text (t : RegType) : String :=
  match t.node? with
  | some n => "(" ++ t.category.name ++ "," ++ n.descriptor ++ ")"
  | none => "(" ++ t.category.name ++ ")"

/-- The register type of a value of a type.  That of a wide value is its first half. -/
def ofTy (t : Ty) : Except HierarchyError RegType :=
  match t with
  | .boolean => .ok (.narrow .boolean)
  | .byte => .ok (.narrow .byte)
  | .short => .ok (.narrow .short)
  | .char => .ok (.narrow .char)
  | .int => .ok (.narrow .integer)
  | .float => .ok (.narrow .float)
  | .long => .ok (.half .longLo)
  | .double => .ok (.half .doubleLo)
  | .cls _ | .array _ _ => (TypeNode.ofTy t).map .reference
  | .void => .error (.invalidType t.descriptor)

/-- The register type of a value whose type is given by its descriptor. -/
def ofDescriptor (d : String) : Except HierarchyError RegType :=
  match Ty.ofChars? d.toList with
  | some t => ofTy t
  | none => .error (.invalidType d)

/-- The type of the register after one that holds the first half of a wide value. -/
def high? : RegType → Option RegType
  | .half h => h.high?.map .half
  | _ => none

/-- Whether the value may stand where an object is expected. -/
def isObjectLike : RegType → Bool
  | .narrow .null | .uninitRef _ _ | .uninitThis _ | .reference _ => true
  | _ => false

/-- What is known of a value that comes from either of two places. -/
def join (cp : ClassPath) (a b : RegType) : Query RegType :=
  if a = b then pure a
  else
    match a.category.join b.category with
    | .reference =>
      match a.node?, b.node? with
      | some p, some q => do return .reference (← cp.commonSuperclass p q)
      | some p, none => pure (.reference p)
      | none, some q => pure (.reference q)
      | none, none => pure (.reference .unknown)
    | .uninitRef | .uninitThis => pure (if a = .unknown then b else a)
    | c => pure ((ofCategory? c).getD .conflicted)

end RegType

end Dalvik
