import Dalvik.AnalysisError

/-!
# Accessors of fields

An odexed access to a field only tells narrow, wide and object values apart.  The standard
access has a variant per primitive type.  Once the field is known its type selects the variant,
and must go with the width of the odexed access.
-/

namespace Dalvik

/-- The variant of an access to a field of a type. -/
def Access.ofTy : Ty → Access
  | .boolean => .boolean
  | .byte => .byte
  | .short => .short
  | .char => .char
  | .long | .double => .wide
  | .cls _ | .array _ _ => .object
  | .void | .int | .float => .word

/-- The width of a value of a type. -/
def Width.ofTy? : Ty → Option Width
  | .void => none
  | .long | .double => some .wide
  | .cls _ | .array _ _ => some .object
  | .boolean | .byte | .short | .char | .int | .float => some .narrow

namespace Instr

/-- The width of an odexed access, and the standard access to a field in its place. -/
def odexedAccess? : Instr → Option (Width × (FieldRef → Instr))
  | .instanceVolatile dir w value object _ | .instanceQuick dir w value object _ =>
    some (w, fun f => .instanceAccess dir (.ofTy f.ty) value object f)
  | .staticVolatile dir w value _ => some (w, fun f => .staticAccess dir (.ofTy f.ty) value f)
  | _ => none

/-- The standard access in the place of an odexed one, once its field is known. -/
def accessField (i : Instr) (f : FieldRef) : Except AnalysisError Instr :=
  match i.odexedAccess? with
  | none => .error (.notOdexedFieldAccess i.mnemonic)
  | some (w, standard) =>
    if Width.ofTy? f.ty = some w then .ok (standard f)
    else .error (.incorrectFieldType f.ty i.mnemonic)

/-- The field of a volatile access, which still names it. -/
def volatileField? : Instr → Option FieldRef
  | .instanceVolatile _ _ _ _ f | .staticVolatile _ _ _ f => some f
  | _ => none

/-- The standard access in the place of a volatile one. -/
def accessVolatile (i : Instr) : Except AnalysisError Instr :=
  match i.volatileField? with
  | some f => i.accessField f
  | none => .error (.notOdexedFieldAccess i.mnemonic)

end Instr

end Dalvik
