import Dalvik.Body
import Dalvik.Flags

/-!
# Class definitions

A class names its superclass and interfaces, and declares fields and methods.  A method is
*direct* when a call to it needs no look-up: static and private methods and constructors.
All other methods are virtual.
-/

namespace Dalvik

/-- A field declared by a class. -/
structure FieldDef where
  /-- The name. -/
  name : String
  /-- The type. -/
  ty : Ty
  /-- The access flags. -/
  flags : Flags .field
  deriving DecidableEq, Repr

namespace FieldDef

/-- Whether the field belongs to the class and not to its objects. -/
def isStatic (f : FieldDef) : Bool := f.flags.has .static

/-- The reference of a field of a class. -/
def ref (f : FieldDef) (definer : Ty) : FieldRef := ⟨definer, f.name, f.ty⟩

/-- The field with its type as a descriptor names it. -/
def flat (f : FieldDef) : FieldDef := { f with ty := f.ty.flat }

theorem flat_flat (f : FieldDef) : f.flat.flat = f.flat := by
  rw [flat, flat, Ty.flat_flat]

end FieldDef

/-- A method declared by a class. -/
structure MethodDef where
  /-- The name. -/
  name : String
  /-- The types of the parameters. -/
  params : List Ty
  /-- The type of the result. -/
  result : Ty
  /-- The access flags. -/
  flags : Flags .method
  /-- The code, unless the method is abstract or native. -/
  body? : Option Body := none
  deriving DecidableEq, Repr

namespace MethodDef

/-- Whether the method has no receiver. -/
def isStatic (m : MethodDef) : Bool := m.flags.has .static

/-- Whether the method initialises objects. -/
def isConstructor (m : MethodDef) : Bool := m.name == Instr.constructorName

/-- Whether a call needs no look-up. -/
def isDirect (m : MethodDef) : Bool :=
  m.flags.has .static || m.flags.has .priv || m.flags.has .constructor ||
    m.name.toList.head? == some '<'

/-- The reference of a method of a class. -/
def ref (m : MethodDef) (definer : Ty) : MethodRef := ⟨definer, m.name, m.params, m.result⟩

/-- The method with its types as a descriptor names them. -/
def flat (m : MethodDef) : MethodDef :=
  { m with params := m.params.map Ty.flat, result := m.result.flat }

theorem flat_flat (m : MethodDef) : m.flat.flat = m.flat := by
  simp only [flat, List.map_map, Function.comp_def, Ty.flat_flat]

end MethodDef

/-- The package of a class, from its descriptor: what stands between the first character and the
last slash.  The first character counts as one byte. -/
def packageOf (descriptor : String) : Except ModelError String :=
  match (descriptor.toList.reverse.dropWhile (· != '/')).tail.reverse with
  | [] => .ok ""
  | c :: package =>
    if c.utf8Size = 1 then .ok (String.ofList package) else .error .insideCharacter

/-- A class or an interface. -/
structure ClassDef where
  /-- Its type. -/
  ty : Ty
  /-- The access flags. -/
  flags : Flags .cls := .none
  /-- The superclass.  Only the root class has none. -/
  superclass? : Option Ty := none
  /-- The interfaces it implements, or extends. -/
  interfaces : List Ty := []
  /-- The fields it declares. -/
  fields : List FieldDef := []
  /-- The methods it declares. -/
  methods : List MethodDef := []
  deriving DecidableEq, Repr

namespace ClassDef

/-- The descriptor of a class. -/
def descriptor (c : ClassDef) : String := c.ty.descriptor

/-- Whether it is an interface. -/
def isInterface (c : ClassDef) : Bool := c.flags.has .interface

/-- Whether every class sees it. -/
def isPublic (c : ClassDef) : Bool := c.flags.has .pub

/-- The package of a class.  A descriptor starts with one byte. -/
def package (c : ClassDef) : String :=
  match packageOf c.descriptor with
  | .ok p => p
  | .error _ => ""

/-- The fields of its objects. -/
def instanceFields (c : ClassDef) : List FieldDef := c.fields.filter fun f => !f.isStatic

/-- The methods found by look-up. -/
def virtualMethods (c : ClassDef) : List MethodDef := c.methods.filter fun m => !m.isDirect

/-- The methods called without look-up. -/
def directMethods (c : ClassDef) : List MethodDef := c.methods.filter MethodDef.isDirect

/-- The class with the types of its members as descriptors name them. -/
def flat (c : ClassDef) : ClassDef :=
  { c with fields := c.fields.map FieldDef.flat, methods := c.methods.map MethodDef.flat }

/-- A flat definition stays as it is. -/
theorem flat_flat (c : ClassDef) : c.flat.flat = c.flat := by
  simp only [flat, List.map_map, Function.comp_def, FieldDef.flat_flat, MethodDef.flat_flat]

end ClassDef

end Dalvik
