/-!
# Types

A type is `void`, one of eight primitive types, an array or a class.  Its *descriptor* is the
text that names it everywhere in a class file: one letter for `void` and the primitives, one
bracket per dimension before the element of an array, `L` and `;` around the internal name of a
class.

An array counts its dimensions over an element.  Descriptors only name arrays whose element is
neither an array nor `void` (`Ty.Canonical`), but a type may be built that is not of this form.
`Ty.flat` takes the dimensions of nested arrays together, as their descriptor does.
-/

namespace Dalvik

/-- A type of a value, or `void` for the result of a method without one. -/
inductive Ty where
  | void
  | boolean
  | byte
  | short
  | char
  | int
  | long
  | float
  | double
  /-- An array of a number of dimensions over an element type. -/
  | array (dims : Nat) (elem : Ty)
  /-- A class by its internal name, packages separated by `/`. -/
  | cls (name : String)
  deriving DecidableEq, Repr, Inhabited

namespace Ty

/-- The most dimensions a descriptor can give an array. -/
def maxDims : Nat := 255

/-- The array type with further dimensions over a type.  Dimensions of an array add up. -/
def arrayOf : Ty → Nat → Ty
  | .array n elem, dims => .array (n + dims) elem
  | t, 0 => t
  | t, dims => .array dims t

/-- The number of dimensions of an array type, those of its element included. -/
def dims : Ty → Nat
  | .array n elem => n + elem.dims
  | _ => 0

/-- What the dimensions of a type are over.  It is no array. -/
def element : Ty → Ty
  | .array _ elem => elem.element
  | t => t

/-- The type of the same descriptor in which no array is over another and all arrays have a
dimension. -/
def flat (t : Ty) : Ty := t.element.arrayOf t.dims

/-- The element of a type is no array. -/
theorem dims_element (t : Ty) : t.element.dims = 0 := by
  induction t with
  | array n elem ih => exact ih
  | _ => rfl

theorem element_element (t : Ty) : t.element.element = t.element := by
  induction t with
  | array n elem ih => exact ih
  | _ => rfl

/-- An array of arrays has the dimensions of both. -/
theorem dims_arrayOf (t : Ty) (n : Nat) : (t.arrayOf n).dims = t.dims + n := by
  cases t with
  | array m elem => exact Nat.add_right_comm m n elem.dims
  | _ => cases n <;> simp [arrayOf, dims]

theorem element_arrayOf (t : Ty) (n : Nat) : (t.arrayOf n).element = t.element := by
  cases t with
  | array m elem => rfl
  | _ => cases n <;> rfl

/-- A flat type stays as it is. -/
theorem flat_flat (t : Ty) : t.flat.flat = t.flat := by
  simp only [flat, dims_arrayOf, element_arrayOf, dims_element, element_element, Nat.zero_add]

/-- Whether values take a pair of registers. -/
def isWide : Ty → Bool
  | .long | .double => true
  | _ => false

/-- Whether values are references. -/
def isReference : Ty → Bool
  | .cls _ | .array _ _ => true
  | _ => false

/-- Whether values are numbers or booleans. -/
def isPrimitive (t : Ty) : Bool := !t.isReference && t != .void

/-- The number of registers a value takes. -/
def registerCount : Ty → Nat
  | .void => 0
  | .long | .double => 2
  | _ => 1

/-- The descriptor of a type, as characters. -/
def chars : Ty → List Char
  | .void => ['V']
  | .boolean => ['Z']
  | .byte => ['B']
  | .short => ['S']
  | .char => ['C']
  | .int => ['I']
  | .long => ['J']
  | .float => ['F']
  | .double => ['D']
  | .array dims elem => List.replicate dims '[' ++ elem.chars
  | .cls name => 'L' :: name.toList ++ [';']

/-- The descriptor of a type. -/
def descriptor (t : Ty) : String := String.ofList t.chars

instance : ToString Ty := ⟨descriptor⟩

/-- The type as Java source writes it. -/
def javaName : Ty → String
  | .void => "void"
  | .boolean => "boolean"
  | .byte => "byte"
  | .short => "short"
  | .char => "char"
  | .int => "int"
  | .long => "long"
  | .float => "float"
  | .double => "double"
  | .array dims elem => elem.javaName ++ String.join (List.replicate dims "[]")
  | .cls name => name.map fun c => if c == '/' then '.' else c

/-- The types that a descriptor can name: arrays have 1 to `maxDims` dimensions over an element
that is neither an array nor `void`, and class names are not empty. -/
def Canonical : Ty → Prop
  | .array dims elem =>
    1 ≤ dims ∧ dims ≤ maxDims ∧ elem ≠ .void ∧ (∀ n e, elem ≠ .array n e) ∧ elem ≠ .cls ""
  | .cls name => name ≠ ""
  | _ => True

end Ty

end Dalvik
