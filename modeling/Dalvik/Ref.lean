import Dalvik.Ty.Reader

/-!
# Symbolic references

Instructions name fields and methods by the class that defines them, a name and a type.  The
reference of a method has a text form, `Lcls;->name(params)result`, which `MethodRef.parse`
reads back.
-/

namespace Dalvik

/-- A field, by name. -/
structure FieldRef where
  /-- The class that defines the field. -/
  definer : Ty
  /-- The name of the field. -/
  name : String
  /-- The type of the field. -/
  ty : Ty
  deriving DecidableEq, Repr

/-- The written form of a field reference. -/
def FieldRef.text (f : FieldRef) : String :=
  f.definer.descriptor ++ "->" ++ f.name ++ ":" ++ f.ty.descriptor

/-- A method, by name and prototype. -/
structure MethodRef where
  /-- The class that defines the method. -/
  definer : Ty
  /-- The name of the method. -/
  name : String
  /-- The types of the parameters, without the receiver. -/
  params : List Ty
  /-- The type of the result. -/
  result : Ty
  deriving DecidableEq, Repr

namespace MethodRef

/-- The prototype of a method, as characters. -/
def protoChars (m : MethodRef) : List Char :=
  '(' :: m.params.flatMap Ty.chars ++ ')' :: m.result.chars

/-- The prototype of a method: parameters between parentheses, then the result. -/
def proto (m : MethodRef) : String := String.ofList m.protoChars

/-- The written form of a method reference, as characters. -/
def chars (m : MethodRef) : List Char :=
  m.definer.chars ++ '-' :: '>' :: m.name.toList ++ m.protoChars

/-- The written form of a method reference. -/
def text (m : MethodRef) : String := String.ofList m.chars

/-- Whether two methods have the same name and prototype, so that one can override the
other. -/
def sameSignature (m n : MethodRef) : Bool :=
  m.name == n.name && m.result == n.result && m.params == n.params

/-- The number of registers the arguments take, without the receiver. -/
def paramRegisters (m : MethodRef) : Nat :=
  m.params.foldr (fun t n => t.registerCount + n) 0

/-- What stands before and after the first arrow of a text. -/
def splitArrow : List Char → Option (List Char × List Char)
  | '-' :: '>' :: rest => some ([], rest)
  | c :: rest => (splitArrow rest).map fun (before, after) => (c :: before, after)
  | [] => none

/-- What stands before and after the first occurrence of a character. -/
def splitAt (sep : Char) : List Char → Option (List Char × List Char)
  | [] => none
  | c :: rest =>
    if c = sep then some ([], rest)
    else (splitAt sep rest).map fun (before, after) => (c :: before, after)

/-- The four parts of a written method reference. -/
structure Parts where
  /-- The descriptor of the definer. -/
  definer : List Char
  /-- The name. -/
  name : List Char
  /-- The parameter list. -/
  params : List Char
  /-- The descriptor of the result. -/
  result : List Char

/-- Cuts a text at its first arrow, then at the parentheses around its parameters. -/
def parts? (cs : List Char) : Option Parts := do
  let (definer, rest) ← splitArrow cs
  let (name, rest) ← splitAt '(' rest
  let (params, result) ← splitAt ')' rest
  if name = [] then none else some ⟨definer, name, params, result⟩

/-- Reads the types of the parts of a method reference: definer, parameters, result. -/
def ofParts (p : Parts) : Except ModelError MethodRef := do
  let definer ← Ty.readChars p.definer
  let params ← Ty.readParams (String.ofList p.params)
  let result ← Ty.readChars p.result
  return ⟨definer, String.ofList p.name, params, result⟩

/-- Reads a method reference. -/
def parse (s : String) : Except ModelError MethodRef :=
  match parts? s.toList with
  | some p => ofParts p
  | none => .error (.unreadable s .methodRef)

end MethodRef

end Dalvik
