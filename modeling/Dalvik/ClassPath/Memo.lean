import Dalvik.ClassPath.Core

/-!
# Remembered answers

Three answers about a class are costly: the interfaces it implements, its vtable and the layout
of its objects.  Each is computed from the answers for the classes above it, and each is
remembered once it is found.  A failure is not remembered.

The answers found so far are a `Memo`.  A `Query` is a question that reads and extends it, and
that keeps what it found even if it fails in the end.  How an answer is put together from those for
the classes above does not depend on how these are remembered, so that is said of any memory
(`Asking`).  In a cyclic hierarchy an answer can
depend on the class the question started from, so what is remembered can change a later answer.
-/

namespace Dalvik

/-! ## Answers -/

/-- An interface a class implements. -/
structure Implemented where
  /-- The descriptor of the interface. -/
  name : String
  /-- Whether it is defined and comes from the declared interfaces, and not from the
  superclass. -/
  direct : Bool
  deriving DecidableEq, Repr

/-- The interfaces a class implements. -/
structure Interfaces where
  /-- The interfaces, in the order they were found. -/
  entries : List Implemented
  /-- Whether there can be no others. -/
  resolved : Bool
  deriving DecidableEq, Repr

namespace Interfaces

/-- The descriptors of the interfaces. -/
def names (i : Interfaces) : List String := i.entries.map Implemented.name

/-- Whether an interface is among those found. -/
def contains (i : Interfaces) (name : String) : Bool := i.names.contains name

/-- Adds an interface, unless it was found before. -/
def insert (i : Interfaces) (e : Implemented) : Interfaces :=
  if i.contains e.name then i else { i with entries := i.entries ++ [e] }

/-- The same interfaces, with others possible. -/
def unresolved (i : Interfaces) : Interfaces := { i with resolved := false }

/-- Adds the interfaces found for an interface. -/
def absorb (i other : Interfaces) : Interfaces :=
  let all := other.entries.foldl insert i
  { all with resolved := i.resolved && other.resolved }

/-- Adds the interfaces found for the superclass. -/
def inherit (i other : Interfaces) : Interfaces :=
  i.absorb { other with entries := other.entries.map fun e => ⟨e.name, false⟩ }

end Interfaces

/-- A place in a vtable. -/
structure Slot where
  /-- The method a call through this place reaches. -/
  method : MethodRef
  /-- The flags of the method. -/
  flags : Flags .method
  deriving DecidableEq, Repr

/-- The written form of a slot. -/
def Slot.text (s : Slot) : String := s.flags.text ++ s.method.text

/-- The virtual methods of a class, by index. -/
structure Vtable where
  /-- The slots, in order of index. -/
  slots : List Slot
  /-- Whether every class above is known.  If not, the methods of the class itself have no
  slot. -/
  resolved : Bool
  deriving DecidableEq, Repr

/-- A field at its place in an object. -/
structure Placed where
  /-- The offset in bytes. -/
  offset : Nat
  /-- The field. -/
  field : FieldRef
  deriving DecidableEq, Repr

/-- The number of bytes of a field. -/
def Placed.size (p : Placed) : Nat := if p.field.ty.isWide then 8 else 4

/-- The fields of the objects of a class, by increasing offset. -/
structure Layout where
  /-- The fields, those of the superclass first. -/
  fields : List Placed
  deriving DecidableEq, Repr

namespace Layout

/-- The number of bytes before the first field. -/
def header : Nat := 8

/-- The field at an offset. -/
def fieldAt? (l : Layout) (offset : Nat) : Option FieldRef :=
  (l.fields.find? fun p => p.offset == offset).map Placed.field

/-- The offset after the last field. -/
def next (l : Layout) : Nat :=
  match l.fields.getLast? with
  | some p => p.offset + p.size
  | none => header

end Layout

/-! ## The memo -/

/-- The answers found so far, by descriptor. -/
structure Memo where
  /-- Interfaces of classes. -/
  interfaces : List (String × Interfaces) := []
  /-- Vtables of classes. -/
  vtables : List (String × Vtable) := []
  /-- Layouts of classes. -/
  layouts : List (String × Layout) := []
  deriving Repr

namespace Memo

/-- No answer yet. -/
def empty : Memo := {}

/-- Remembers the interfaces of a class. -/
def addInterfaces (m : Memo) (d : String) (i : Interfaces) : Memo :=
  { m with interfaces := (d, i) :: m.interfaces }

/-- Remembers the vtable of a class. -/
def addVtable (m : Memo) (d : String) (v : Vtable) : Memo :=
  { m with vtables := (d, v) :: m.vtables }

/-- Remembers the layout of a class. -/
def addLayout (m : Memo) (d : String) (l : Layout) : Memo :=
  { m with layouts := (d, l) :: m.layouts }

end Memo

/-- A question about the hierarchy that is asked with some memory. -/
abbrev Asking (σ : Type) := EStateM HierarchyError σ

namespace Asking

variable {σ α : Type}

/-- A question that needs no memory. -/
def lift (r : Except HierarchyError α) : Asking σ α := fun m =>
  match r with
  | .ok a => .ok a m
  | .error e => .error e m

/-- Asks, and takes a failure for an answer. -/
def attempt (q : Asking σ α) : Asking σ (Except HierarchyError α) := fun m =>
  match q m with
  | .ok a m => .ok (.ok a) m
  | .error e m => .ok (.error e) m

end Asking

/-- A question about the hierarchy that is asked with the answers found so far. -/
abbrev Query := Asking Memo

end Dalvik
