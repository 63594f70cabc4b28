import Dalvik.ClassPath.Basic

/-!
# Core classes

A few classes are defined even if no one gives them: the root class with its methods, the
classes of classes, strings and exceptions, and the two interfaces of arrays.  They come after
all others, so a given definition replaces them.
-/

namespace Dalvik

/-- The interface of objects that can be copied. -/
def cloneableClass : String := "Ljava/lang/Cloneable;"

/-- The interface of objects that can be written. -/
def serializableClass : String := "Ljava/io/Serializable;"

/-- The class of strings. -/
def stringClass : String := "Ljava/lang/String;"

/-- The class of classes. -/
def classClass : String := "Ljava/lang/Class;"

/-- The class of exceptions. -/
def throwableClass : String := "Ljava/lang/Throwable;"

namespace CoreClasses

/-- The type of the root class. -/
def objectTy : Ty := .cls "java/lang/Object"

/-- The type of the interface of objects that can be written. -/
def serializableTy : Ty := .cls "java/io/Serializable"

/-- A method of the root class. -/
def method (name : String) (params : List Ty) (result : Ty) (flags : List Flag) : MethodDef :=
  ⟨name, params, result, .ofList flags, none⟩

/-- The root class. -/
def object : ClassDef where
  ty := objectTy
  flags := .ofList [.pub]
  methods :=
    [method "<init>" [] .void [.pub, .constructor],
      method "clone" [] objectTy [.prot, .native],
      method "equals" [objectTy] .boolean [.pub],
      method "finalize" [] .void [.prot],
      method "getClass" [] (.cls "java/lang/Class") [.pub, .final, .native],
      method "hashCode" [] .int [.pub, .native],
      method "notify" [] .void [.pub, .final, .native],
      method "notifyAll" [] .void [.pub, .final, .native],
      method "toString" [] (.cls "java/lang/String") [.pub],
      method "wait" [] .void [.pub, .final, .native],
      method "wait" [.long] .void [.pub, .final, .native],
      method "wait" [.long, .int] .void [.pub, .final, .native]]

/-- A class that can be written, right below the root class. -/
def serializable (name : String) (flags : List Flag) : ClassDef where
  ty := .cls name
  flags := .ofList flags
  superclass? := some objectTy
  interfaces := [serializableTy]

/-- An interface without superclass. -/
def interface (ty : Ty) : ClassDef where
  ty := ty
  flags := .ofList [.pub, .interface, .abstract]

/-- The definitions used where none is given. -/
def all : List ClassDef :=
  [object,
    serializable "java/lang/Class" [.pub, .final],
    serializable "java/lang/String" [.pub, .final],
    serializable "java/lang/Throwable" [.pub],
    interface (.cls "java/lang/Cloneable"),
    interface serializableTy]

end CoreClasses

namespace ClassPath

/-- The class path of some definitions, in order of precedence, for an API level. -/
def ofClasses (classes : List ClassDef) (level : Nat) : ClassPath where
  level := level
  checksPackages := decide (packageCheckLevel ≤ level)
  defs := (classes ++ CoreClasses.all).map fun c => (c.descriptor, c.flat)
  flat := by
    intro e he
    obtain ⟨c, _, rfl⟩ := List.mem_map.1 he
    exact c.flat_flat

/-- The same class path with the check of packages chosen apart from the level. -/
def withPackageCheck (cp : ClassPath) (check : Bool) : ClassPath :=
  { cp with checksPackages := check }

end ClassPath

end Dalvik
