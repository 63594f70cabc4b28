import Dalvik.Addr
import Dalvik.Ty

/-!
# Malformed model data

What can be wrong with a descriptor, a reference, a register list or a position in a method
body.  `ModelError.message` is the wording.
-/

namespace Dalvik

/-- What a text was read as. -/
inductive TextKind where
  | type
  | parameters
  | methodRef
  deriving DecidableEq, Repr

/-- The name of a kind of text in messages. -/
def TextKind.name : TextKind → String
  | .type => "Type"
  | .parameters => "parameters"
  | .methodRef => "MethodRef"

/-- A reason to refuse model data. -/
inductive ModelError where
  /-- A register list names more registers than an instruction can hold. -/
  | tooManyRegisters (count : Nat)
  /-- A text is not of the kind expected. -/
  | unreadable (text : String) (kind : TextKind)
  /-- A type has no class name. -/
  | notAClass (ty : Ty)
  /-- No instruction starts at an address. -/
  | noInstruction (addr : Addr)
  /-- An instruction cannot take the place of one of another size. -/
  | sizeMismatch (addr : Addr) (expected actual : Nat)
  /-- A position counted in bytes falls inside a character. -/
  | insideCharacter
  deriving DecidableEq, Repr

/-- The wording of a reason. -/
def ModelError.message : ModelError → String
  | .tooManyRegisters n =>
    s!"dex structure is invalid: register list holds {n} registers (max. 5)"
  | .unreadable text kind =>
    "could not convert &str (" ++ Text.quoted text ++ ") into " ++ kind.name
  | .notAClass ty => "invalid type: " ++ ty.descriptor
  | .noInstruction addr => "Instruction not found (address: " ++ addr.text ++ ")"
  | .sizeMismatch addr expected actual =>
    "Bad instruction size at address " ++ addr.text ++ ": expected " ++ toString expected ++
      " code units, got " ++ toString actual
  | .insideCharacter => "the cut falls inside a character"

end Dalvik
