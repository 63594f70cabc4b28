import Dalvik.FlowGraph.Basic
import Dalvik.RegType.Basic

/-!
# Failed analyses

Why the analysis of a method fails.  A fault that arises at an instruction is wrapped with the
place where it arose.
-/

namespace Dalvik

/-- What is wrong with the array of an access. -/
inductive ArrayFault where
  | notAnArray
  | multiDimensional
  | narrowElement
  deriving DecidableEq, Repr

/-- The wording of what is wrong with an array. -/
def ArrayFault.text : ArrayFault → String
  | .notAnArray => "non-array register"
  | .multiDimensional => "multi-dimensional array"
  | .narrowElement => "narrow array"

/-- A member of a class, field or method. -/
inductive Member where
  | field (f : FieldRef)
  | method (m : MethodRef)
  deriving DecidableEq, Repr

/-- The written form of a member. -/
def Member.text : Member → String
  | .field f => "field " ++ f.text
  | .method m => "method " ++ m.text

/-- Why an analysis fails. -/
inductive AnalysisError where
  /-- Model data is malformed. -/
  | model (e : ModelError)
  /-- The hierarchy has no answer. -/
  | hierarchy (e : HierarchyError)
  /-- The flow of the body is malformed. -/
  | flow (e : FlowError)
  /-- No result stands before an instruction that fetches one. -/
  | moveResultPosition (mnemonic : String)
  /-- No handler starts at an instruction that fetches an exception. -/
  | moveExceptionNotHandler
  /-- A register holds a value of the wrong category. -/
  | invalidRegisterType (ty : RegType) (reg : Reg)
  /-- A register is not one of the method. -/
  | registerOutOfBounds (reg : Reg)
  /-- The parameters need more registers than there are. -/
  | parameterRegisters (params registers : Nat)
  /-- An instruction that writes no register was given a value. -/
  | noDestination (mnemonic : String)
  /-- A call has no receiver. -/
  | missingReceiver (mnemonic : String)
  /-- The second half of a wide value has no register. -/
  | widePairOutOfBounds (reg : Reg)
  /-- The type of a new array is not an array. -/
  | newArrayNotArray
  /-- An access to an array does not go with the type of its register. -/
  | notAnArray (mnemonic : String) (fault : ArrayFault) (ty : RegType)
  /-- No field is at an offset. -/
  | fieldNotResolved (descriptor : String) (offset : Nat)
  /-- No method is at a vtable index. -/
  | methodNotResolved (descriptor : String) (index : Nat)
  /-- No class that can be seen has the member. -/
  | inaccessibleDefiner (member : Member)
  /-- The type of a field does not go with the width of its access. -/
  | incorrectFieldType (ty : Ty) (mnemonic : String)
  /-- An instruction is no odexed access to a field. -/
  | notOdexedFieldAccess (mnemonic : String)
  /-- An inline table has no such index. -/
  | inlineIndex (index : Nat)
  /-- An entry of an inline table has no method with that many arguments. -/
  | inlineAmbiguous
  /-- A line of an inline table is no method. -/
  | invalidInlineDescriptor (line : String)
  /-- A line of an inline table names a method that is not defined. -/
  | unresolvedInline (line : String)
  /-- There is no inline table. -/
  | noInlineResolver
  /-- No inline table is known for a version. -/
  | unsupportedVersion (version : Nat)
  /-- The register types did not settle. -/
  | iterationLimit (passes : Nat)
  /-- A fault, with the place where it arose. -/
  | context (mnemonic : String) (addr : Addr) (method : String) (cause : AnalysisError)
  deriving DecidableEq, Repr

namespace AnalysisError

/-- The fault itself, without its place. -/
def root : AnalysisError → AnalysisError
  | .context _ _ _ cause => cause.root
  | e => e

/-- The wording of a fault. -/
def message : AnalysisError → String
  | .model e => "dex error: " ++ e.message
  | .hierarchy e => e.message
  | .flow e => e.message
  | .moveResultPosition name =>
    name ++ " must occur after an invoke-*/fill-new-array instruction"
  | .moveExceptionNotHandler =>
    "move-exception must be the first instruction in an exception handler block"
  | .invalidRegisterType ty reg =>
    "Invalid register type " ++ ty.text ++ " for register " ++ reg.text ++ "."
  | .registerOutOfBounds reg => "register " ++ reg.text ++ " is out of bounds"
  | .parameterRegisters params registers =>
    s!"the method takes {params} parameter registers but only has {registers} registers"
  | .noDestination name => name ++ " does not set a register"
  | .missingReceiver name => name ++ " has no receiver register"
  | .widePairOutOfBounds reg =>
    reg.text ++ " cannot be used as the first register in a wide register pair because it is " ++
      "the last register."
  | .newArrayNotArray => "new-array used with non-array type"
  | .notAnArray name fault ty => name ++ " used with " ++ fault.text ++ ": " ++ ty.text
  | .fieldNotResolved d offset =>
    "Could not resolve the field in class " ++ d ++ " at offset " ++ toString offset
  | .methodNotResolved d index =>
    "Could not resolve the method in class " ++ d ++ " at index " ++ toString index
  | .inaccessibleDefiner member =>
    "Couldn't find accessible class while resolving " ++ member.text
  | .incorrectFieldType ty name =>
    "Incorrect field type \"" ++ ty.descriptor ++ "\" for " ++ name
  | .notOdexedFieldAccess name => "Not an odexed field access opcode: " ++ name
  | .inlineIndex index => s!"Invalid method index: {index}"
  | .inlineAmbiguous => "Could not determine the correct inline method to use"
  | .invalidInlineDescriptor line => "Invalid method descriptor: " ++ line
  | .unresolvedInline line => "Cannot resolve inline method: " ++ line
  | .noInlineResolver => "Cannot analyze an odexed instruction unless we are deodexing"
  | .unsupportedVersion version => s!"odex version {version} is not supported yet"
  | .iterationLimit passes => s!"analysis did not reach a fixed point after {passes} passes"
  | .context name addr method cause =>
    cause.message ++ "\n    opcode: " ++ name ++ "\n    code address: " ++ addr.text ++
      "\n    method: " ++ method

end AnalysisError

end Dalvik
