import Dalvik.Analysis.Deodex

/-!
# Transfer

What an instruction does to the registers.  `Subject.effect` is the rule of one instruction: it
reads the types before it, and says which type is written, if any.  An instruction that fetches
a result waits until the call before it has a standard form.
-/

namespace Dalvik.Analysis

/-- What an instruction does to the registers. -/
inductive Effect where
  /-- It leaves all registers alone. -/
  | nothing
  /-- It writes a type to its destination. -/
  | write (t : RegType)
  /-- It turns the new object in a register into an object of a class. -/
  | initialise (object : Reg) (node : TypeNode)
  /-- What it does is not known yet. -/
  | waiting
  deriving DecidableEq, Repr

/-- The register type of the value an access to a part of an object reads. -/
def accessType (kind : Access) (ty : Ty) : Except HierarchyError RegType :=
  match kind with
  | .word => .ok (.narrow .integer)
  | .boolean => .ok (.narrow .boolean)
  | .byte => .ok (.narrow .byte)
  | .char => .ok (.narrow .char)
  | .short => .ok (.narrow .short)
  | .wide | .object => RegType.ofTy ty

/-- The type of the result an instruction leaves to be fetched. -/
def resultType? : Instr → Option Ty
  | .invoke _ _ m | .invokeDirectEmpty _ m | .invokeObjectInit _ m => some m.result
  | .filledNewArray _ ty => some ty
  | _ => none

/-- The type of a wide element of an array.  That of a null array is taken for a long. -/
def wideElement (mnemonic : String) (array : RegType) : Except AnalysisError RegType :=
  match array with
  | .narrow .null => .ok (.half .longLo)
  | .reference (.array dims element) =>
    if dims ≠ 1 then .error (.notAnArray mnemonic .multiDimensional array)
    else if element = "J" then .ok (.half .longLo)
    else if element = "D" then .ok (.half .doubleLo)
    else .error (.notAnArray mnemonic .narrowElement array)
  | t => .error (.notAnArray mnemonic .notAnArray t)

/-- The type of an element of an array that is an object.  A null array has null elements. -/
def objectElement (mnemonic : String) (array : RegType) : Except AnalysisError RegType :=
  match array with
  | .narrow .null => .ok (.narrow .null)
  | .reference (.array dims element) =>
    match TypeNode.ofDescriptor (TypeNode.arrayDescriptor (dims - 1) element) with
    | .ok n => .ok (.reference n)
    | .error e => .error (.hierarchy e)
  | t => .error (.notAnArray mnemonic .notAnArray t)

/-- Whether a value is zero or one. -/
def isBit : RegType → Bool
  | .narrow n => n.isBit
  | _ => false

/-- The type of a bitwise operation: bits give a bit. -/
def bitwiseType (bits : Bool) : RegType := .narrow (if bits then .boolean else .integer)

/-- Whether an operation on integers works on each bit alone. -/
def isBitwise : IntOp → Bool
  | .and | .or | .xor => true
  | _ => false

/-- The type of a number after an operation. -/
def numberType (ty : Ty) : RegType :=
  match ty with
  | .long => .half .longLo
  | .double => .half .doubleLo
  | .float => .narrow .float
  | .byte => .narrow .byte
  | .char => .narrow .char
  | .short => .narrow .short
  | _ => .narrow .integer

/-- The type of an operation on two registers. -/
def binaryType (p : Point) (op : Binary) (a b : Reg) : Except AnalysisError RegType :=
  match op with
  | .int op =>
    if isBitwise op then do
      if isBit (← p.typeBefore a) then return bitwiseType (isBit (← p.typeBefore b))
      else return bitwiseType false
    else .ok (.narrow .integer)
  | op => .ok (numberType op.result)

/-- The type of a bitwise operation with a literal. -/
def bitwiseLiteralType (p : Point) (a : Reg) (literal : Int) : Except AnalysisError RegType := do
  return bitwiseType (isBit (← p.typeBefore a) && (literal == 0 || literal == 1))

/-- The type of a right shift by a literal. -/
def shiftType (p : Point) (signed : Bool) (a : Reg) (literal : Int) :
    Except AnalysisError RegType := do
  match ← p.typeBefore a with
  | .narrow n => return .narrow (n.shiftRight signed literal)
  | t => throw (.invalidRegisterType t a)

/-- The type of an operation with a literal of sixteen bits. -/
def lit16Type (p : Point) (op : Lit16Op) (a : Reg) (literal : Int) : Except AnalysisError RegType :=
  match op with
  | .and | .or | .xor => bitwiseLiteralType p a literal
  | .add | .rsub | .mul | .div | .rem => .ok (.narrow .integer)

/-- The type of an operation with a literal of eight bits. -/
def lit8Type (p : Point) (op : Lit8Op) (a : Reg) (literal : Int) : Except AnalysisError RegType :=
  match op with
  | .and | .or | .xor => bitwiseLiteralType p a literal
  | .shr => shiftType p true a literal
  | .ushr => shiftType p false a literal
  | .add | .rsub | .mul | .div | .rem | .shl => .ok (.narrow .integer)

/-- The value of a literal, which may stand for the high half of a word. -/
def literalValue (form : ConstForm) (v : Int) : Int :=
  match form with
  | .high => v * 65536
  | .four | .sixteen | .full => v

/-- What a direct call does: a constructor call makes its receiver an object. -/
def directCall (p : Point) (args : Args) (m : MethodRef) : Except AnalysisError Effect :=
  if m.name = Instr.constructorName then
    match args.first? with
    | none => .error (.missingReceiver p.instr.mnemonic)
    | some object => do
      match ← p.typeBefore object with
      | .uninitRef n _ | .uninitThis n => return .initialise object n
      | _ => return .nothing
  else .ok .nothing

/-- What an instruction that makes an object does.  Made again, it is the same object. -/
def newObject (i : Nat) (p : Point) (dst : Reg) (ty : Ty) : Except AnalysisError Effect :=
  match p.after[dst.index]? with
  | none => .error (.registerOutOfBounds dst)
  | some .unknown =>
    match TypeNode.ofTy ty with
    | .ok n => .ok (.write (.uninitRef n i))
    | .error e => .error (.hierarchy e)
  | some _ => .ok .nothing

/-- The type of the exception that some handlers catch, joined with one found before. -/
def caughtType (cp : ClassPath) (found : RegType) : List Handler → Query RegType
  | [] => pure found
  | h :: rest =>
    match h.exception? with
    | none => do
      caughtType cp (.reference (← Asking.lift (TypeNode.ofDescriptor throwableClass))) rest
    | some ty => do
      let t := RegType.reference (← Asking.lift (TypeNode.ofTy ty))
      caughtType cp (← t.join cp found) rest

namespace Subject

/-- The type of the exception fetched at an address. -/
def exceptionType (s : Subject) (a : Addr) : Rule RegType := do
  let handlers := (s.body.tries.flatMap TryRange.handlers).filter fun h => h.addr = a
  match ← Rule.ask (caughtType s.classPath .unknown handlers) with
  | .unknown => throw .moveExceptionNotHandler
  | t => return t

/-- What an instruction that fetches a result does, after a given instruction. -/
def fetchResult (mnemonic : String) (previous? : Option Instr) : Rule Effect :=
  match previous? with
  | none => throw (.moveResultPosition mnemonic)
  | some previous =>
    if previous.setsResult then
      match resultType? previous with
      | some ty => do return .write (← Rule.known (RegType.ofTy ty))
      | none => return .waiting
    else throw (.moveResultPosition mnemonic)

/-- What the instruction of the point at an index does.  `previous?` is the instruction before
it in the body. -/
def effect (s : Subject) (i : Nat) (p : Point) (previous? : Option Instr) : Rule Effect :=
  let write (r : Except AnalysisError RegType) : Rule Effect := do return .write (← Rule.lift r)
  let writeTy (r : Except HierarchyError RegType) : Rule Effect := do
    return .write (← Rule.known r)
  match p.instr with
  | .move _ _ _ src => write (p.typeBefore src)
  | .moveResult _ _ => fetchResult p.instr.mnemonic previous?
  | .moveException _ => do return .write (← s.exceptionType p.addr)
  | .const form _ v => return .write (.narrow (.ofLiteral (literalValue form v)))
  | .constWide _ _ _ => return .write (.half .longLo)
  | .constString _ _ _ => writeTy ((TypeNode.ofDescriptor stringClass).map .reference)
  | .constClass _ _ => writeTy ((TypeNode.ofDescriptor classClass).map .reference)
  | .checkCast _ ty => writeTy (RegType.ofTy ty)
  | .instanceOf _ _ _ => return .write (.narrow .boolean)
  | .arrayLength _ _ => return .write (.narrow .integer)
  | .newInstance dst ty => Rule.lift (newObject i p dst ty)
  | .newArray _ _ ty =>
    match ty with
    | .array _ _ => writeTy (RegType.ofTy ty)
    | _ => throw .newArrayNotArray
  | .compare _ _ _ _ => return .write (.narrow .byte)
  | .arrayAccess .get kind _ array _ =>
    match kind with
    | .wide => write (do wideElement p.instr.mnemonic (← p.typeBefore array))
    | .object => write (do objectElement p.instr.mnemonic (← p.typeBefore array))
    | kind => writeTy (accessType kind .int)
  | .instanceAccess .get kind _ _ f => writeTy (accessType kind f.ty)
  | .staticAccess .get kind _ f => writeTy (accessType kind f.ty)
  | .invoke .direct args m => Rule.lift (directCall p args m)
  | .unary op _ _ => return .write (numberType op.result)
  | .binary op _ a b => write (binaryType p op a b)
  | .binaryTo op dst b => write (binaryType p op dst b)
  | .binaryLit16 op _ a literal => write (lit16Type p op a literal)
  | .binaryLit8 op _ a literal => write (lit8Type p op a literal)
  | _ => return .nothing

end Subject

end Dalvik.Analysis
