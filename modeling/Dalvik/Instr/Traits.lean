import Dalvik.Instr.Basic

/-!
# Traits of instructions

What the analyses need to know of an instruction without looking at its operands: its size,
whether it can throw, whether the next instruction can follow it, which register it writes,
where it jumps.
-/

namespace Dalvik

/-! ## Results of operations -/

/-- The type of the result of an operation on one number. -/
def Unary.result : Unary → Ty
  | .negInt | .notInt | .longToInt | .floatToInt | .doubleToInt => .int
  | .negLong | .notLong | .intToLong | .floatToLong | .doubleToLong => .long
  | .negFloat | .intToFloat | .longToFloat | .doubleToFloat => .float
  | .negDouble | .intToDouble | .longToDouble | .floatToDouble => .double
  | .intToByte => .byte
  | .intToChar => .char
  | .intToShort => .short

/-- The type of the result of an operation on two numbers. -/
def Binary.result : Binary → Ty
  | .int _ => .int
  | .long _ => .long
  | .float _ => .float
  | .double _ => .double

/-- Whether an operation fails on a zero divisor: divisions of integers do. -/
def Binary.divides : Binary → Bool
  | .int .div | .int .rem | .long .div | .long .rem => true
  | _ => false

/-- Whether an operation on a literal fails on a zero divisor. -/
def Lit16Op.divides : Lit16Op → Bool
  | .div | .rem => true
  | _ => false

/-- Whether an operation on a literal fails on a zero divisor. -/
def Lit8Op.divides : Lit8Op → Bool
  | .div | .rem => true
  | _ => false

namespace Instr

/-! ## Size -/

/-- The number of code units of an instruction. -/
def size : Instr → Nat
  | .nop | .returnVoid | .returnVoidBarrier | .moveResult _ _ | .moveException _ | .return _ _
  | .monitorEnter _ | .monitorExit _ | .throw _ | .arrayLength _ _ | .unary _ _ _
  | .binaryTo _ _ _ => 1
  | .move _ form _ _ =>
    match form with
    | .near => 1
    | .from16 => 2
    | .both16 => 3
  | .const form _ _ =>
    match form with
    | .four => 1
    | .sixteen | .high => 2
    | .full => 3
  | .constWide form _ _ =>
    match form with
    | .sixteen | .high => 2
    | .thirtyTwo => 3
    | .full => 5
  | .constString jumbo _ _ => if jumbo then 3 else 2
  | .constClass _ _ | .checkCast _ _ | .instanceOf _ _ _ | .newInstance _ _ | .newArray _ _ _
  | .compare _ _ _ _ | .branch _ _ _ _ | .branchZero _ _ _ | .arrayAccess _ _ _ _ _
  | .instanceAccess _ _ _ _ _ | .staticAccess _ _ _ _ | .binary _ _ _ _ | .binaryLit16 _ _ _ _
  | .binaryLit8 _ _ _ _ | .instanceVolatile _ _ _ _ _ | .staticVolatile _ _ _ _
  | .throwVerificationError _ _ | .instanceQuick _ _ _ _ _ => 2
  | .filledNewArray _ _ | .fillArrayData _ _ | .switch _ _ _ | .invoke _ _ _
  | .executeInline _ _ | .invokeDirectEmpty _ _ | .invokeObjectInit _ _ | .invokeQuick _ _ _ => 3
  | .goto form _ =>
    match form with
    | .eight => 1
    | .sixteen => 2
    | .thirtyTwo => 3
  | .packedTable _ targets => targets.length * 2 + 4
  | .sparseTable _ targets => targets.length * 4 + 2
  | .arrayData rows => (rows.length * (rows.head?.map List.length).getD 0 + 1) / 2 + 4
  | .unresolvedOdex _ size => size

/-! ## Control flow -/

/-- Whether execution can raise an exception at the instruction. -/
def canThrow : Instr → Bool
  | .constString _ _ _ | .constClass _ _ | .monitorEnter _ | .monitorExit _ | .checkCast _ _
  | .instanceOf _ _ _ | .arrayLength _ _ | .newInstance _ _ | .newArray _ _ _
  | .filledNewArray _ _ | .throw _ | .arrayAccess _ _ _ _ _ | .instanceAccess _ _ _ _ _
  | .staticAccess _ _ _ _ | .invoke _ _ _ | .unresolvedOdex _ _ | .instanceVolatile _ _ _ _ _
  | .staticVolatile _ _ _ _ | .throwVerificationError _ _ | .executeInline _ _
  | .invokeDirectEmpty _ _ | .invokeObjectInit _ _ | .instanceQuick _ _ _ _ _
  | .invokeQuick _ _ _ => true
  | .binary op _ _ _ | .binaryTo op _ _ => op.divides
  | .binaryLit16 op _ _ _ => op.divides
  | .binaryLit8 op _ _ _ => op.divides
  | _ => false

/-- Whether execution can go on with the next instruction. -/
def canContinue : Instr → Bool
  | .returnVoid | .return _ _ | .throw _ | .goto _ _ | .packedTable _ _ | .sparseTable _ _
  | .arrayData _ | .unresolvedOdex _ _ | .throwVerificationError _ _ | .returnVoidBarrier => false
  | _ => true

/-- The offset of a jump, of a conditional jump or of a table. -/
def targetOffset? : Instr → Option Int
  | .goto _ offset | .branch _ _ _ offset | .branchZero _ _ offset | .switch _ _ offset
  | .fillArrayData _ offset => some offset
  | _ => none

/-- Whether the instruction chooses its successor by a table. -/
def isSwitch : Instr → Bool
  | .switch _ _ _ => true
  | _ => false

/-- Whether control goes to where the offset leads, or to where its table says. -/
def isBranch : Instr → Bool
  | .fillArrayData _ _ => false
  | i => i.targetOffset?.isSome

/-- The offsets listed by the table of a switch. -/
def tableTargets? : Instr → Option (List Int)
  | .packedTable _ targets | .sparseTable _ targets => some targets
  | _ => none

/-- Whether the instruction fetches a caught exception. -/
def isMoveException : Instr → Bool
  | .moveException _ => true
  | _ => false

/-! ## Registers -/

/-- Whether a result can be fetched by the next instruction. -/
def setsResult : Instr → Bool
  | .filledNewArray _ _ | .invoke _ _ _ | .executeInline _ _ | .invokeDirectEmpty _ _
  | .invokeObjectInit _ _ | .invokeQuick _ _ _ => true
  | _ => false

/-- The register the instruction writes. -/
def destination? : Instr → Option Reg
  | .move _ _ dst _ | .moveResult _ dst | .moveException dst | .const _ dst _
  | .constWide _ dst _ | .constString _ dst _ | .constClass dst _ | .checkCast dst _
  | .instanceOf dst _ _ | .arrayLength dst _ | .newInstance dst _ | .newArray dst _ _
  | .compare _ dst _ _ | .arrayAccess .get _ dst _ _ | .instanceAccess .get _ dst _ _
  | .staticAccess .get _ dst _ | .unary _ dst _ | .binary _ dst _ _ | .binaryTo _ dst _
  | .binaryLit16 _ dst _ _ | .binaryLit8 _ dst _ _ | .instanceVolatile .get _ dst _ _
  | .staticVolatile .get _ dst _ | .instanceQuick .get _ dst _ _ => some dst
  | _ => none

/-- Whether the instruction writes a pair of registers. -/
def setsWide : Instr → Bool
  | .move .wide _ _ _ | .moveResult .wide _ | .constWide _ _ _ | .arrayAccess .get .wide _ _ _
  | .instanceAccess .get .wide _ _ _ | .staticAccess .get .wide _ _
  | .instanceVolatile .get .wide _ _ _ | .staticVolatile .get .wide _ _
  | .instanceQuick .get .wide _ _ _ => true
  | .unary op _ _ => op.result.isWide
  | .binary op _ _ _ | .binaryTo op _ _ => op.result.isWide
  | _ => false

/-! ## Odexed code -/

/-- Whether the instruction only occurs in odexed code. -/
def odexOnly : Instr → Bool
  | .instanceVolatile _ _ _ _ _ | .staticVolatile _ _ _ _ | .throwVerificationError _ _
  | .executeInline _ _ | .invokeDirectEmpty _ _ | .invokeObjectInit _ _ | .returnVoidBarrier
  | .instanceQuick _ _ _ _ _ | .invokeQuick _ _ _ => true
  | _ => false

/-! ## Constructor calls -/

/-- Whether the instruction is of a kind that can call a constructor. -/
def canInitialize : Instr → Bool
  | .invoke .direct _ _ | .invokeDirectEmpty _ _ | .invokeObjectInit _ _ => true
  | _ => false

/-- The name of constructors. -/
def constructorName : String := "<init>"

/-- Whether the instruction is a call to a constructor. -/
def isConstructorCall : Instr → Bool
  | .invoke .direct _ m | .invokeDirectEmpty _ m | .invokeObjectInit _ m =>
    m.name == constructorName
  | _ => false

/-- The receiver of a direct call. -/
def receiver? : Instr → Option Reg
  | .invoke .direct args _ => args.first?
  | .invokeDirectEmpty regs _ => regs.head?
  | .invokeObjectInit range _ => range.first?
  | _ => none

end Instr

end Dalvik
