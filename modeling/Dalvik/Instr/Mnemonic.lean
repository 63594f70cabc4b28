import Dalvik.Instr.Basic

/-!
# Mnemonics

The mnemonic of an instruction is put together from the name of its family and the marks of its
details: `move-wide/from16` is a move of a wide value whose source has a 16-bit number.
-/

namespace Dalvik

/-- What the mnemonic of a wide or object variant adds. -/
def Width.mark : Width → String
  | .narrow => ""
  | .wide => "-wide"
  | .object => "-object"

/-- What a mnemonic adds for the register numbers of a move. -/
def MoveForm.mark : MoveForm → String
  | .near => ""
  | .from16 => "/from16"
  | .both16 => "/16"

/-- What a mnemonic adds for a stored 32-bit literal. -/
def ConstForm.mark : ConstForm → String
  | .four => "/4"
  | .sixteen => "/16"
  | .full => ""
  | .high => "/high16"

/-- What a mnemonic adds for a stored 64-bit literal. -/
def WideConstForm.mark : WideConstForm → String
  | .sixteen => "/16"
  | .thirtyTwo => "/32"
  | .full => ""
  | .high => "/high16"

/-- What a mnemonic adds for a stored jump offset. -/
def JumpForm.mark : JumpForm → String
  | .eight => ""
  | .sixteen => "/16"
  | .thirtyTwo => "/32"

/-- The name of a direction, which follows the letter of what is accessed. -/
def Direction.name : Direction → String
  | .get => "get"
  | .put => "put"

/-- What a mnemonic adds for a variant of an access. -/
def Access.mark : Access → String
  | .word => ""
  | .wide => "-wide"
  | .object => "-object"
  | .boolean => "-boolean"
  | .byte => "-byte"
  | .char => "-char"
  | .short => "-short"

/-- The name of a condition. -/
def Condition.name : Condition → String
  | .eq => "eq"
  | .ne => "ne"
  | .lt => "lt"
  | .ge => "ge"
  | .gt => "gt"
  | .le => "le"

/-- The mnemonic of a comparison. -/
def Comparison.mnemonic : Comparison → String
  | .floatLess => "cmpl-float"
  | .floatGreater => "cmpg-float"
  | .doubleLess => "cmpl-double"
  | .doubleGreater => "cmpg-double"
  | .long => "cmp-long"

/-- The name of a kind of switch. -/
def SwitchKind.name : SwitchKind → String
  | .packed => "packed"
  | .sparse => "sparse"

/-- The name of a dispatch. -/
def Dispatch.name : Dispatch → String
  | .virtual => "virtual"
  | .super => "super"
  | .direct => "direct"
  | .static => "static"
  | .interface => "interface"

/-- The name of a dispatch by vtable index. -/
def QuickDispatch.name : QuickDispatch → String
  | .virtual => "virtual"
  | .super => "super"

/-- The mnemonic of an operation on one number. -/
def Unary.mnemonic : Unary → String
  | .negInt => "neg-int"
  | .notInt => "not-int"
  | .negLong => "neg-long"
  | .notLong => "not-long"
  | .negFloat => "neg-float"
  | .negDouble => "neg-double"
  | .intToLong => "int-to-long"
  | .intToFloat => "int-to-float"
  | .intToDouble => "int-to-double"
  | .longToInt => "long-to-int"
  | .longToFloat => "long-to-float"
  | .longToDouble => "long-to-double"
  | .floatToInt => "float-to-int"
  | .floatToLong => "float-to-long"
  | .floatToDouble => "float-to-double"
  | .doubleToInt => "double-to-int"
  | .doubleToLong => "double-to-long"
  | .doubleToFloat => "double-to-float"
  | .intToByte => "int-to-byte"
  | .intToChar => "int-to-char"
  | .intToShort => "int-to-short"

/-- The name of an operation on two integers. -/
def IntOp.name : IntOp → String
  | .add => "add"
  | .sub => "sub"
  | .mul => "mul"
  | .div => "div"
  | .rem => "rem"
  | .and => "and"
  | .or => "or"
  | .xor => "xor"
  | .shl => "shl"
  | .shr => "shr"
  | .ushr => "ushr"

/-- The name of an operation on two floating point numbers. -/
def FloatOp.name : FloatOp → String
  | .add => "add"
  | .sub => "sub"
  | .mul => "mul"
  | .div => "div"
  | .rem => "rem"

/-- The mnemonic of an operation on two numbers. -/
def Binary.mnemonic : Binary → String
  | .int op => op.name ++ "-int"
  | .long op => op.name ++ "-long"
  | .float op => op.name ++ "-float"
  | .double op => op.name ++ "-double"

/-- The mnemonic of an operation on an integer and a 16-bit literal. -/
def Lit16Op.mnemonic : Lit16Op → String
  | .add => "add-int/lit16"
  | .rsub => "rsub-int"
  | .mul => "mul-int/lit16"
  | .div => "div-int/lit16"
  | .rem => "rem-int/lit16"
  | .and => "and-int/lit16"
  | .or => "or-int/lit16"
  | .xor => "xor-int/lit16"

/-- The mnemonic of an operation on an integer and an 8-bit literal. -/
def Lit8Op.mnemonic : Lit8Op → String
  | .add => "add-int/lit8"
  | .rsub => "rsub-int/lit8"
  | .mul => "mul-int/lit8"
  | .div => "div-int/lit8"
  | .rem => "rem-int/lit8"
  | .and => "and-int/lit8"
  | .or => "or-int/lit8"
  | .xor => "xor-int/lit8"
  | .shl => "shl-int/lit8"
  | .shr => "shr-int/lit8"
  | .ushr => "ushr-int/lit8"

/-- The mnemonic of an instruction. -/
def Instr.mnemonic : Instr → String
  | .nop => "nop"
  | .move w form _ _ => "move" ++ w.mark ++ form.mark
  | .moveResult w _ => "move-result" ++ w.mark
  | .moveException _ => "move-exception"
  | .returnVoid => "return-void"
  | .return w _ => "return" ++ w.mark
  | .const form _ _ => "const" ++ form.mark
  | .constWide form _ _ => "const-wide" ++ form.mark
  | .constString jumbo _ _ => if jumbo then "const-string/jumbo" else "const-string"
  | .constClass _ _ => "const-class"
  | .monitorEnter _ => "monitor-enter"
  | .monitorExit _ => "monitor-exit"
  | .checkCast _ _ => "check-cast"
  | .instanceOf _ _ _ => "instance-of"
  | .arrayLength _ _ => "array-length"
  | .newInstance _ _ => "new-instance"
  | .newArray _ _ _ => "new-array"
  | .filledNewArray args _ => "filled-new-array" ++ args.mark
  | .fillArrayData _ _ => "fill-array-data"
  | .throw _ => "throw"
  | .goto form _ => "goto" ++ form.mark
  | .switch kind _ _ => kind.name ++ "-switch"
  | .compare op _ _ _ => op.mnemonic
  | .branch c _ _ _ => "if-" ++ c.name
  | .branchZero c _ _ => "if-" ++ c.name ++ "z"
  | .arrayAccess dir kind _ _ _ => "a" ++ dir.name ++ kind.mark
  | .instanceAccess dir kind _ _ _ => "i" ++ dir.name ++ kind.mark
  | .staticAccess dir kind _ _ => "s" ++ dir.name ++ kind.mark
  | .invoke dispatch args _ => "invoke-" ++ dispatch.name ++ args.mark
  | .unary op _ _ => op.mnemonic
  | .binary op _ _ _ => op.mnemonic
  | .binaryTo op _ _ => op.mnemonic ++ "/2addr"
  | .binaryLit16 op _ _ _ => op.mnemonic
  | .binaryLit8 op _ _ _ => op.mnemonic
  | .packedTable _ _ => "packed-switch-payload"
  | .sparseTable _ _ => "sparse-switch-payload"
  | .arrayData _ => "fill-array-data-payload"
  | .unresolvedOdex _ _ => "#unresolved-odex"
  | .instanceVolatile dir w _ _ _ => "i" ++ dir.name ++ w.mark ++ "-volatile"
  | .staticVolatile dir w _ _ => "s" ++ dir.name ++ w.mark ++ "-volatile"
  | .throwVerificationError _ _ => "throw-verification-error"
  | .executeInline args _ => "execute-inline" ++ args.mark
  | .invokeDirectEmpty _ _ => "invoke-direct-empty"
  | .invokeObjectInit _ _ => "invoke-object-init/range"
  | .returnVoidBarrier => "return-void-barrier"
  | .instanceQuick dir w _ _ _ => "i" ++ dir.name ++ w.mark ++ "-quick"
  | .invokeQuick dispatch args _ => "invoke-" ++ dispatch.name ++ "-quick" ++ args.mark

end Dalvik
