import Dalvik.Ref
import Dalvik.Register

/-!
# Instructions

Instructions come in families that differ in a detail: the width of the value they move, the
number of units that hold a literal, the arithmetic operation.  `Instr` has one constructor per
family and the detail is a parameter.  Two families always stand side by side: a call names its
registers in a list or as a range (`Args`), and an access to memory reads or writes
(`Direction`).

The last group of constructors only occurs in *odexed* code, which an optimiser prepared for
one device.  There a field is an offset into the object, a method is an index into the vtable or
into a table of inlined methods, and names are gone.
-/

namespace Dalvik

/-! ## Details of families -/

/-- What a move, a result or an odexed access carries: one register of a number, a pair of
registers, or a reference. -/
inductive Width where
  | narrow
  | wide
  | object
  deriving DecidableEq, Repr

/-- Where the register numbers of a move are stored. -/
inductive MoveForm where
  | near
  | from16
  | both16
  deriving DecidableEq, Repr

/-- How the literal of a 32-bit constant is stored. -/
inductive ConstForm where
  | four
  | sixteen
  | full
  | high
  deriving DecidableEq, Repr

/-- How the literal of a 64-bit constant is stored. -/
inductive WideConstForm where
  | sixteen
  | thirtyTwo
  | full
  | high
  deriving DecidableEq, Repr

/-- How the offset of an unconditional jump is stored. -/
inductive JumpForm where
  | eight
  | sixteen
  | thirtyTwo
  deriving DecidableEq, Repr

/-- Whether an access reads memory into a register or writes a register to memory. -/
inductive Direction where
  | get
  | put
  deriving DecidableEq, Repr

/-- The variant of an access to an array element or a field. -/
inductive Access where
  | word
  | wide
  | object
  | boolean
  | byte
  | char
  | short
  deriving DecidableEq, Repr

/-- The condition of a branch. -/
inductive Condition where
  | eq
  | ne
  | lt
  | ge
  | gt
  | le
  deriving DecidableEq, Repr

/-- A three-way comparison.  Those of floating point numbers say which way an unordered pair
goes. -/
inductive Comparison where
  | floatLess
  | floatGreater
  | doubleLess
  | doubleGreater
  | long
  deriving DecidableEq, Repr

/-- Whether the cases of a switch are consecutive numbers or a list of keys. -/
inductive SwitchKind where
  | packed
  | sparse
  deriving DecidableEq, Repr

/-- How a call selects its method. -/
inductive Dispatch where
  | virtual
  | super
  | direct
  | static
  | interface
  deriving DecidableEq, Repr

/-- How a call by vtable index selects its vtable. -/
inductive QuickDispatch where
  | virtual
  | super
  deriving DecidableEq, Repr

/-- An operation on one number. -/
inductive Unary where
  | negInt
  | notInt
  | negLong
  | notLong
  | negFloat
  | negDouble
  | intToLong
  | intToFloat
  | intToDouble
  | longToInt
  | longToFloat
  | longToDouble
  | floatToInt
  | floatToLong
  | floatToDouble
  | doubleToInt
  | doubleToLong
  | doubleToFloat
  | intToByte
  | intToChar
  | intToShort
  deriving DecidableEq, Repr

/-- An operation on two integers. -/
inductive IntOp where
  | add
  | sub
  | mul
  | div
  | rem
  | and
  | or
  | xor
  | shl
  | shr
  | ushr
  deriving DecidableEq, Repr

/-- An operation on two floating point numbers. -/
inductive FloatOp where
  | add
  | sub
  | mul
  | div
  | rem
  deriving DecidableEq, Repr

/-- An operation on two numbers of one type. -/
inductive Binary where
  | int (op : IntOp)
  | long (op : IntOp)
  | float (op : FloatOp)
  | double (op : FloatOp)
  deriving DecidableEq, Repr

/-- An operation on an integer and a 16-bit literal. -/
inductive Lit16Op where
  | add
  | rsub
  | mul
  | div
  | rem
  | and
  | or
  | xor
  deriving DecidableEq, Repr

/-- An operation on an integer and an 8-bit literal. -/
inductive Lit8Op where
  | add
  | rsub
  | mul
  | div
  | rem
  | and
  | or
  | xor
  | shl
  | shr
  | ushr
  deriving DecidableEq, Repr

/-! ## The instructions -/

/-- An instruction of a method body. -/
inductive Instr where
  | nop
  /-- Copies a register, or a pair. -/
  | move (width : Width) (form : MoveForm) (dst src : Reg)
  /-- Fetches the result of the call or array literal right before. -/
  | moveResult (width : Width) (dst : Reg)
  /-- Fetches the exception a handler caught. -/
  | moveException (dst : Reg)
  | returnVoid
  | return (width : Width) (src : Reg)
  | const (form : ConstForm) (dst : Reg) (value : Int)
  | constWide (form : WideConstForm) (dst : Reg) (value : Int)
  | constString (jumbo : Bool) (dst : Reg) (value : String)
  | constClass (dst : Reg) (ty : Ty)
  | monitorEnter (src : Reg)
  | monitorExit (src : Reg)
  /-- Gives a reference another type, or throws. -/
  | checkCast (ref : Reg) (ty : Ty)
  | instanceOf (dst src : Reg) (ty : Ty)
  | arrayLength (dst array : Reg)
  /-- Allocates an object, to be initialised by a constructor call. -/
  | newInstance (dst : Reg) (ty : Ty)
  | newArray (dst length : Reg) (ty : Ty)
  /-- Builds an array from registers.  The array is the result of the instruction. -/
  | filledNewArray (args : Args) (ty : Ty)
  /-- Fills an array from the table at an offset. -/
  | fillArrayData (array : Reg) (offset : Int)
  | throw (src : Reg)
  | goto (form : JumpForm) (offset : Int)
  /-- Jumps by the table at an offset. -/
  | switch (kind : SwitchKind) (src : Reg) (offset : Int)
  | compare (op : Comparison) (dst a b : Reg)
  | branch (condition : Condition) (a b : Reg) (offset : Int)
  | branchZero (condition : Condition) (a : Reg) (offset : Int)
  | arrayAccess (dir : Direction) (kind : Access) (value array index : Reg)
  | instanceAccess (dir : Direction) (kind : Access) (value object : Reg) (field : FieldRef)
  | staticAccess (dir : Direction) (kind : Access) (value : Reg) (field : FieldRef)
  | invoke (dispatch : Dispatch) (args : Args) (method : MethodRef)
  | unary (op : Unary) (dst src : Reg)
  | binary (op : Binary) (dst a b : Reg)
  /-- The first operand is also the destination. -/
  | binaryTo (op : Binary) (dst b : Reg)
  | binaryLit16 (op : Lit16Op) (dst a : Reg) (literal : Int)
  | binaryLit8 (op : Lit8Op) (dst a : Reg) (literal : Int)
  /-- The table of a switch over consecutive keys. -/
  | packedTable (firstKey : Int) (targets : List Int)
  /-- The table of a switch over listed keys. -/
  | sparseTable (keys targets : List Int)
  /-- The elements of an array, one row of bytes each. -/
  | arrayData (rows : List (List Nat))
  /-- Stands for an odexed instruction whose object register never got a type. -/
  | unresolvedOdex (object : Reg) (size : Nat)
  | instanceVolatile (dir : Direction) (width : Width) (value object : Reg) (field : FieldRef)
  | staticVolatile (dir : Direction) (width : Width) (value : Reg) (field : FieldRef)
  /-- Throws what a failed verification would have reported. -/
  | throwVerificationError (kind : Nat) (ref : String)
  | executeInline (args : Args) (index : Nat)
  /-- Calls a constructor that does nothing. -/
  | invokeDirectEmpty (regs : List Reg) (method : MethodRef)
  /-- Calls the constructor of the root class. -/
  | invokeObjectInit (range : RegRange) (method : MethodRef)
  /-- Returns after a memory barrier. -/
  | returnVoidBarrier
  | instanceQuick (dir : Direction) (width : Width) (value object : Reg) (offset : Nat)
  | invokeQuick (dispatch : QuickDispatch) (args : Args) (index : Nat)
  deriving DecidableEq, Repr

end Dalvik
