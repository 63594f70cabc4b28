import Dalvik.Instr.Mnemonic

/-!
# Written forms

A *form* is one way to write an instruction: a mnemonic and the operands that follow it.
`Form` has one constructor per list of operands, each with the instruction it builds from them.
`Form.all` lists every form, and `Form.find?` looks one up by its mnemonic, which is read off
the instruction built from operands of no importance.
-/

namespace Dalvik

/-- The operands of an instruction, with the instruction they make. -/
inductive Form where
  | bare (i : Instr)
  | reg (make : Reg → Instr)
  | regReg (make : Reg → Reg → Instr)
  | regRegReg (make : Reg → Reg → Reg → Instr)
  | int (make : Int → Instr)
  | regInt (make : Reg → Int → Instr)
  | regRegInt (make : Reg → Reg → Int → Instr)
  | regText (make : Reg → String → Instr)
  | regTy (make : Reg → Ty → Instr)
  | regRegTy (make : Reg → Reg → Ty → Instr)
  | listTy (make : List Reg → Ty → Instr)
  | rangeTy (make : RegRange → Ty → Instr)
  | regRegField (make : Reg → Reg → FieldRef → Instr)
  | regField (make : Reg → FieldRef → Instr)
  | listMethod (make : List Reg → MethodRef → Instr)
  | rangeMethod (make : RegRange → MethodRef → Instr)
  | listNat (make : List Reg → Nat → Instr)
  | rangeNat (make : RegRange → Nat → Instr)
  | regRegNat (make : Reg → Reg → Nat → Instr)
  | regNat (make : Reg → Nat → Instr)
  | natText (make : Nat → String → Instr)
  | intInts (make : Int → List Int → Instr)
  | intsInts (make : List Int → List Int → Instr)
  | rows (make : List (List Nat) → Instr)

namespace Form

/-- An instruction of a form, with operands of no importance. -/
def sample : Form → Instr
  | .bare i => i
  | .reg make => make ⟨0⟩
  | .regReg make => make ⟨0⟩ ⟨0⟩
  | .regRegReg make => make ⟨0⟩ ⟨0⟩ ⟨0⟩
  | .int make => make 0
  | .regInt make => make ⟨0⟩ 0
  | .regRegInt make => make ⟨0⟩ ⟨0⟩ 0
  | .regText make => make ⟨0⟩ ""
  | .regTy make => make ⟨0⟩ .int
  | .regRegTy make => make ⟨0⟩ ⟨0⟩ .int
  | .listTy make => make [] .int
  | .rangeTy make => make ⟨⟨0⟩, 0⟩ .int
  | .regRegField make => make ⟨0⟩ ⟨0⟩ ⟨.int, "", .int⟩
  | .regField make => make ⟨0⟩ ⟨.int, "", .int⟩
  | .listMethod make => make [] ⟨.int, "", [], .int⟩
  | .rangeMethod make => make ⟨⟨0⟩, 0⟩ ⟨.int, "", [], .int⟩
  | .listNat make => make [] 0
  | .rangeNat make => make ⟨⟨0⟩, 0⟩ 0
  | .regRegNat make => make ⟨0⟩ ⟨0⟩ 0
  | .regNat make => make ⟨0⟩ 0
  | .natText make => make 0 ""
  | .intInts make => make 0 []
  | .intsInts make => make [] []
  | .rows make => make []

/-- The mnemonic of a form. -/
def mnemonic (f : Form) : String := f.sample.mnemonic

/-! ## The forms, family by family -/

/-- Every width. -/
def widths : List Width := [.narrow, .wide, .object]

/-- Both directions. -/
def directions : List Direction := [.get, .put]

/-- Every variant of an access. -/
def accesses : List Access := [.word, .wide, .object, .boolean, .byte, .char, .short]

/-- Every condition. -/
def conditions : List Condition := [.eq, .ne, .lt, .ge, .gt, .le]

/-- Every operation on two integers. -/
def intOps : List IntOp := [.add, .sub, .mul, .div, .rem, .and, .or, .xor, .shl, .shr, .ushr]

/-- Every operation on two floating point numbers. -/
def floatOps : List FloatOp := [.add, .sub, .mul, .div, .rem]

/-- Every operation on two numbers. -/
def binaries : List Binary :=
  intOps.map .int ++ intOps.map .long ++ floatOps.map .float ++ floatOps.map .double

/-- Every operation on one number. -/
def unaries : List Unary :=
  [.negInt, .notInt, .negLong, .notLong, .negFloat, .negDouble, .intToLong, .intToFloat,
    .intToDouble, .longToInt, .longToFloat, .longToDouble, .floatToInt, .floatToLong,
    .floatToDouble, .doubleToInt, .doubleToLong, .doubleToFloat, .intToByte, .intToChar,
    .intToShort]

/-- Every dispatch. -/
def dispatches : List Dispatch := [.virtual, .super, .direct, .static, .interface]

/-- Moves, results, returns and constants. -/
def valueForms : List Form :=
  (widths.flatMap fun w =>
    [.regReg (.move w .near), .regReg (.move w .from16), .regReg (.move w .both16),
      .reg (.moveResult w), .reg (.return w)]) ++
  ([ConstForm.four, .sixteen, .full, .high].map fun form => .regInt (.const form)) ++
  ([WideConstForm.sixteen, .thirtyTwo, .full, .high].map fun form => .regInt (.constWide form)) ++
  [.reg .moveException, .bare .returnVoid, .regText (.constString false),
    .regText (.constString true), .regTy .constClass]

/-- Objects, arrays and locks. -/
def objectForms : List Form :=
  [.reg .monitorEnter, .reg .monitorExit, .regTy .checkCast, .regRegTy .instanceOf,
    .regReg .arrayLength, .regTy .newInstance, .regRegTy .newArray,
    .listTy fun regs => .filledNewArray (.list regs),
    .rangeTy fun range => .filledNewArray (.range range),
    .regInt .fillArrayData]

/-- Jumps, branches, switches and comparisons. -/
def flowForms : List Form :=
  [.bare .nop, .reg .throw, .int (.goto .eight), .int (.goto .sixteen), .int (.goto .thirtyTwo),
    .regInt (.switch .packed), .regInt (.switch .sparse)] ++
  (conditions.flatMap fun c => [.regRegInt (.branch c), .regInt (.branchZero c)]) ++
  ([Comparison.floatLess, .floatGreater, .doubleLess, .doubleGreater, .long].map fun op =>
    .regRegReg (.compare op))

/-- Accesses to arrays and fields. -/
def accessForms : List Form :=
  directions.flatMap fun dir =>
    (accesses.flatMap fun kind =>
      [.regRegReg (.arrayAccess dir kind), .regRegField (.instanceAccess dir kind),
        .regField (.staticAccess dir kind)]) ++
    (widths.flatMap fun w =>
      [.regRegField (.instanceVolatile dir w), .regField (.staticVolatile dir w),
        .regRegNat (.instanceQuick dir w)])

/-- Calls. -/
def callForms : List Form :=
  (dispatches.flatMap fun d =>
    [.listMethod fun regs => .invoke d (.list regs),
      .rangeMethod fun range => .invoke d (.range range)]) ++
  ([QuickDispatch.virtual, .super].flatMap fun d =>
    [.listNat fun regs => .invokeQuick d (.list regs),
      .rangeNat fun range => .invokeQuick d (.range range)]) ++
  [.listNat fun regs => .executeInline (.list regs),
    .rangeNat fun range => .executeInline (.range range),
    .listMethod .invokeDirectEmpty, .rangeMethod .invokeObjectInit]

/-- Arithmetic. -/
def arithmeticForms : List Form :=
  (unaries.map fun op => .regReg (.unary op)) ++
  (binaries.flatMap fun op => [.regRegReg (.binary op), .regReg (.binaryTo op)]) ++
  ([Lit16Op.add, .rsub, .mul, .div, .rem, .and, .or, .xor].map fun op =>
    .regRegInt (.binaryLit16 op)) ++
  ([Lit8Op.add, .rsub, .mul, .div, .rem, .and, .or, .xor, .shl, .shr, .ushr].map fun op =>
    .regRegInt (.binaryLit8 op))

/-- Tables, and what else odexed code brings. -/
def otherForms : List Form :=
  [.intInts .packedTable, .intsInts .sparseTable, .rows .arrayData, .regNat .unresolvedOdex,
    .natText .throwVerificationError, .bare .returnVoidBarrier]

/-- Every form. -/
def all : List Form :=
  valueForms ++ objectForms ++ flowForms ++ accessForms ++ callForms ++ arithmeticForms ++
    otherForms

/-- Every form with its mnemonic. -/
def table : List (String × Form) := all.map fun f => (f.mnemonic, f)

/-- The form of a mnemonic. -/
def find? (mnemonic : String) : Option Form := table.lookup mnemonic

end Form

end Dalvik
