import Dalvik.Instr.Mnemonic

/-!
# Printed instructions

An instruction is printed as its mnemonic, a space, and its operands with commas between them.
Numbers are marked with `#`, and long tables are abbreviated to their length.
-/

namespace Dalvik.Instr

/-- A signed number operand. -/
def numberText (n : Int) : String := "#" ++ toString n

/-- A list of numbers between brackets. -/
def numbersText (ns : List Int) : String := "[" ++ ", ".intercalate (ns.map toString) ++ "]"

/-- The printed operands of an instruction, in order. -/
def operands : Instr → List String
  | .nop | .returnVoid | .returnVoidBarrier => []
  | .move _ _ dst src => [dst.text, src.text]
  | .moveResult _ r | .moveException r | .return _ r | .monitorEnter r | .monitorExit r
  | .throw r => [r.text]
  | .const _ r n | .constWide _ r n | .fillArrayData r n | .switch _ r n | .branchZero _ r n =>
    [r.text, numberText n]
  | .constString _ r s => [r.text, Text.quoted s]
  | .constClass r ty | .checkCast r ty | .newInstance r ty => [r.text, ty.descriptor]
  | .instanceOf a b ty | .newArray a b ty => [a.text, b.text, ty.descriptor]
  | .arrayLength a b | .unary _ a b | .binaryTo _ a b => [a.text, b.text]
  | .filledNewArray args ty => [args.text, ty.descriptor]
  | .goto _ n => [numberText n]
  | .compare _ a b c | .arrayAccess _ _ a b c | .binary _ a b c => [a.text, b.text, c.text]
  | .branch _ a b n | .binaryLit16 _ a b n | .binaryLit8 _ a b n =>
    [a.text, b.text, numberText n]
  | .instanceAccess _ _ a b f | .instanceVolatile _ _ a b f => [a.text, b.text, f.text]
  | .staticAccess _ _ a f | .staticVolatile _ _ a f => [a.text, f.text]
  | .invoke _ args m => [args.text, m.text]
  | .packedTable n targets => [numberText n, numbersText targets]
  | .sparseTable keys targets => [numbersText keys, numbersText targets]
  | .arrayData rows => ["<" ++ toString rows.length ++ " elements>"]
  | .unresolvedOdex r n => [r.text, numberText n]
  | .throwVerificationError n s => [numberText n, Text.quoted s]
  | .executeInline args n | .invokeQuick _ args n => [args.text, numberText n]
  | .invokeDirectEmpty regs m => [regListText regs, m.text]
  | .invokeObjectInit r m => [r.text, m.text]
  | .instanceQuick _ _ a b n => [a.text, b.text, numberText n]

/-- The operands as they follow the mnemonic. -/
def operandsText (i : Instr) : String :=
  match i.operands with
  | [] => ""
  | ops => " " ++ ", ".intercalate ops

/-- The printed instruction. -/
def text (i : Instr) : String := i.mnemonic ++ i.operandsText

end Dalvik.Instr
