import Backstep.InstructionSet
/-!
# Instructions

An instruction keeps the byte of its operation as it stands in the program, so that a byte the
catalog does not know survives loading and can still be shown, run over and undone.
-/

namespace Backstep

structure Instruction where
  code : UInt8
  operands : List Word := []
deriving DecidableEq

namespace Instruction

/-- What an operand reads that the instruction does not have. -/
def absentOperand : Word := 0xBAD

/-- An instruction of the catalog, with as many operands as its operation takes. -/
def of? (op : Opcode) (operands : List Word) : Option Instruction :=
  if operands.length = op.arity then some ⟨op.code, operands⟩ else none

def op? (i : Instruction) : Option Opcode := Opcode.ofCode? i.code

def operand (i : Instruction) (k : Nat) : Word := i.operands[k]?.getD absentOperand

/-- The name of the operation, or its number behind `#`. -/
def mnemonic (i : Instruction) : String :=
  match i.op? with
  | some op => op.mnemonic
  | none => "#" ++ toString i.code.toNat

def text (i : Instruction) : String :=
  i.mnemonic ++ "(" ++ ", ".intercalate (i.operands.map fun w => toString w.toInt) ++ ")"

end Instruction

end Backstep
