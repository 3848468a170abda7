import Backstep.InstructionSet
/-!
# The manual of the instruction set

One sentence on each operation, as the workbench shows them.
-/

namespace Backstep.Opcode

def description : Opcode → String
  | .noop => "Nothing happens."
  | .load => "The word at the operand address is loaded into X."
  | .set => "The value of X is stored at the operand address."
  | .loadBp | .push | .pop | .call | .ret | .fNegate | .fAdd | .fSubtract | .fMultiply
  | .fDivide | .fAddI | .fSubtractI | .fMultiplyI | .fDivideI =>
    "Not implemented."
  | .loadI => "The operand is loaded into X."
  | .negate => "Negates the value in X."
  | .add => "Adds the word at the operand address and X. The result is stored in X."
  | .subtract => "Subtracts X from the word at the operand address. The result is stored in X."
  | .multiply => "Multiplies the word at the operand address by X. The result is stored in X."
  | .divide => "Divides the word at the operand address by X. The result is stored in X."
  | .remainder =>
    "Remainder of dividing the word at the operand address by X. The result is stored in X."
  | .addI => "Adds the operand to X. The result is stored in X."
  | .subtractI => "Subtracts the operand from X. The result is stored in X."
  | .multiplyI => "Multiplies X by the operand. The result is stored in X."
  | .divideI => "Divides X by the operand. The result is stored in X."
  | .remainderI => "Remainder of dividing X by the operand. The result is stored in X."
  | .or => "Bitwise `or` of the word at the operand address and X, stored in X."
  | .and => "Bitwise `and` of the word at the operand address and X, stored in X."
  | .xor => "Bitwise `exclusive or` of the word at the operand address and X, stored in X."
  | .invert => "Inverts every bit of X."
  | .gt => "X becomes 1 if the word at the operand address is greater than X, else 0."
  | .lt => "X becomes 1 if the word at the operand address is less than X, else 0."
  | .gteq =>
    "X becomes 1 if the word at the operand address is greater than or equal to X, else 0."
  | .lteq => "X becomes 1 if the word at the operand address is less than or equal to X, else 0."
  | .equals => "X becomes 1 if the word at the operand address equals X, else 0."
  | .not => "Logical not: X becomes 1 if it was 0, else 0."
  | .orI => "Bitwise `or` of the operand and X, stored in X."
  | .andI => "Bitwise `and` of the operand and X, stored in X."
  | .xorI => "Bitwise `exclusive or` of the operand and X, stored in X."
  | .jump => "The operand becomes the index of the next instruction."
  | .branchIfZero => "If X is 0, the operand becomes the index of the next instruction."
  | .branchIfNotZero => "If X is not 0, the operand becomes the index of the next instruction."
  | .interrupt =>
    "Performs a syscall. Operand 0 reads input into the address in X; operand 1 writes X to " ++
      "the output."

end Backstep.Opcode
