import Backstep.Word
/-!
# The instruction set

The machine has a program counter and one accumulator, X. An instruction takes an operand from
memory or, with the suffix `_I`, from the program itself, combines it with X and leaves the result
in X. The numeric codes and the mnemonics below are what compiled programs are written in, so they
are fixed.
-/

namespace Backstep

inductive Opcode
  | noop
  | load | set | loadBp | loadI
  | push | pop | call | ret
  | negate | add | subtract | multiply | divide | remainder | addI | subtractI | multiplyI
  | divideI | remainderI
  | fNegate | fAdd | fSubtract | fMultiply | fDivide | fAddI | fSubtractI | fMultiplyI
  | fDivideI
  | or | and | xor | invert | gt | lt | gteq | lteq | equals | not | orI | andI | xorI
  | jump | branchIfZero | branchIfNotZero | interrupt
deriving DecidableEq, Repr

namespace Opcode

def all : List Opcode :=
  [.noop, .load, .set, .loadBp, .loadI, .push, .pop, .call, .ret, .negate, .add, .subtract,
   .multiply, .divide, .remainder, .addI, .subtractI, .multiplyI, .divideI, .remainderI,
   .fNegate, .fAdd, .fSubtract, .fMultiply, .fDivide, .fAddI, .fSubtractI, .fMultiplyI,
   .fDivideI, .or, .and, .xor, .invert, .gt, .lt, .gteq, .lteq, .equals, .not, .orI, .andI,
   .xorI, .jump, .branchIfZero, .branchIfNotZero, .interrupt]

def code : Opcode → UInt8
  | .noop => 0
  | .load => 1
  | .set => 2
  | .loadBp => 3
  | .loadI => 4
  | .push => 10
  | .pop => 11
  | .call => 12
  | .ret => 13
  | .negate => 100
  | .add => 101
  | .subtract => 102
  | .multiply => 103
  | .divide => 104
  | .remainder => 105
  | .addI => 106
  | .subtractI => 107
  | .multiplyI => 108
  | .divideI => 109
  | .remainderI => 110
  | .fNegate => 111
  | .fAdd => 112
  | .fSubtract => 113
  | .fMultiply => 114
  | .fDivide => 115
  | .fAddI => 116
  | .fSubtractI => 117
  | .fMultiplyI => 118
  | .fDivideI => 119
  | .or => 160
  | .and => 161
  | .xor => 162
  | .invert => 163
  | .gt => 164
  | .lt => 165
  | .gteq => 166
  | .lteq => 167
  | .equals => 168
  | .not => 169
  | .orI => 170
  | .andI => 171
  | .xorI => 172
  | .jump => 200
  | .branchIfZero => 201
  | .branchIfNotZero => 202
  | .interrupt => 255

def ofCode? (code : UInt8) : Option Opcode := all.find? (·.code == code)

theorem ofCode?_code (op : Opcode) : ofCode? op.code = some op := by cases op <;> rfl

theorem ofCode?_eq_some_iff {code : UInt8} {op : Opcode} :
    ofCode? code = some op ↔ code = op.code := by
  unfold ofCode?
  constructor
  · intro h
    have hfound := List.find?_some h
    exact (eq_of_beq hfound).symm
  · rintro rfl
    exact ofCode?_code op

def mnemonic : Opcode → String
  | .noop => "NOOP"
  | .load => "LOAD"
  | .set => "SET"
  | .loadBp => "LOAD_BP"
  | .loadI => "LOAD_I"
  | .push => "PUSH"
  | .pop => "POP"
  | .call => "CALL"
  | .ret => "RET"
  | .negate => "NEGATE"
  | .add => "ADD"
  | .subtract => "SUBTRACT"
  | .multiply => "MULTIPLY"
  | .divide => "DIVIDE"
  | .remainder => "REMAINDER"
  | .addI => "ADD_I"
  | .subtractI => "SUBTRACT_I"
  | .multiplyI => "MULTIPLY_I"
  | .divideI => "DIVIDE_I"
  | .remainderI => "REMAINDER_I"
  | .fNegate => "F_NEGATE"
  | .fAdd => "F_ADD"
  | .fSubtract => "F_SUBTRACT"
  | .fMultiply => "F_MULTIPLY"
  | .fDivide => "F_DIVIDE"
  | .fAddI => "F_ADD_I"
  | .fSubtractI => "F_SUBTRACT_I"
  | .fMultiplyI => "F_MULTIPLY_I"
  | .fDivideI => "F_DIVIDE_I"
  | .or => "OR"
  | .and => "AND"
  | .xor => "XOR"
  | .invert => "INVERT"
  | .gt => "GT"
  | .lt => "LT"
  | .gteq => "GTEQ"
  | .lteq => "LTEQ"
  | .equals => "EQUALS"
  | .not => "NOT"
  | .orI => "OR_I"
  | .andI => "AND_I"
  | .xorI => "XOR_I"
  | .jump => "JUMP"
  | .branchIfZero => "BRANCH_IF_ZERO"
  | .branchIfNotZero => "BRANCH_IF_NOT_ZERO"
  | .interrupt => "INTERRUPT"

def ofMnemonic? (name : String) : Option Opcode := all.find? (·.mnemonic == name)

def arity : Opcode → Nat
  | .noop | .loadBp | .push | .pop | .call | .ret | .negate | .invert | .not => 0
  | _ => 1

/-- The operand is the address of a word of memory. -/
def takesAddress : Opcode → Bool
  | .load | .set | .add | .subtract | .multiply | .divide | .remainder | .or | .and | .xor
  | .gt | .lt | .gteq | .lteq | .equals => true
  | _ => false

/-- The operation is kept for the compiler's sake and computes nothing. -/
def isReserved : Opcode → Bool
  | .loadBp | .push | .pop | .call | .ret | .fNegate | .fAdd | .fSubtract | .fMultiply | .fDivide
  | .fAddI | .fSubtractI | .fMultiplyI | .fDivideI => true
  | _ => false

end Opcode

inductive Service
  /-- A word is taken from the input and stored at the address in X. -/
  | read
  | write
deriving DecidableEq, Repr

namespace Service

def all : List Service := [.read, .write]

def code : Service → UInt8
  | .read => 0
  | .write => 1

def mnemonic : Service → String
  | .read => "READ"
  | .write => "WRITE"

def ofCode? (code : UInt8) : Option Service := all.find? (·.code == code)

theorem ofCode?_eq_some_iff {code : UInt8} {s : Service} :
    ofCode? code = some s ↔ code = s.code := by
  unfold ofCode?
  constructor
  · intro h
    have hfound := List.find?_some h
    exact (eq_of_beq hfound).symm
  · rintro rfl
    cases s <;> rfl

/-- The service that the operand of an interrupt asks for. Only the numbers of a byte name one. -/
def ofOperand? (operand : Word) : Option Service :=
  if 0 ≤ operand ∧ operand < 256 then ofCode? operand.toUInt64.toUInt8 else none

theorem ofOperand?_eq_some_iff {operand : Word} {s : Service} :
    ofOperand? operand = some s ↔ operand.toInt = s.code.toNat := by
  have hzero : (0 : Int64).toInt = 0 := rfl
  have hbyte : (256 : Int64).toInt = 256 := rfl
  have haddress := Word.toNat_address operand
  have hcode := s.code.toNat_lt
  rw [ofOperand?, Option.ite_none_right_eq_some, ofCode?_eq_some_iff, Int64.le_iff_toInt_le,
    Int64.lt_iff_toInt_lt, hzero, hbyte, ← UInt8.toNat_inj, UInt64.toNat_toUInt8]
  rw [Word.address, UInt64.size] at haddress
  omega

end Service

end Backstep
