import Backstep.Instruction
/-!
# Problems

A problem is something that a user is told: what went wrong, and, where it is known, in which line
and at which instruction. The cause keeps what the wording needs, and all wording is here.
-/

namespace Backstep

namespace Problem

/-- The kinds of problem. Each has a number and a fixed text. -/
inductive Kind
  | syntaxError
  | divisionByZero
  | noProgram
  | emptyHistory
  | inputPending
  | unknownMnemonic
  | operandCount
  | addressOutOfRange
  | internalError
deriving DecidableEq, Repr

namespace Kind

def all : List Kind :=
  [.syntaxError, .divisionByZero, .noProgram, .emptyHistory, .inputPending, .unknownMnemonic,
   .operandCount, .addressOutOfRange, .internalError]

def code : Kind → Nat
  | .syntaxError => 2
  | .divisionByZero => 11
  | .noProgram => 21
  | .emptyHistory => 22
  | .inputPending => 23
  | .unknownMnemonic => 24
  | .operandCount => 25
  | .addressOutOfRange => 26
  | .internalError => 51

def text : Kind → String
  | .syntaxError => "SYNTAX ERROR"
  | .divisionByZero => "DIVISION BY ZERO"
  | .noProgram => "NO PROGRAM"
  | .emptyHistory => "CANNOT UNDO: NO HISTORY"
  | .inputPending => "WAITING FOR INPUT"
  | .unknownMnemonic => "UNKNOWN MNEMONIC"
  | .operandCount => "WRONG NUMBER OF OPERANDS"
  | .addressOutOfRange => "ADDRESS OUT OF RANGE"
  | .internalError => "INTERNAL ERROR"

end Kind

inductive Cause
  /-- A piece of a data line is no byte. -/
  | badByte (piece : String)
  /-- A variable line has not its four parts. -/
  | variableShape
  /-- The last part of a variable line is not two places. -/
  | variablePlace
  | badNumber (piece : String)
  /-- No line number stands before the instruction. -/
  | noLineMark
  | noOpening
  | noClosing
  | badOpcode (name : String)
  | unknownMnemonic (name : String)
  | operandCount (op : Opcode) (given : Nat)
  | divisionByZero
  | noProgram
  | nothingToRun
  | emptyHistory
  | inputPending
  | undoWhilePending
  | variableAddress (name : String) (address : Address)
  | operandAddress (instruction : Instruction)
  | inputAddress (x : Word) (memorySize : Nat)
  | memoryEnd (memorySize : Nat)
  | notANumber (piece : String)
  | unknownCommand (word : String)
  | noFileNamed
  /-- A problem of a known kind that brings its own text. -/
  | stated (kind : Kind) (detail : String)
deriving DecidableEq

namespace Cause

def kind : Cause → Kind
  | .badByte _ | .variableShape | .variablePlace | .badNumber _ | .noLineMark | .noOpening
  | .noClosing | .badOpcode _ | .notANumber _ | .unknownCommand _ | .noFileNamed => .syntaxError
  | .unknownMnemonic _ => .unknownMnemonic
  | .operandCount _ _ => .operandCount
  | .divisionByZero => .divisionByZero
  | .noProgram | .nothingToRun => .noProgram
  | .emptyHistory => .emptyHistory
  | .inputPending | .undoWhilePending => .inputPending
  | .variableAddress _ _ | .operandAddress _ | .inputAddress _ _ | .memoryEnd _ =>
    .addressOutOfRange
  | .stated kind _ => kind

private def quoted (s : String) : String := "`" ++ s ++ "`"

/-- What is said after the text of the kind, if anything. -/
def detail : Cause → String
  | .badByte piece => "BAD DATA BYTE " ++ quoted piece
  | .variableShape => "EXPECTED `.var NAME ADDRESS SIZE BEGIN-END`"
  | .variablePlace => "EXPECTED `BEGIN-END` LOCATION"
  | .badNumber piece => "BAD NUMBER " ++ quoted piece
  | .noLineMark => "EXPECTED `LINE:` BEFORE INSTRUCTION"
  | .noOpening => "EXPECTED `(`"
  | .noClosing => "EXPECTED `)`"
  | .badOpcode name => "BAD OPCODE " ++ quoted name
  | .unknownMnemonic name => name
  | .operandCount op given =>
    op.mnemonic ++ " TAKES " ++ toString op.arity ++ ", GOT " ++ toString given
  | .nothingToRun => "LOAD A PROGRAM BEFORE RUNNING"
  | .undoWhilePending => "CANNOT UNDO WHILE AN INSTRUCTION WAITS"
  | .variableAddress name address => "VARIABLE " ++ name ++ " AT " ++ toString address.toNat
  | .operandAddress instruction => instruction.text
  | .inputAddress x memorySize =>
    "INPUT TO " ++ toString x.toInt ++ " WITH MEMORY SIZE " ++ toString memorySize
  | .memoryEnd memorySize => "MEMORY ENDS AT " ++ toString memorySize
  | .notANumber piece => "EXPECTED A NUMBER, GOT " ++ quoted piece
  | .unknownCommand word => "UNKNOWN COMMAND " ++ quoted word
  | .noFileNamed => "EXPECTED `load FILE`"
  | .stated _ detail => detail
  | .divisionByZero | .noProgram | .emptyHistory | .inputPending => ""

end Cause

end Problem

structure Problem where
  cause : Problem.Cause
  line : Option Nat := none
  index : Option Nat := none
deriving DecidableEq

namespace Problem

def kind (p : Problem) : Kind := p.cause.kind

def message (p : Problem) : String :=
  p.kind.text ++ inLine p.line ++ atIndex p.index ++ because p.cause.detail
where
  inLine : Option Nat → String
    | some line => " IN " ++ toString line
    | none => ""
  atIndex : Option Nat → String
    | some index => " AT INSTRUCTION " ++ toString index
    | none => ""
  because (detail : String) : String := if detail.isEmpty then "" else "; " ++ detail

end Problem

end Backstep
