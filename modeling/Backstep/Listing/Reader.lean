import Backstep.Listing.Entry
import Backstep.Problem
import Backstep.Text.Blank
/-!
# Reading listings

Each line is read for itself: what follows a `;` is a comment, blanks around the rest do not count,
and a line without anything else says nothing. The first line that cannot be read is reported with
its number, counted from one. Within a line the parts are read from left to right and the first bad
one is reported, except that the operands are read before the name of the operation.
-/

namespace Backstep

namespace Listing

open Text (trim trimStart words)
open Problem (Cause)

def orReport {α : Type} (cause : Cause) : Option α → Except Cause α
  | some a => .ok a
  | none => .error cause

/-- What stands before the first such character and what behind it. -/
def cutFirst? (c : Char) (cs : List Char) : Option (List Char × List Char) :=
  match cs.dropWhile (· != c) with
  | [] => none
  | _ :: after => some (cs.takeWhile (· != c), after)

def cutLast? (c : Char) (cs : List Char) : Option (List Char × List Char) :=
  (cutFirst? c cs.reverse).map fun (after, before) => (before.reverse, after.reverse)

def readUnsigned (cs : List Char) : Except Cause UInt64 :=
  orReport (.badNumber (String.ofList cs)) (Numeral.unsigned? cs)

def readOperand (cs : List Char) : Except Cause Word :=
  orReport (.badNumber (String.ofList cs)) (Numeral.operand? cs)

def readByte (cs : List Char) : Except Cause UInt8 :=
  orReport (.badByte (String.ofList cs)) (Numeral.hexByte? cs)

def readData (cs : List Char) : Except Cause Entry := return .data (← (words cs).mapM readByte)

/-- Reads `LINE.COLUMN`, or `LINE` alone for column zero. -/
def readPosition (cs : List Char) : Except Cause Position :=
  match cutFirst? '.' cs with
  | some (line, column) => return ⟨← readUnsigned line, ← readUnsigned column⟩
  | none => return ⟨← readUnsigned cs, 0⟩

def readVariable (cs : List Char) : Except Cause Entry :=
  match words cs with
  | [name, address, size, place] =>
    match cutFirst? '-' place with
    | some (start, stop) => do
      let address ← readUnsigned address
      let size ← readUnsigned size
      let start ← readPosition start
      let stop ← readPosition stop
      return .declaration { name := String.ofList name, address, size, start, stop }
    | none => .error .variablePlace
  | _ => .error .variableShape

/-- Reads operands between commas, of which any may be left out. -/
def readOperands (cs : List Char) : Except Cause (List Word) :=
  (((cs.splitOn ',').map trim).filter (!·.isEmpty)).mapM readOperand

/-- The instruction of a name, which is a mnemonic or a number behind `#`. Only a mnemonic asks for
a number of operands. -/
def named (name : List Char) (operands : List Word) : Except Cause Instruction :=
  match name with
  | '#' :: digits => do
    let code ← orReport (.badOpcode (String.ofList name)) (Numeral.byte? digits)
    return ⟨code, operands⟩
  | _ => do
    let op ← orReport (.unknownMnemonic (String.ofList name))
      (Opcode.ofMnemonic? (String.ofList name))
    orReport (.operandCount op operands.length) (Instruction.of? op operands)

/-- Reads `NAME(OPERANDS)`. -/
def readCall (cs : List Char) : Except Cause Instruction := do
  let (name, inner) ← orReport .noOpening (cutFirst? '(' cs)
  let (inner, after) ← orReport .noClosing (cutLast? ')' inner)
  if (trim after).isEmpty then named (trim name) (← readOperands inner)
  else throw .noClosing

/-- Reads `LINE: NAME(OPERANDS)`, with a `*` before it where a statement starts. -/
def readInstruction (cs : List Char) : Except Cause Entry := do
  let (starts, cs) := match cs with
    | '*' :: rest => (true, trimStart rest)
    | _ => (false, cs)
  let (line, call) ← orReport .noLineMark (cutFirst? ':' cs)
  let line ← readUnsigned (trim line)
  return .instruction starts line (← readCall (trim call))

/-- A line without its comment and the blanks at either end. -/
def meaning (line : List Char) : List Char := trim (line.takeWhile (· != ';'))

def readLine (line : List Char) : Except Cause (Option Entry) :=
  match meaning line with
  | [] => .ok none
  | '.' :: 'd' :: 'a' :: 't' :: 'a' :: rest => some <$> readData rest
  | '.' :: 'v' :: 'a' :: 'r' :: rest => some <$> readVariable rest
  | cs => some <$> readInstruction cs

/-- Reads lines, of which the first has the given number. -/
def readLines (number : Nat) : List (List Char) → Except Problem (List Entry)
  | [] => .ok []
  | line :: lines =>
    match readLine line with
    | .error cause => .error { cause, line := some number }
    | .ok entry => (entry.toList ++ ·) <$> readLines (number + 1) lines

end Listing

def Program.read (listing : String) : Except Problem Program :=
  Program.ofEntries <$> Listing.readLines 1 (listing.toList.splitOn '\n')

end Backstep
