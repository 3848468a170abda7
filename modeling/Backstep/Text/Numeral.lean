import Backstep.Word
/-!
# Numerals

How numbers are written by those who hand them in. All readers want ASCII digits, at least one of
them, and take one leading `+`. They differ in what else may stand in front and in the range: line
numbers and addresses are unsigned, decimal or hexadecimal behind `0x`; operands may carry a minus
sign before decimal digits and wrap; numbers typed at a prompt are signed words in either base, with
the sign of a hexadecimal one behind its `0x`.
-/

namespace Backstep.Numeral

/-- Why a text is no number of a range. -/
inductive Failure
  | empty
  | badDigit
  | tooLarge
deriving DecidableEq, Repr

/-- The digit that a character is in a base of at most sixteen. -/
def digit? (base : Nat) (c : Char) : Option Nat :=
  let value? :=
    if c.isDigit then some (c.toNat - '0'.toNat)
    else if 'a' ≤ c ∧ c ≤ 'f' then some (c.toNat - 'a'.toNat + 10)
    else if 'A' ≤ c ∧ c ≤ 'F' then some (c.toNat - 'A'.toNat + 10)
    else none
  value?.filter (· < base)

/-- The number that digits denote, the most significant first. -/
def value (base : Nat) (cs : List Char) : Nat :=
  cs.foldl (fun n c => base * n + (digit? base c).getD 0) 0

/-- Reads digits as a number below the limit. Digits that already leave the range count before a
character that is no digit. -/
def ofDigits (base limit : Nat) (cs : List Char) : Except Failure Nat :=
  let digits := cs.takeWhile fun c => (digit? base c).isSome
  if cs.isEmpty then .error .empty
  else if limit ≤ value base digits then .error .tooLarge
  else if digits.length < cs.length then .error .badDigit
  else .ok (value base digits)

/-- Reads digits behind an optional `+`. A sign alone is not empty, it lacks a digit. -/
def natural (base limit : Nat) : List Char → Except Failure Nat
  | ['+'] => .error .badDigit
  | '+' :: cs => ofDigits base limit cs
  | cs => ofDigits base limit cs

/-- Reads an integer of 64 bits behind an optional sign. -/
def integer (base : Nat) : List Char → Except Failure Int
  | '-' :: cs => (ofDigits base (UInt64.size / 2 + 1) cs).map fun n => -n
  | cs => (natural base (UInt64.size / 2) cs).map fun n => n

/-- The text behind a `0x`, if it starts with one. -/
def afterHexMark? : List Char → Option (List Char)
  | '0' :: 'x' :: cs => some cs
  | _ => none

/-- Reads an unsigned number of 64 bits: decimal, or hexadecimal behind `0x`. -/
def unsigned? (cs : List Char) : Option UInt64 :=
  let read := match afterHexMark? cs with
    | some digits => natural 16 UInt64.size digits
    | none => natural 10 UInt64.size cs
  read.toOption.map UInt64.ofNat

/-- Reads an operand: an unsigned number or a decimal one behind a minus sign, taken as a word. -/
def operand? : List Char → Option Word
  | '-' :: cs => (natural 10 UInt64.size cs).toOption.map fun n => -(UInt64.ofNat n).toInt64
  | cs => (unsigned? cs).map UInt64.toInt64

/-- Reads a signed word: decimal, or hexadecimal behind `0x`. -/
def word? (cs : List Char) : Option Word :=
  let read := match afterHexMark? cs with
    | some digits => integer 16 digits
    | none => integer 10 cs
  read.toOption.map Int64.ofInt

def byte? (cs : List Char) : Option UInt8 := (natural 10 256 cs).toOption.map UInt8.ofNat

def hexByte? (cs : List Char) : Option UInt8 := (natural 16 256 cs).toOption.map UInt8.ofNat

def hexOfByte (b : UInt8) : String :=
  String.ofList [Nat.digitChar (b.toNat / 16), Nat.digitChar (b.toNat % 16)]

end Backstep.Numeral
