import Backstep.AddressMap
import Backstep.Instruction
import Backstep.WordMemory
/-!
# Compiled programs

A program is its code, the bytes that stand in memory when it starts, and what the compiler noted
about both: where statements of the source begin, from which source line each instruction comes, and
which variables live where. The lists may be of any length and in any order. Only what is read from
a listing is known to fit together.
-/

namespace Backstep

structure Position where
  line : LineNumber := 0
  column : UInt64 := 0
deriving DecidableEq

def Position.text (p : Position) : String :=
  toString p.line.toNat ++ "." ++ toString p.column.toNat

/-- A variable of the source. It fills a whole word of memory and is declared to be `size` bytes
wide. -/
structure Variable where
  name : String
  address : Address
  size : UInt64
  /-- The declaration, from its first place to its last. -/
  start : Position := {}
  stop : Position := {}
deriving DecidableEq

namespace Variable

def site (v : Variable) : String := ":" ++ v.start.text

/-- The name with the place of declaration, which tells variables of one name apart. -/
def id (v : Variable) : String := v.name ++ v.site

/-- The word at the variable's address, as far as it is declared wide. -/
def value? (v : Variable) (m : Memory) : Option Word :=
  (m.read? v.address).map (Word.narrow · v.size)

end Variable

structure Program where
  /-- The bytes at the start of memory. -/
  data : Array UInt8 := #[]
  code : Array Instruction := #[]
  /-- The indices at which statements start. -/
  starts : Array Nat := #[]
  lines : Array LineNumber := #[]
  vars : AddressMap Variable := .empty
deriving DecidableEq

namespace Program

def size (p : Program) : Nat := p.code.size

def instruction? (p : Program) (index : Nat) : Option Instruction := p.code[index]?

def startsAt (p : Program) (index : Nat) : Bool := p.starts.contains index

def line? (p : Program) (index : Nat) : Option LineNumber := p.lines[index]?

/-- A program in which every instruction is a statement on a line of its own. -/
def eachAlone (code : List Instruction) : Program where
  code := code.toArray
  starts := Array.range code.length
  lines := (Array.range code.length).map fun i => UInt64.ofNat (i + 1)

end Program

end Backstep
