import Backstep.Problem
import Backstep.Program.Basic
/-!
# Bounds

The workbench lets no program reach past the end of memory. Whatever a program names as an address
is looked at when it is loaded, and the words that a user wants to see are looked at before they are
read. Addresses are compared as signed words here, so those of the upper half lie outside.
-/

namespace Backstep

namespace Program

/-- The first variable, by address, that does not fit in a memory of the given size. -/
def misplacedVariable? (p : Program) (memorySize : Nat) : Option Problem :=
  p.vars.values.findSome? fun v =>
    if Word.Fits v.address.toInt64 memorySize then none
    else some { cause := .variableAddress v.name v.address, line := some v.start.line.toNat }

/-- The first instruction whose operand is an address that does not fit in a memory of the given
size. -/
def misplacedOperand? (p : Program) (memorySize : Nat) : Option Problem :=
  p.code.toList.zipIdx.findSome? fun (i, k) =>
    if i.op?.any (·.takesAddress) ∧ ¬ Word.Fits (i.operand 0) memorySize then
      some { cause := .operandAddress i, line := (p.line? k).map (·.toNat), index := some k }
    else none

/-- The first thing of a program that does not fit in a memory of the given size. -/
def misplaced? (p : Program) (memorySize : Nat) : Option Problem :=
  (p.misplacedVariable? memorySize).or (p.misplacedOperand? memorySize)

end Program

namespace Workbench

/-- The address of the last of so many words from a start, or `-1` if no word can hold it. -/
def lastAddress (start count : Word) : Word :=
  let last? := do
    let before ← Word.ofInt? (count.toInt - 1)
    let distance ← Word.ofInt? (before.toInt * 8)
    Word.ofInt? (distance.toInt + start.toInt)
  last?.getD (-1)

/-- The addresses of so many words from a start, if there are any and all of them fit. -/
def wordsFrom? (memorySize : Nat) (start count : Word) : Option (List Address) :=
  let last := lastAddress start count
  if 1 ≤ count ∧ Word.Fits start memorySize ∧ Word.Fits last memorySize then
    let steps := (last.address.toNat - start.address.toNat) / 8
    some ((List.range (steps + 1)).map fun i => start.address + UInt64.ofNat (8 * i))
  else none

end Workbench

end Backstep
