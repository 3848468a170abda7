import Backstep.InstructionSet.Manual
import Backstep.Machine.Reversible
import Backstep.Text.Numeral
import Backstep.Text.Tabular
/-!
# Panels

The tables that the workbench shows: the registers, the variables, the program, a piece of memory,
the history and the instruction set.
-/

namespace Backstep.Workbench.Panel

open Text (Table)

def lineCell (line? : Option LineNumber) : String :=
  match line? with
  | some line => toString line.toNat
  | none => ""

def state (m : Machine) : String :=
  if m.program.isNone then "no program"
  else if m.isWaiting then "input"
  else if m.isDone then "done"
  else "ready"

def status (m : Machine) : Table where
  columns := [⟨"PC", .right⟩, ⟨"X", .right⟩, ⟨"Line", .right⟩, ⟨"History", .right⟩,
    ⟨"State", .left⟩]
  rows :=
    [[toString m.pc.toNat, toString m.core.x.toInt,
      match m.currentLine? with
      | some line => toString line.toNat
      | none => "-",
      toString m.past.length, state m]]

def nameCell (name : String) : Except Failure String :=
  if 0 ≤ Text.width name.toList then .ok name else .error (.fault (.unmeasured name))

def declarations (m : Machine) : Except Failure Table := do
  let named := m.program.elim [] (·.vars.values)
  let rows ← named.mapM fun v => do
    return [← nameCell v.name, v.site, toString v.address.toNat, toString v.size.toNat,
      toString (← m.value v).toInt]
  return {
    columns := [⟨"Variable", .left⟩, ⟨"Declared", .left⟩, ⟨"Address", .right⟩, ⟨"Size", .right⟩,
      ⟨"Value", .right⟩]
    rows }

/-- The program, with the next instruction marked by `->` and the starts of statements by `*`. -/
def code (p : Program) (pc : Address) : Table where
  columns := [⟨"Next", .left⟩, ⟨"Index", .right⟩, ⟨"Line", .right⟩, ⟨"Instruction", .left⟩]
  rows := p.code.toList.zipIdx.map fun (i, k) =>
    [if k = pc.toNat then "->" else "", toString k, lineCell (p.line? k),
     (if p.startsAt k then "* " else "  ") ++ i.text]

/-- Words of memory, each with the name of the variable that stands there. -/
def words (m : Machine) (addresses : List Address) : Except Failure Table := do
  let rows ← addresses.mapM fun a => do
    let word ← m.core.load a
    let name := (m.program.bind (·.vars.find? a)).elim "" (·.name)
    return [← nameCell name, toString a.toNat, toString word.toInt,
      " ".intercalate ((m.core.memory.bytesAt a).map Numeral.hexOfByte)]
  return {
    columns := [⟨"Variable", .left⟩, ⟨"Address", .right⟩, ⟨"Contents", .right⟩, ⟨"Bytes", .left⟩]
    rows }

/-- The last executions, so many of them, the oldest first. -/
def executions (m : Machine) (count : Nat) : Table where
  columns := [⟨"Step", .right⟩, ⟨"Index", .right⟩, ⟨"Line", .right⟩, ⟨"Instruction", .left⟩]
  rows := (m.past.reverse.zipIdx.drop (m.past.length - count)).map fun (x, k) =>
    [toString (k + 1), toString x.index.toNat, lineCell (m.line? x.index.toNat), x.instruction.text]

def catalog : Table where
  columns := [⟨"Code", .right⟩, ⟨"Mnemonic", .left⟩, ⟨"Operands", .left⟩, ⟨"Description", .left⟩]
  rows := Opcode.all.map fun op =>
    [toString op.code.toNat, op.mnemonic,
     if op.arity = 0 then "" else if op.takesAddress then "address" else "value",
     (if op.isReserved then "(reserved) " else "") ++ op.description]

end Backstep.Workbench.Panel
