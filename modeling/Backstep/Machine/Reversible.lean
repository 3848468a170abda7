import Backstep.Machine.Engine
/-!
# Reversible machines

A machine runs a loaded program an instruction at a time and takes it back the same way. Loading a
program puts its data into memory and keeps the registers and the history. A machine whose program
waits for input takes no other program and undoes nothing, and any run goes on with the instruction
that waits.
-/

namespace Backstep

/-- The memory of a machine for which no other size is asked. -/
def defaultMemorySize : Nat := 65536

inductive Event
  /-- Between two instructions. -/
  | stopped
  /-- At an instruction that waits for input. -/
  | input
  /-- Behind the last instruction. -/
  | ended
deriving DecidableEq, Repr

structure Machine extends Engine where
  program : Option Program := none
  /-- For each instruction of the program, whether a statement starts there. -/
  starts : Array Bool := #[]
deriving DecidableEq

/-- For each instruction of a program, whether a statement starts there. -/
def Program.startMap (p : Program) : Array Bool :=
  p.starts.foldl (fun map index => map.setIfInBounds index true) (.replicate p.size false)

namespace Machine

def ofSize (memorySize : Nat) : Machine where
  core := { memory := .zeroed memorySize }

def pc (m : Machine) : Address := m.core.pc

def isDone (m : Machine) : Bool := m.program.any (·.size ≤ m.pc.toNat)

def startsAt (m : Machine) (index : Nat) : Bool := m.starts[index]?.getD false

/-- The source line of an instruction, as far as a program is loaded that knows it. -/
def line? (m : Machine) (index : Nat) : Option LineNumber :=
  m.program.bind (·.line? index)

def currentLine? (m : Machine) : Option LineNumber := m.line? m.pc.toNat

def value (m : Machine) (v : Variable) : Except Failure Word :=
  match v.value? m.core.memory with
  | some w => .ok w
  | none => .error (.fault (.pastEnd v.address))

private def refused {α : Type} (m : Machine) (cause : Problem.Cause) : Reply Machine α :=
  ⟨m, .error (.problem { cause }), []⟩

def load (m : Machine) (p : Program) : Reply Machine Unit :=
  if m.isWaiting then m.refused .inputPending
  else
    let t := m.core.putImage p.data.toList
    ⟨{ m with core := t.value, program := some p, starts := p.startMap }, .ok (),
      t.signals ++ [.diagnostic (.loaded p), .loaded p]⟩

/-- Adds the source line to a failure at an instruction. -/
def located (m : Machine) : Failure → Failure
  | .problem p => .problem { p with line := (p.index.bind m.line?).map (·.toNat) }
  | failure => failure

/-- What the completion of an instruction means for the machine. -/
def event (m : Machine) : Completion → Event
  | .waiting => .input
  | .complete => if m.isDone then .ended else .stopped

/-- The reply of the machine whose engine replied so. -/
def following (m : Machine) (r : Reply Engine Completion) : Reply Machine Event :=
  let after := { m with toEngine := r.state }
  ⟨after, (r.answer.map after.event).mapError m.located, r.signals⟩

/-- Runs one instruction, or goes on with the one that waits. -/
def step (m : Machine) : Reply Machine Event :=
  match m.program with
  | none => m.refused .nothingToRun
  | some p =>
    if m.isWaiting then m.following m.retry
    else match p.instruction? m.pc.toNat with
      | none => ⟨m, .ok .ended, []⟩
      | some i => m.following (m.execute i)

def undo (m : Machine) : Reply Machine Unit :=
  if m.program.isNone then m.refused .nothingToRun
  else if m.isWaiting then m.refused .inputPending
  else if m.past.isEmpty then ⟨m, .ok (), []⟩
  else (m.toEngine.undo.within ({ m with toEngine := · })).map fun _ => ()

/-- Undoes instructions until the counter is back at the start of a statement, or none is left. -/
def undoStatement (m : Machine) : Reply Machine Unit :=
  if m.program.isNone then m.refused .nothingToRun
  else if m.isWaiting then m.refused .inputPending
  else
    let stop (pc : Address) := m.startsAt pc.toNat
    (Engine.rewind stop m.core m.past #[]).within ({ m with toEngine := · })

def reset (m : Machine) : Reply Machine Unit :=
  if m.isWaiting then m.refused .inputPending
  else (Engine.rewind (fun _ => false) m.core m.past #[]).within ({ m with toEngine := · })

/-- Something is done from outside to the memory or to a channel. -/
def access (m : Machine) (a : Access) : Reply Machine Access.Answer :=
  (m.core.access a).within fun core => { m with core }

def summary (m : Machine) : String :=
  "Processor \x7b " ++ m.core.summary ++ ", history: " ++ toString m.past.length ++ " \x7d"

end Machine

end Backstep
