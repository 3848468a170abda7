import Backstep.Machine.Core
/-!
# Executions

An execution is an instruction together with what it is about to overwrite, noted before it runs: X,
the program counter or one word of memory. Reverting it puts back what was noted and nothing else.
The one instruction that is not taken back whole is `INTERRUPT`: a word read from the input stays in
memory, and a word sent to the output stays there.
-/

namespace Backstep

/-- What an instruction overwrites besides moving the counter on, as it was before. -/
inductive Saved
  | nothing
  | x (previous : Word)
  /-- The counter itself, of an instruction that may branch. -/
  | pc (previous : Address)
  | word (address : Address) (previous : Word)
deriving DecidableEq

structure Execution where
  index : Address
  instruction : Instruction
  saved : Saved
deriving DecidableEq

/-- What X holds after a floating-point instruction. -/
def floatResult : Word := 0xBAD

namespace Core

def divisionByZero (c : Core) : Failure :=
  .problem { cause := .divisionByZero, index := some c.pc.toNat }

/-- The word that an instruction leaves in X. A division by zero is noticed before memory is read.
-/
def result (c : Core) (i : Instruction) : Except Failure Word :=
  let x := c.x
  let operand := i.operand 0
  let memory := c.load operand.address
  match i.op? with
  | some .load => memory
  | some .loadI => .ok operand
  | some .negate => .ok (-x)
  | some .add => (· + x) <$> memory
  | some .subtract => (· - x) <$> memory
  | some .multiply => (· * x) <$> memory
  | some .divide => if x = 0 then .error c.divisionByZero else (· / x) <$> memory
  | some .remainder => if x = 0 then .error c.divisionByZero else (· % x) <$> memory
  | some .addI => .ok (x + operand)
  | some .subtractI => .ok (x - operand)
  | some .multiplyI => .ok (x * operand)
  | some .divideI => if operand = 0 then .error c.divisionByZero else .ok (x / operand)
  | some .remainderI => if operand = 0 then .error c.divisionByZero else .ok (x % operand)
  | some .fNegate | some .fAdd | some .fSubtract | some .fMultiply | some .fDivide
  | some .fAddI | some .fSubtractI | some .fMultiplyI | some .fDivideI => .ok floatResult
  | some .or => (· ||| x) <$> memory
  | some .and => (· &&& x) <$> memory
  | some .xor => (· ^^^ x) <$> memory
  | some .invert => .ok (~~~x)
  | some .gt => (fun w => .ofBool (x < w)) <$> memory
  | some .lt => (fun w => .ofBool (w < x)) <$> memory
  | some .gteq => (fun w => .ofBool (x ≤ w)) <$> memory
  | some .lteq => (fun w => .ofBool (w ≤ x)) <$> memory
  | some .equals => (fun w => .ofBool (w = x)) <$> memory
  | some .not => .ok (.ofBool (x = 0))
  | some .orI => .ok (x ||| operand)
  | some .andI => .ok (x &&& operand)
  | some .xorI => .ok (x ^^^ operand)
  | _ => .ok x

/-- The index at which the program goes on after an instruction that may branch. -/
def target (c : Core) (i : Instruction) : Except Failure Address :=
  let taken := match i.op? with
    | some .jump => true
    | some .branchIfZero => c.x = 0
    | some .branchIfNotZero => c.x ≠ 0
    | _ => false
  if taken then .ok (i.operand 0).address
  else if c.pc + 1 = 0 then .error (.fault .counterOverflow)
  else .ok (c.pc + 1)

/-- The next word of the input: the one a waiting reader gets for its ticket, or that of a new one.
-/
def nextInput (c : Core) : Option Ticket → Traced (Core × Reading)
  | none => c.receive .input
  | some ticket =>
    match c.collect .input ticket with
    | (c, some w) => ⟨(c, .ready w), []⟩
    | (c, none) => ⟨(c, .pending ticket), []⟩

/-- Serves an interrupt. It is answered with a ticket where the input has no word yet; the counter
stays until it has. -/
def interrupt (c : Core) (index : Address) (operand : Word) (ticket : Option Ticket) :
    Except Failure (Traced (Core × Option Ticket)) :=
  match Service.ofOperand? operand with
  | some .read =>
    match c.nextInput ticket with
    | ⟨(c, .pending ticket), sent⟩ => .ok ⟨(c, some ticket), sent⟩
    | ⟨(c, .ready w), sent⟩ => do
      let stored ← c.store c.x.address w
      let moved := stored.value.advance
      return ⟨(moved.value, none), sent ++ stored.signals ++ moved.signals⟩
  | some .write => .ok do return (← (← c.send .output c.x).advance, none)
  | none => .ok ⟨(c.advance.value, none), .diagnostic (.unknownService operand index)
      :: c.advance.signals⟩

end Core

namespace Execution

def text (e : Execution) : String := toString e.index.toNat ++ ": " ++ e.instruction.text

/-- Notes what an instruction is about to overwrite. An operation that the catalog does not know
only moves the counter on. -/
def prepare (c : Core) (i : Instruction) : Except Failure (Traced Execution) :=
  match i.op? with
  | none => .ok ⟨⟨c.pc, i, .nothing⟩, [.diagnostic (.unhandled i c.pc)]⟩
  | some .noop | some .loadBp | some .push | some .pop | some .call | some .ret =>
    .ok ⟨⟨c.pc, i, .nothing⟩, []⟩
  | some .set => do
    let address := (i.operand 0).address
    return ⟨⟨c.pc, i, .word address (← c.load address)⟩, []⟩
  | some .jump | some .branchIfZero | some .branchIfNotZero => .ok ⟨⟨c.pc, i, .pc c.pc⟩, []⟩
  | some _ => .ok ⟨⟨c.pc, i, .x c.x⟩, []⟩

/-- Runs the instruction, on the first try or again for a reader's ticket. The answer is a ticket if
it waits for input. -/
def perform (e : Execution) (c : Core) (ticket : Option Ticket) :
    Except Failure (Traced (Core × Option Ticket)) :=
  match e.saved with
  | .nothing => .ok do return (← c.advance, none)
  | .word address _ => do
    let stored ← c.store address c.x
    return do return (← (← stored).advance, none)
  | .pc _ => do
    let pc ← c.target e.instruction
    return do return (← c.setPc pc, none)
  | .x _ =>
    if e.instruction.op? = some .interrupt then
      c.interrupt e.index (e.instruction.operand 0) ticket
    else do
      let x ← c.result e.instruction
      return do return (← (← c.setX x).advance, none)

/-- Puts back what was noted. -/
def takeBack (e : Execution) (c : Core) : Except Failure (Traced Core) :=
  match e.saved with
  | .nothing => .ok c.retreat
  | .x previous => .ok do (← c.retreat).setX previous
  | .pc previous => .ok (c.setPc previous)
  | .word address previous => do
    let back := c.retreat
    let stored ← back.value.store address previous
    return ⟨stored.value, back.signals ++ stored.signals⟩

end Execution

end Backstep
