import Backstep.Signal
/-!
# The core of a machine

The program counter, the accumulator X, memory and two channels. Executions change the core through
the setters below, and people outside through an `Access`, so every change is signalled. The counter
wraps when it steps. What reaches past the end of memory has no answer at all.
-/

namespace Backstep

inductive Fault
  /-- A word at the address would reach past the end of memory. -/
  | pastEnd (address : Address)
  /-- The instruction behind the last address was asked for. -/
  | counterOverflow
  /-- An instruction was begun while another one waits for input. -/
  | alreadyWaiting
  /-- The operation was given up before it came to an end. -/
  | unfinished
  /-- The name hides more characters than it takes columns, so no cell of a table can hold it. -/
  | unmeasured (name : String)
deriving DecidableEq, Repr

/-- Why an operation did not do what it was asked: a problem that a user is told, or a fault. -/
inductive Failure
  | problem (p : Problem)
  | fault (f : Fault)
deriving DecidableEq

/-- What comes of an operation on a state: the state afterwards, the answer, and the signals sent.
-/
structure Reply (σ α : Type) where
  state : σ
  answer : Except Failure α
  signals : List Signal := []

namespace Reply

variable {σ τ α β : Type}

/-- The same reply, given by something that the state is a part of. -/
def within (r : Reply σ α) (f : σ → τ) : Reply τ α := ⟨f r.state, r.answer, r.signals⟩

def map (f : α → β) (r : Reply σ α) : Reply σ β := ⟨r.state, r.answer.map f, r.signals⟩

end Reply

structure Core where
  pc : Address := 0
  x : Word := 0
  memory : Memory
  input : Channel := {}
  output : Channel := {}
deriving DecidableEq

namespace Core

def setPc (c : Core) (pc : Address) : Traced Core := ⟨{ c with pc }, [.pc pc]⟩

def setX (c : Core) (x : Word) : Traced Core := ⟨{ c with x }, [.x x]⟩

def advance (c : Core) : Traced Core := c.setPc (c.pc + 1)

def retreat (c : Core) : Traced Core := c.setPc (c.pc - 1)

def load (c : Core) (a : Address) : Except Failure Word :=
  match c.memory.read? a with
  | some w => .ok w
  | none => .error (.fault (.pastEnd a))

def store (c : Core) (a : Address) (w : Word) : Except Failure (Traced Core) :=
  match c.memory.write? a w with
  | some memory => .ok ⟨{ c with memory }, (Memory.storeNotices a w).map .memory⟩
  | none => .error (.fault (.pastEnd a))

/-- Copies an image to the start of memory, in silence unless it does not fit. -/
def putImage (c : Core) (image : List UInt8) : Traced Core where
  value := { c with memory := c.memory.withImage image }
  signals :=
    if c.memory.size < image.length then
      [.diagnostic (.truncated image.length c.memory.size)]
    else []

def clearMemory (c : Core) : Traced Core :=
  ⟨{ c with memory := c.memory.cleared }, [.memory .cleared]⟩

def channel (c : Core) : Direction → Channel
  | .input => c.input
  | .output => c.output

def setChannel (c : Core) (channel : Channel) : Direction → Core
  | .input => { c with input := channel }
  | .output => { c with output := channel }

def send (c : Core) (direction : Direction) (w : Word) : Traced Core :=
  let (channel, notices) := (c.channel direction).write w
  ⟨c.setChannel channel direction, notices.map (.channel direction)⟩

def receive (c : Core) (direction : Direction) : Traced (Core × Reading) :=
  let (channel, reading, notices) := (c.channel direction).read
  ⟨(c.setChannel channel direction, reading), notices.map (.channel direction)⟩

def collect (c : Core) (direction : Direction) (t : Ticket) : Core × Option Word :=
  let (channel, word?) := (c.channel direction).collect t
  (c.setChannel channel direction, word?)

def take (c : Core) (direction : Direction) : Core × Option Word :=
  let (channel, word?) := (c.channel direction).take
  (c.setChannel channel direction, word?)

def drain (c : Core) (direction : Direction) : Core × List Word :=
  let (channel, words) := (c.channel direction).drain
  (c.setChannel channel direction, words)

def summary (c : Core) : String :=
  "Cpu \x7b pc: " ++ toString c.pc.toNat ++ ", x: " ++ toString c.x.toInt ++ " \x7d"

end Core

/-- What people outside may do to the memory and the channels of a core. -/
inductive Access
  | store (address : Address) (word : Word)
  | image (bytes : List UInt8)
  | clear
  | send (direction : Direction) (word : Word)
  | receive (direction : Direction)
  | collect (direction : Direction) (ticket : Ticket)
  | take (direction : Direction)
  | drain (direction : Direction)
deriving DecidableEq

inductive Access.Answer
  | nothing
  | reading (reading : Reading)
  | word? (word? : Option Word)
  | words (words : List Word)
deriving DecidableEq

def Core.access (c : Core) : Access → Reply Core Access.Answer
  | .store a w =>
    match c.store a w with
    | .ok t => ⟨t.value, .ok .nothing, t.signals⟩
    | .error failure => ⟨c, .error failure, []⟩
  | .image bytes => let t := c.putImage bytes; ⟨t.value, .ok .nothing, t.signals⟩
  | .clear => let t := c.clearMemory; ⟨t.value, .ok .nothing, t.signals⟩
  | .send way w => let t := c.send way w; ⟨t.value, .ok .nothing, t.signals⟩
  | .receive way => let t := c.receive way; ⟨t.value.1, .ok (.reading t.value.2), t.signals⟩
  | .collect way ticket => let r := c.collect way ticket; ⟨r.1, .ok (.word? r.2), []⟩
  | .take way => let r := c.take way; ⟨r.1, .ok (.word? r.2), []⟩
  | .drain way => let r := c.drain way; ⟨r.1, .ok (.words r.2), []⟩

end Backstep
