import Backstep.Rendezvous
import Backstep.Problem
import Backstep.Program.Basic
/-!
# Signals

A running machine is watched. Every change of a register, of memory and of a channel is a notice to
observers, and some happenings are also worth a line in a log. Nothing that sends signals can read
them back, so they are kept beside the values that operations compute: in the order in which they
were sent, and apart from the state.
-/

namespace Backstep

inductive Direction
  | input
  | output
deriving DecidableEq, Repr

/-- How much a line of a log matters, the most first. -/
inductive Level
  | warn
  | info
  | debug
  | trace
deriving DecidableEq, Repr

namespace Level

def name : Level → String
  | .warn => "WARN"
  | .info => "INFO"
  | .debug => "DEBUG"
  | .trace => "TRACE"

/-- Zero for the level that matters most. -/
def rank : Level → Nat
  | .warn => 0
  | .info => 1
  | .debug => 2
  | .trace => 3

end Level

structure LogLine where
  level : Level
  text : String
deriving DecidableEq

/-- What a machine has to report of its own accord. -/
inductive Diagnostic
  | truncated (imageSize memorySize : Nat)
  | unhandled (instruction : Instruction) (index : Address)
  | unknownService (operand : Word) (index : Address)
  | loaded (program : Program)
  | doing (index : Address) (instruction : Instruction)
  | undoing (index : Address) (instruction : Instruction)
deriving DecidableEq

def Diagnostic.line : Diagnostic → LogLine
  | .truncated imageSize memorySize =>
    ⟨.warn, "data segment of " ++ toString imageSize ++ " bytes truncated to memory size "
      ++ toString memorySize⟩
  | .unhandled instruction index =>
    ⟨.warn, "no handler for instruction " ++ instruction.mnemonic ++ " at "
      ++ toString index.toNat ++ ", treating it as NOOP"⟩
  | .unknownService operand index =>
    ⟨.warn, "unknown syscall " ++ toString operand.toInt ++ " at " ++ toString index.toNat⟩
  | .loaded program =>
    ⟨.info, "loaded program: " ++ toString program.size ++ " instructions, "
      ++ toString program.data.size ++ " data bytes, " ++ toString program.vars.size
      ++ " variables"⟩
  | .doing index instruction =>
    ⟨.debug, "do " ++ toString index.toNat ++ ": " ++ instruction.text⟩
  | .undoing index instruction =>
    ⟨.debug, "undo " ++ toString index.toNat ++ ": " ++ instruction.text⟩

inductive Signal
  | loaded (program : Program)
  | pc (value : Address)
  | x (value : Word)
  | memory (notice : Memory.Notice)
  | channel (direction : Direction) (notice : Channel.Notice)
  | diagnostic (d : Diagnostic)
deriving DecidableEq

/-- A value, and the signals that were sent on the way to it. -/
structure Traced (α : Type) where
  value : α
  signals : List Signal := []

namespace Traced

variable {α β : Type}

instance : Monad Traced where
  pure a := ⟨a, []⟩
  bind t f :=
    let u := f t.value
    ⟨u.value, t.signals ++ u.signals⟩

@[simp] theorem signals_bind (t : Traced α) (f : α → Traced β) :
    (t >>= f).signals = t.signals ++ (f t.value).signals := rfl

end Traced

end Backstep
