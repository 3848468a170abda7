import Backstep.Machine.Reversible
/-!
# Runs

A run takes instruction after instruction until its pace lets it stop, the program waits for input
or ends, or an instruction fails. A program need not come to an end, so a run is given the number of
instructions after which it is given up; that it was given up is a fault of its own.
-/

namespace Backstep

inductive Pace
  | instruction
  | statement
  | program
deriving DecidableEq, Repr

/-- A run of this pace stops between two instructions, if the next one starts a statement or not. -/
def Pace.stops (pace : Pace) (atStart : Bool) : Bool :=
  match pace with
  | .instruction => true
  | .statement => atStart
  | .program => false

namespace Machine

/-- Runs on, for at most so many more instructions. -/
def runOn (pace : Pace) : (patience : Nat) → Machine → Array Signal → Reply Machine Event
  | 0, m, sent => ⟨m, .error (.fault .unfinished), sent.toList⟩
  | patience + 1, m, sent =>
    let r := m.step
    let sent := sent ++ r.signals
    match r.answer with
    | .ok .stopped =>
      if pace.stops (r.state.startsAt r.state.pc.toNat) then ⟨r.state, .ok .stopped, sent.toList⟩
      else runOn pace patience r.state sent
    | answer => ⟨r.state, answer, sent.toList⟩

/-- Runs at a pace. The first instruction is always tried. -/
def run (m : Machine) (pace : Pace) (patience : Nat) : Reply Machine Event :=
  runOn pace (patience + 1) m #[]

end Machine

inductive Operation
  | load (program : Program)
  | run (pace : Pace)
  | undo
  | undoStatement
  | reset
  | access (a : Access)
deriving DecidableEq

inductive Operation.Answer
  | done
  | event (e : Event)
  | access (a : Access.Answer)
deriving DecidableEq

/-- Does an operation, giving up a run after so many instructions. -/
def Machine.perform (m : Machine) (patience : Nat) : Operation → Reply Machine Operation.Answer
  | .load program => (m.load program).map fun _ => .done
  | .run pace => (m.run pace patience).map .event
  | .undo => m.undo.map fun _ => .done
  | .undoStatement => m.undoStatement.map fun _ => .done
  | .reset => m.reset.map fun _ => .done
  | .access a => (m.access a).map .access

end Backstep
