import Backstep.Machine.Semantics
/-!
# Engines

An engine is a core with the executions that brought it where it is, the latest first. An execution
joins them when it is complete and is reverted when it is taken off. One that waits for input is
kept apart, and until it is complete nothing else runs and nothing is undone.
-/

namespace Backstep

inductive Completion
  | complete
  | waiting
deriving DecidableEq, Repr

/-- An execution that waits for the word of its ticket. -/
structure Suspended where
  execution : Execution
  ticket : Ticket
deriving DecidableEq

structure Engine where
  core : Core
  /-- The executions that are complete, the latest first. -/
  past : List Execution := []
  suspended : Option Suspended := none
deriving DecidableEq

namespace Engine

def isWaiting (e : Engine) : Bool := e.suspended.isSome

/-- Runs a captured execution and files it as complete or as waiting. A failure changes nothing. -/
def attempt (e : Engine) (x : Execution) (ticket : Option Ticket) (sent : List Signal) :
    Reply Engine Completion :=
  match x.perform e.core ticket with
  | .error failure => ⟨e, .error failure, sent⟩
  | .ok ⟨(core, none), signals⟩ => ⟨⟨core, x :: e.past, none⟩, .ok .complete, sent ++ signals⟩
  | .ok ⟨(core, some ticket), signals⟩ =>
    ⟨⟨core, e.past, some ⟨x, ticket⟩⟩, .ok .waiting, sent ++ signals⟩

/-- Runs an instruction at the counter. An engine that waits has no answer to that. -/
def execute (e : Engine) (i : Instruction) : Reply Engine Completion :=
  if e.isWaiting then ⟨e, .error (.fault .alreadyWaiting), []⟩
  else match Execution.prepare e.core i with
  | .error failure => ⟨e, .error failure, []⟩
  | .ok ⟨x, signals⟩ => e.attempt x none (signals ++ [.diagnostic (.doing x.index i)])

/-- Tries again to complete the execution that waits, if one does. -/
def retry (e : Engine) : Reply Engine Completion :=
  match e.suspended with
  | none => ⟨e, .ok .complete, []⟩
  | some s => e.attempt s.execution (some s.ticket) []

def undo (e : Engine) : Reply Engine Execution :=
  match e.suspended, e.past with
  | some _, _ => ⟨e, .error (.problem { cause := .undoWhilePending }), []⟩
  | none, [] => ⟨e, .error (.problem { cause := .emptyHistory }), []⟩
  | none, x :: past =>
    let sent := .diagnostic (.undoing x.index x.instruction)
    match x.takeBack e.core with
    | .error failure => ⟨e, .error failure, [sent]⟩
    | .ok ⟨core, signals⟩ => ⟨⟨core, past, none⟩, .ok x, sent :: signals⟩

/-- Takes executions back until the counter is where it shall stop, or none is left. -/
def rewind (stop : Address → Bool) (core : Core) (past : List Execution) (sent : Array Signal) :
    Reply Engine Unit :=
  match past with
  | [] => ⟨⟨core, [], none⟩, .ok (), sent.toList⟩
  | x :: past =>
    let sent := sent.push (.diagnostic (.undoing x.index x.instruction))
    match x.takeBack core with
    | .error failure => ⟨⟨core, x :: past, none⟩, .error failure, sent.toList⟩
    | .ok ⟨core, signals⟩ =>
      if stop core.pc then ⟨⟨core, past, none⟩, .ok (), (sent ++ signals).toList⟩
      else rewind stop core past (sent ++ signals)

/-- The executions in one line, the oldest first. -/
def journal (e : Engine) : String :=
  "[" ++ ", ".intercalate (e.past.reverse.map fun x => "\"" ++ x.text ++ "\"") ++ "]"

end Engine

end Backstep
