import Backstep.Listing.Reader
import Backstep.Machine.Run
import Backstep.Workbench.Bounds
import Backstep.Workbench.Log
/-!
# Sessions

A session is a machine and what the workbench remembers of it. Loading a program starts over with a
new machine, and only after nothing more can go wrong. A run goes instruction by instruction, so
that Ctrl-C can stop it and so that no input is read to an address outside memory.

Ctrl-C is part of the surroundings of a session: it comes right after changes of the program
counter, which are counted over the whole session. It stops a run before the next instruction of the
run; it does nothing to a run that has stopped anyway, or while nothing runs.
-/

namespace Backstep

namespace Signal

/-- The signal tells of a change of the program counter. -/
def movesCounter : Signal → Bool
  | .pc _ => true
  | _ => false

/-- The addresses of the words written since memory was cleared, with one more signal heard. -/
def noteWritten (written : AddressSet) : Signal → AddressSet
  | .memory (.word address _) => written.insert address ()
  | .memory .cleared => .empty
  | _ => written

end Signal

namespace Workbench

inductive FileTrouble
  | missing
  | isDirectory
  /-- Something that is no directory is named as one. -/
  | isNoDirectory
  | nameTooLong
  /-- No file can have the name. -/
  | nullInName
  /-- The text has more bytes than any text can have. -/
  | tooLong
  | notText
  /-- Any other reason, in the words of the system. -/
  | other (reason : String)
deriving DecidableEq

namespace FileTrouble

def message : FileTrouble → String
  | .missing => "No such file or directory (os error 2)"
  | .isDirectory => "Is a directory (os error 21)"
  | .isNoDirectory => "Not a directory (os error 20)"
  | .nameTooLong => "File name too long (os error 36)"
  | .nullInName => "file name contained an unexpected NUL byte"
  | .tooLong => "out of memory"
  | .notText => "stream did not contain valid UTF-8"
  | .other reason => reason

def problem (t : FileTrouble) : Problem := { cause := .stated .internalError t.message }

end FileTrouble

structure Surroundings where
  /-- The text of a file whose name a file can have. -/
  read : String → Except FileTrouble String
  /-- Ctrl-C comes right after the change of the program counter with this number, counted from one.
  -/
  interrupts : Nat → Bool := fun _ => false
  /-- The number of instructions after which a run is given up. -/
  patience : Nat

/-- Ctrl-C comes after one of the changes that follow the first number, up to the second. -/
def Surroundings.interruptsWithin (w : Surroundings) (before after : Nat) : Bool :=
  (List.range (after - before)).any fun i => w.interrupts (before + i + 1)

def Surroundings.text (w : Surroundings) (file : String) : Except FileTrouble String :=
  if file.toList.contains '\x00' then .error .nullInName
  else match w.read file with
    | .error t => .error t
    | .ok text => if text.utf8ByteSize < UInt64.size / 2 then .ok text else .error .tooLong

structure Session where
  memorySize : Nat
  machine : Machine
  /-- The addresses of the words written since the program was loaded or memory cleared. -/
  written : AddressSet := .empty
  named : AddressSet := .empty
  pace : Pace := .program
  moves : Nat := 0

namespace Session

def ofSize (memorySize : Nat) : Session := { memorySize, machine := .ofSize memorySize }

def after (s : Session) (machine : Machine) (sent : List Signal) : Session :=
  { s with
    machine
    written := sent.foldl Signal.noteWritten s.written
    moves := s.moves + sent.countP Signal.movesCounter }

/-- The reply of the session whose machine replied so. -/
def following {α : Type} (s : Session) (r : Reply Machine α) : Reply Session α :=
  ⟨s.after r.state r.signals, r.answer, r.signals⟩

/-- Starts over with a new machine and a program, unless something is wrong with the program. -/
def load (s : Session) (listing : String) : Reply Session Unit :=
  match Program.read listing with
  | .error p => ⟨s, .error (.problem p), []⟩
  | .ok program =>
    match program.misplaced? s.memorySize with
    | some p => ⟨s, .error (.problem p), []⟩
    | none =>
      let fresh := { s with written := .empty, named := program.vars.domain }
      fresh.following ((Machine.ofSize s.memorySize).load program)

def loadFile (s : Session) (w : Surroundings) (file : String) : Reply Session Unit :=
  match w.text file with
  | .error t => ⟨s, .error (.problem t.problem), []⟩
  | .ok listing => s.load listing

/-- The next instruction reads input to an address outside memory. -/
def misplacedInput? (s : Session) : Option Problem :=
  let m := s.machine
  let reads := (m.program.bind (·.instruction? m.pc.toNat)).any fun i =>
    i.op? = some .interrupt ∧ Service.ofOperand? (i.operand 0) = some .read
  if reads ∧ ¬ Word.Fits m.core.x s.memorySize then
    some { cause := .inputAddress m.core.x s.memorySize, index := some m.pc.toNat }
  else none

/-- Drives the machine on, for at most so many more instructions. -/
def driveOn (w : Surroundings) (pace : Pace) :
    (patience : Nat) → Session → (interrupted : Bool) → Array Signal → Reply Session Event
  | 0, s, _, sent => ⟨s, .error (.fault .unfinished), sent.toList⟩
  | patience + 1, s, interrupted, sent =>
    if interrupted then ⟨s, .ok .stopped, sent.toList⟩
    else match s.misplacedInput? with
      | some p => ⟨s, .error (.problem p), sent.toList⟩
      | none =>
        let r := s.following s.machine.step
        let sent := sent ++ r.signals
        let m := r.state.machine
        match r.answer with
        | .ok .stopped =>
          if pace.stops (m.startsAt m.pc.toNat) then ⟨r.state, .ok .stopped, sent.toList⟩
          else driveOn w pace patience r.state (w.interruptsWithin s.moves r.state.moves) sent
        | answer => ⟨r.state, answer, sent.toList⟩

/-- Drives the machine at a pace, which is remembered. The first instruction is always tried. -/
def drive (s : Session) (w : Surroundings) (pace : Pace) : Reply Session Event :=
  driveOn w pace (w.patience + 1) { s with pace } false #[]

/-- The addresses that are shown if a user names none: of the words written and of the variables. -/
def notable (s : Session) : AddressSet := s.written.union s.named

end Session

end Workbench

end Backstep
