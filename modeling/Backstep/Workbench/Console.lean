import Backstep.Workbench.Command
import Backstep.Workbench.Panel
import Backstep.Workbench.Session
/-!
# The console

The console of the workbench has two prompts. At one, commands are typed; at the other, numbers for
a program that waits for input. A number resumes the run that came to wait, at its own pace. A line
that is no number is asked for again, and an interrupt goes back to the commands, with the program
still waiting; any run asks again. Everything that is written goes out before the next prompt.
-/

namespace Backstep.Workbench

open Text (bold)

inductive Prompt
  | command
  | value
deriving DecidableEq, Repr

def Prompt.text : Prompt → String
  | .command => "> "
  | .value => "? "

inductive Typed
  | line (text : String)
  | interrupt
  | quit
  | endOfInput
deriving DecidableEq

/-- What comes of something typed, besides a change of the console. -/
structure Response where
  remembered : List String := []
  /-- The words that the program put out. -/
  printed : List Word := []
  /-- What the workbench shows after them. -/
  shown : String := ""
  cancelled : Bool := false
  signals : List Signal := []

/-- Everything that is written: the words of the program, one to a line, and what is shown. -/
def Response.out (r : Response) : String :=
  String.join (r.printed.map fun w => toString w.toInt ++ "\n") ++ r.shown

inductive Next
  | leave
  /-- Go on, and ask for a number if the program waits for one. -/
  | goOn (asks : Bool)
deriving DecidableEq

structure Outcome where
  session : Session
  printed : List Word := []
  shown : String := ""
  answer : Except Failure Next
  signals : List Signal := []

def readNumber (cs : List Char) : Except Failure Word :=
  match Numeral.word? (Text.trim cs) with
  | some w => .ok w
  | none => .error (.problem { cause := .notANumber (String.ofList (Text.trim cs)) })

namespace Session

/-- Takes what a run put out, and shows where it left the machine. -/
def afterRun (r : Reply Session Event) : Outcome :=
  let (core, printed) := r.state.machine.core.drain .output
  let session := { r.state with machine := { r.state.machine with core } }
  let registers := (Panel.status session.machine).text
  let (shown, answer) := match r.answer with
    | .ok .stopped => (registers, .ok (.goOn false))
    | .ok .input => (registers, .ok (.goOn true))
    | .ok .ended => (registers ++ bold "END" ++ "\n", .ok (.goOn false))
    | .error failure => ("", .error failure)
  { session, printed, shown, answer, signals := r.signals }

/-- Shows something once an operation has done what it was asked. -/
def showing {α : Type} (r : Reply Session α) (text : Session → String) : Outcome where
  session := r.state
  shown := if r.answer.isOk then text r.state else ""
  answer := r.answer.map fun _ => .goOn false
  signals := r.signals

def registers (s : Session) : String := (Panel.status s.machine).text

/-- Shows a text and leaves the session as it is. -/
def print (s : Session) (text : Except Failure String) : Outcome where
  session := s
  shown := text.toOption.getD ""
  answer := text.map fun _ => .goOn false

/-- The addresses of the words that are asked for. -/
def wordsToShow (s : Session) : List (List Char) → Except Failure (List Address)
  | [] => .ok s.notable.keys
  | start :: rest => do
    let start ← readNumber start
    let count ← match rest with
      | [] => pure 1
      | count :: _ => readNumber count
    match wordsFrom? s.memorySize start count with
    | some addresses => return addresses
    | none => throw (.problem { cause := .memoryEnd s.memorySize })

def executionsToShow : List (List Char) → Except Failure Nat
  | [] => .ok 10
  | count :: _ => return (← readNumber count).toInt.toNat

def help : String :=
  String.join (Command.all.map fun c => Text.padRight 6 c.name ++ " " ++ c.usage ++ "\n")

def loaded (s : Session) : String :=
  toString (s.machine.program.elim 0 (·.size)) ++ " instructions loaded\n"

def obey (s : Session) (w : Surroundings) (arguments : List (List Char)) : Command → Outcome
  | .step => afterRun (s.drive w .instruction)
  | .next => afterRun (s.drive w .statement)
  | .run => afterRun (s.drive w .program)
  | .undo => showing (s.following s.machine.undo) registers
  | .back => showing (s.following s.machine.undoStatement) registers
  | .reset => showing (s.following s.machine.reset) registers
  | .clear => showing (s.following (s.machine.access .clear)) registers
  | .regs => s.print (.ok s.registers)
  | .mem => s.print do
    return (← Panel.words s.machine (← s.wordsToShow arguments)).text
  | .vars => s.print ((Panel.declarations s.machine).map (·.text))
  | .list => s.print <|
    match s.machine.program with
    | some p => .ok (Panel.code p s.machine.pc).text
    | none => .error (.problem { cause := .noProgram })
  | .hist => s.print do
    return (Panel.executions s.machine (← executionsToShow arguments)).text
  | .ops => s.print (.ok Panel.catalog.text)
  | .load =>
    match arguments with
    | [] => s.print (.error (.problem { cause := .noFileNamed }))
    | file :: _ => showing (s.loadFile w (String.ofList file)) loaded
  | .help => s.print (.ok help)
  | .quit => { session := s, answer := .ok .leave }

end Session

structure Console where
  session : Session
  /-- A run came to wait for input, and the number has not been asked for. -/
  asks : Bool := false

/-- What the console says after something was typed. There is no console after the user has left. -/
structure Turn where
  console : Option Console
  response : Response

namespace Console

def prompt (c : Console) : Prompt :=
  if c.asks && c.session.machine.isWaiting then .value else .command

def complaint (p : Problem) : String := bold p.message ++ "\n"

def ofOutcome (o : Outcome) (remembered : List String) : Except Fault Turn :=
  let response : Response :=
    { remembered, printed := o.printed, shown := o.shown, signals := o.signals }
  match o.answer with
  | .ok (.goOn asks) => .ok ⟨some ⟨o.session, asks⟩, response⟩
  | .ok .leave => .ok ⟨none, response⟩
  | .error (.problem p) =>
    .ok ⟨some ⟨o.session, false⟩, { response with shown := o.shown ++ complaint p }⟩
  | .error (.fault fault) => .error fault

/-- Starts a session, with the program of a file if one is named. -/
def start (w : Surroundings) (memorySize : Nat) (file? : Option String) : Except Fault Turn :=
  let s := Session.ofSize memorySize
  match file? with
  | none => .ok ⟨some ⟨s, false⟩, {}⟩
  | some file => ofOutcome (Session.showing (s.loadFile w file) fun _ => "") []

/-- Takes a line that was typed at the command prompt. -/
def command (c : Console) (w : Surroundings) (line : String) : Except Fault Turn :=
  match Request.ofLine line with
  | .nothing => .ok ⟨some { c with asks := false }, {}⟩
  | .unknown word =>
    .ok ⟨some { c with asks := false },
      { remembered := [line], shown := complaint { cause := .unknownCommand word } }⟩
  | .command known arguments => ofOutcome (c.session.obey w arguments known) [line]

/-- Takes a line that was typed where a number was asked for. -/
def number (c : Console) (w : Surroundings) (line : String) : Except Fault Turn :=
  match readNumber line.toList with
  | .error (.fault fault) => .error fault
  | .error (.problem p) => .ok ⟨some { c with asks := true }, { shown := complaint p }⟩
  | .ok value =>
    let given := c.session.following (c.session.machine.access (.send .input value))
    let outcome := Session.afterRun (given.state.drive w given.state.pace)
    ofOutcome { outcome with signals := given.signals ++ outcome.signals } [line]

def respond (c : Console) (w : Surroundings) (typed : Typed) : Except Fault Turn :=
  match c.prompt, typed with
  | .command, .line line => c.command w line
  | .value, .line line => c.number w line
  | .value, .interrupt => .ok ⟨some { c with asks := false }, { cancelled := true }⟩
  | _, _ => .ok ⟨none, {}⟩

end Console

/-- What was said at a prompt; the first entry is what was said before any. -/
structure Transcript.Entry where
  asked : Option (Prompt × Typed) := none
  response : Response

/-- A session from its start to its end. -/
abbrev Transcript := List Transcript.Entry

namespace Transcript

/-- Goes on with a console until the user leaves or nothing more is typed. -/
def goOn (w : Surroundings) (c : Console) : List Typed → Except Fault Transcript
  | [] => do
    let turn ← c.respond w .endOfInput
    return [⟨some (c.prompt, .endOfInput), turn.response⟩]
  | typed :: rest => do
    let turn ← c.respond w typed
    let entries ← match turn.console with
      | some c => goOn w c rest
      | none => pure []
    return ⟨some (c.prompt, typed), turn.response⟩ :: entries

/-- The transcript of a session in which so much is typed, and then no more. -/
def ofTyped (w : Surroundings) (memorySize : Nat) (file? : Option String) (typed : List Typed) :
    Except Fault Transcript := do
  let turn ← Console.start w memorySize file?
  let entries ← match turn.console with
    | some c => goOn w c typed
    | none => pure []
  return ⟨none, turn.response⟩ :: entries

def log (r : Response) : List LogLine := r.signals.filterMap Signal.logLine?

end Transcript

end Backstep.Workbench
