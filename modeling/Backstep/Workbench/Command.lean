import Backstep.Text.Blank
/-!
# Commands

What is typed at the command prompt is a word that names a command and further words for it. Letters
of either case will do in the first word.
-/

namespace Backstep.Workbench

inductive Command
  | step | next | run | undo | back | reset | clear | regs | mem | vars | list | hist | ops | load
  | help | quit
deriving DecidableEq, Repr

namespace Command

def all : List Command :=
  [.step, .next, .run, .undo, .back, .reset, .clear, .regs, .mem, .vars, .list, .hist, .ops, .load,
   .help, .quit]

def name : Command → String
  | .step => "step"
  | .next => "next"
  | .run => "run"
  | .undo => "undo"
  | .back => "back"
  | .reset => "reset"
  | .clear => "clear"
  | .regs => "regs"
  | .mem => "mem"
  | .vars => "vars"
  | .list => "list"
  | .hist => "hist"
  | .ops => "ops"
  | .load => "load"
  | .help => "help"
  | .quit => "quit"

def usage : Command → String
  | .step => "run one instruction"
  | .next => "run one statement"
  | .run => "run until the end, an input or Ctrl-C"
  | .undo => "undo one instruction"
  | .back => "undo one statement"
  | .reset => "undo everything"
  | .clear => "zero the whole memory"
  | .regs => "show the registers"
  | .mem => "mem [ADDR [COUNT]]: show memory words"
  | .vars => "show the program variables"
  | .list => "show the program"
  | .hist => "hist [COUNT]: show the last executed instructions"
  | .ops => "show the instruction set"
  | .load => "load FILE: load a program listing"
  | .help => "show this help"
  | .quit => "leave"

/-- The lower case of a character, for those whose lower case is an ASCII letter: the capital
letters and the Kelvin sign. Others are left as they are. -/
def lowerCase (c : Char) : Char := if c = '\u212a' then 'k' else c.toLower

/-- The command of a word. One may also `exit`. -/
def ofWord? (word : List Char) : Option Command :=
  let word := String.ofList (word.map lowerCase)
  if word = "exit" then some .quit else all.find? (·.name == word)

end Command

inductive Request
  | nothing
  | unknown (word : String)
  | command (command : Command) (arguments : List (List Char))
deriving DecidableEq

def Request.ofLine (line : String) : Request :=
  match Text.words line.toList with
  | [] => .nothing
  | word :: arguments =>
    match Command.ofWord? word with
    | some known => .command known arguments
    | none => .unknown (String.ofList word)

/-- The file that a request wants to read. -/
def Request.file? : Request → Option String
  | .command .load (file :: _) => some (String.ofList file)
  | _ => none

end Backstep.Workbench
