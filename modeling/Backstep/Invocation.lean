import Backstep.Machine.Reversible
import Backstep.Text.Numeral
import Backstep.Text.Plain
/-!
# The command line

The arguments ask for a session, for the help or the version, or they are refused. They are read
from left to right and the first of these to come up wins. A value that stands apart from its
option, and the name of the program, are looked at only when the next argument has turned out to be
known, so an unknown argument is reported before a bad value in front of it.
-/

namespace Backstep

/-- What the arguments ask for. -/
inductive Invocation
  | session (memorySize verbosity : Nat) (program? : Option String)
  | tell (text : String)
  | refuse (message : String)
deriving DecidableEq

namespace Invocation

def version : String := "tokiwen 0.3.0\n"

def help : String :=
  "Step through and undo Tokiwen programs\n" ++
  "\n" ++
  "Usage: tokiwen [OPTIONS] [PROGRAM]\n" ++
  "\n" ++
  "Arguments:\n" ++
  "  [PROGRAM]  Program listing to load at startup\n" ++
  "\n" ++
  "Options:\n" ++
  "      --memory-size <MEMORY_SIZE>  Bytes of word memory [default: 65536]\n" ++
  "  -v, --verbose...                 Print diagnostics on stderr; repeat for more detail\n" ++
  "  -h, --help                       Print help\n" ++
  "  -V, --version                    Print version\n"

/-- What was given, between quotes and without anything that a terminal would obey. -/
private def quote (s : String) : String :=
  "\x27" ++ String.ofList (Text.plain s.toList) ++ "\x27"

def refused (message : String) : Invocation :=
  .refuse (String.ofList (Text.firstLine message.toList))

/-- The option for the size of memory, as messages show it. -/
def sizeOption : String := quote "--memory-size <MEMORY_SIZE>"

def unexpected (argument : String) : Invocation :=
  refused ("error: unexpected argument " ++ quote argument ++ " found")

def unneeded (value option : String) : Invocation :=
  refused ("error: unexpected value " ++ quote value ++ " for " ++ quote option
    ++ " found; no more were expected")

def missing (shown : String) : Invocation :=
  refused ("error: a value is required for " ++ shown ++ " but none was supplied")

def repeated (shown : String) : Invocation :=
  refused ("error: the argument " ++ shown ++ " cannot be used multiple times")

def invalid (value shown reason : String) : Invocation :=
  refused ("error: invalid value " ++ quote value ++ " for " ++ shown ++ ": " ++ reason)

def reason : Numeral.Failure → String
  | .empty => "cannot parse integer from empty string"
  | .badDigit => "invalid digit found in string"
  | .tooLarge => "number too large to fit in target type"

/-- What was given last and has not been looked at. -/
inductive Held
  | nothing
  /-- The option for the size of memory, with its value if that has come. -/
  | size (value? : Option String)
  | program (name : String)
deriving DecidableEq

structure Seen where
  memorySize? : Option Nat := none
  verbosity : Nat := 0
  program? : Option String := none
  held : Held := .nothing
  named : Bool := false
  ended : Bool := false
deriving DecidableEq

namespace Seen

def setSize (s : Seen) (value : String) : Except Invocation Seen :=
  if s.memorySize?.isSome then .error (repeated sizeOption)
  else match Numeral.natural 10 UInt64.size value.toList with
    | .ok size => .ok { s with memorySize? := some size, held := .nothing }
    | .error failure => .error (invalid value sizeOption (reason failure))

def settle (s : Seen) : Except Invocation Seen :=
  match s.held with
  | .nothing => .ok s
  | .size none => .error (missing sizeOption)
  | .size (some value) => s.setSize value
  | .program "" => .error (missing (quote "[PROGRAM]"))
  | .program name => .ok { s with program? := some name, held := .nothing }

def raise (s : Seen) : Seen := { s with verbosity := s.verbosity + 1 }

def long (s : Seen) (name : String) (value? : Option String) : Except Invocation Seen :=
  match name, value? with
  | "memory-size", some value => do (← s.settle).setSize value
  | "memory-size", none => return { (← s.settle) with held := .size none }
  | "verbose", some value => .error (unneeded value "--verbose...")
  | "verbose", none => return (← s.settle).raise
  | "help", some value => .error (unneeded value "--help")
  | "help", none => do let _ ← s.settle; throw (.tell help)
  | "version", some value => .error (unneeded value "--version")
  | "version", none => do let _ ← s.settle; throw (.tell version)
  | _, _ => .error (unexpected ("--" ++ name))

/-- Reads options of one letter each. -/
def short (s : Seen) : List Char → Except Invocation Seen
  | [] => .ok s
  | 'v' :: rest => do short (← s.settle).raise rest
  | 'h' :: _ => do let _ ← s.settle; throw (.tell help)
  | 'V' :: _ => do let _ ← s.settle; throw (.tell version)
  | c :: _ => .error (unexpected (String.ofList ['-', c]))

/-- Reads an argument that is no option: a value that an option waits for, or the program. -/
def plain (s : Seen) (argument : String) : Except Invocation Seen :=
  if s.held = .size none ∧ ¬ s.ended then .ok { s with held := .size (some argument) }
  else if s.named then .error (unexpected argument)
  else return { (← s.settle) with held := .program argument, named := true }

def argument (s : Seen) (argument : String) : Except Invocation Seen :=
  if s.ended then s.plain argument
  else match argument.toList with
    | ['-', '-'] => .ok { s with ended := true }
    | '-' :: '-' :: cs =>
      let name := String.ofList (cs.takeWhile (· != '='))
      match cs.dropWhile (· != '=') with
      | [] => s.long name none
      | _ :: value => s.long name (some (String.ofList value))
    | '-' :: c :: cs => s.short (c :: cs)
    | _ => s.plain argument

end Seen

def ofArguments (arguments : List String) : Invocation :=
  match arguments.foldlM Seen.argument {} >>= Seen.settle with
  | .ok s => .session (s.memorySize?.getD defaultMemorySize) s.verbosity s.program?
  | .error answer => answer

end Invocation

end Backstep
