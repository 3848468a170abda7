import Backstep.Invocation
import Backstep.Workbench.Console
/-!
# The program

Reads what is typed, hands it to the console and writes what the console says. Files are read here;
everything else is decided by the console.
-/

namespace Backstep.Workbench

/-- Reads the text of a file. An error knows the name only if the file could not be opened; a
directory opens like a file and fails when it is read. -/
def readListing (file : String) : IO (Except FileTrouble String) := do
  try
    let bytes ← IO.FS.readBinFile file
    match String.fromUTF8? bytes with
    | some text => return .ok text
    | none => return .error .notText
  catch
    | .noFileOrDirectory .. => return .error .missing
    | .inappropriateType none .. => return .error .isDirectory
    | .inappropriateType (some _) .. => return .error .isNoDirectory
    | .invalidArgument .. => return .error .nameTooLong
    | .permissionDenied .. => return .error (.other "Permission denied (os error 13)")
    | e => return .error (.other (toString e))

/-- The surroundings of one turn, in which at most the given file is read. Runs are not given up in
any time that anyone would wait. -/
def surroundings (file? : Option String) : IO Surroundings := do
  let content ← match file? with
    | some file => readListing file
    | none => pure (.error .missing)
  return { read := fun _ => content, patience := UInt64.size / 4 }

def readTyped : IO Typed := do
  let line ← (← IO.getStdin).getLine
  if line.isEmpty then return .endOfInput
  let cs := line.toList
  return .line (String.ofList (if cs.getLast? = some '\n' then cs.dropLast else cs))

/-- Writes what the console says, and the log on the other stream. -/
def say (verbosity : Nat) (r : Response) : IO Unit := do
  for line in Transcript.log r do
    if line.isShownAt verbosity then IO.eprintln line.shown
  IO.print r.out
  (← IO.getStdout).flush

partial def converse (verbosity : Nat) (turn : Except Fault Turn) : IO UInt32 := do
  match turn with
  | .error _ => return 101
  | .ok turn =>
    say verbosity turn.response
    match turn.console with
    | none => return 0
    | some c =>
      IO.print c.prompt.text
      (← IO.getStdout).flush
      let typed ← readTyped
      let file? := match c.prompt, typed with
        | .command, .line line => (Request.ofLine line).file?
        | _, _ => none
      converse verbosity (c.respond (← surroundings file?) typed)

end Backstep.Workbench

open Backstep Workbench in
def main (arguments : List String) : IO UInt32 := do
  match Invocation.ofArguments arguments with
  | .tell text =>
    IO.print text
    return 0
  | .refuse message =>
    IO.eprintln message
    return 2
  | .session memorySize verbosity program? =>
    let w ← surroundings program?
    converse verbosity (Console.start w memorySize program?)
