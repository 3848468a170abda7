import Backstep.Signal
import Backstep.Text.Style
/-!
# The log

What the workbench logs of the machine that it drives: what the machine reports of its own accord,
the changes of the registers and of whole words of memory, and what happens on the channels.
-/

namespace Backstep

namespace Signal

/-- The line of the workbench's log for a signal, if it has one. -/
def logLine? : Signal → Option LogLine
  | .loaded program =>
    some ⟨.debug, "program with " ++ toString program.starts.size ++ " statements"⟩
  | .pc value => some ⟨.trace, "pc <- " ++ toString value.toNat⟩
  | .x value => some ⟨.trace, "x <- " ++ toString value.toInt⟩
  | .memory (.word address value) =>
    some ⟨.trace, "mem[" ++ toString address.toNat ++ "] <- " ++ toString value.toInt⟩
  | .memory _ => none
  | .channel direction .buffered => some ⟨.trace, directionName direction ++ ": value buffered"⟩
  | .channel direction .waiting => some ⟨.debug, directionName direction ++ ": reader waiting"⟩
  | .diagnostic d => some d.line
where
  directionName : Direction → String
    | .input => "input"
    | .output => "output"

end Signal

namespace LogLine

/-- The line as it is shown among the diagnostics. -/
def shown (l : LogLine) : String := style (Text.padRight 5 l.level.name) ++ " " ++ l.text
where
  style : String → String := match l.level with
    | .warn => Text.boldYellow
    | .info => Text.bold
    | .debug | .trace => Text.dimmed

/-- The diagnostics always have the warnings; each step of verbosity adds a level. -/
def isShownAt (l : LogLine) (verbosity : Nat) : Bool := l.level.rank ≤ verbosity

end LogLine

end Backstep
