import Backstep.Text.Joint
/-!
# Terminal styles

A style is switched on before a text and off behind it, by sequences of characters that a terminal
obeys and does not show. They start with an escape and a bracket and end with an `m`. The escape
itself counts as one column all the same.
-/

namespace Backstep.Text

def styled (style text : String) : String := "\x1b[" ++ style ++ "m" ++ text ++ "\x1b[0m"

def bold (text : String) : String := styled "1" text

def dimmed (text : String) : String := styled "2" text

def boldYellow (text : String) : String := styled "1;33" text

/-- How far the reader of a text is into a sequence that sets a style. -/
inductive Styling
  | outside
  | escaped
  | inside
deriving DecidableEq, Repr

/-- One column for a character that takes any by itself and is no control. -/
def shownOnce (c : Char) : Nat := if isControl c || columns c == 0 then 0 else 1

/-- The columns that sequences which set a style hide, one for each of their characters. -/
def hidden (cs : List Char) : Nat := go .outside cs
where
  go : Styling → List Char → Nat
    | _, [] => 0
    | .outside, c :: cs => go (if c = '\x1b' then .escaped else .outside) cs
    | .escaped, c :: cs => if c = '[' then shownOnce c + go .inside cs else go .outside cs
    | .inside, c :: cs => shownOnce c + go (if c = 'm' then .outside else .inside) cs

/-- The columns that a text takes without what its style sequences hide. It is negative for a text
that hides joined characters, since these are hidden one by one. -/
def width (cs : List Char) : Int := extent cs - hidden cs

/-- The text with blanks behind it up to a number of characters. -/
def padRight (size : Nat) (text : String) : String :=
  text ++ String.ofList (List.replicate (size - text.length) ' ')

end Backstep.Text
