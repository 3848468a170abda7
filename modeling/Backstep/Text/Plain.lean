/-!
# Plain text

What is left of a text when it goes to a place that is no terminal: the sequences that a terminal
obeys and the controls that are no white space are taken out, and everything else stays. A sequence
starts with an escape; a new escape breaks off the one before. White space in the middle of a
sequence stays, and so does what comes right behind it up to the next control; the sequence goes on
behind that, unless it held a character beyond ASCII.
-/

namespace Backstep.Text

/-- Where in a text, as a terminal takes it. -/
inductive Sequence
  | shown
  | opened
  /-- Behind an escape and a sign that asks for one more character. -/
  | intermediate
  /-- In a sequence of parameters behind an escape and `[`. -/
  | control
  /-- In a command to the terminal's system, which a bell can end. -/
  | command
  /-- Behind an escape and `P`, where a text for a device is announced. -/
  | announced
  /-- In the parameters of a text for a device. -/
  | parameters
  /-- Behind the parameters of a text for a device. -/
  | selector
  | device
deriving DecidableEq, Repr

namespace Sequence

/-- The character is a control that stays, also inside a sequence. -/
def isKept (c : Char) : Bool := c = '\t' || c = '\n' || c = '\x0c' || c = '\r'

/-- The character is a control of ASCII other than the last one. -/
def isLowControl (c : Char) : Bool := c.toNat < 0x20

/-- The character stays where no sequence is. -/
def isShown (c : Char) : Bool := isKept c || !(isLowControl c || c.toNat = 0x7F)

/-- The number of the character lies between two others. -/
def isWithin (first last : Nat) (c : Char) : Bool := first ≤ c.toNat && c.toNat ≤ last

/-- The text for a device ends with the character. The end is a byte of its own, and as such it is
found also in the middle of a character. -/
def endsDevice (c : Char) : Bool := (String.utf8EncodeChar c).contains 0x9C

/-- What a terminal takes the character behind an escape for. -/
def afterOpening (c : Char) : Sequence :=
  match c with
  | '[' => .control
  | ']' => .command
  | 'P' => .announced
  | 'X' | '^' | '_' => .device
  | c =>
    if isWithin 0x30 0x7E c then .shown
    else if isWithin 0x20 0x2F c then .intermediate
    else .opened

/-- Where a character leads before a text for a device. Signs of their own open the parameters and
are out of place in them, and so are any parameters behind the selector; what is out of place is
taken for the text. -/
def towardsDevice (s : Sequence) (c : Char) : Sequence :=
  if isWithin 0x40 0x7E c then .device
  else if isWithin 0x20 0x2F c then .selector
  else if isWithin 0x30 0x3B c then if s = .selector then .device else .parameters
  else if isWithin 0x3C 0x3F c then if s = .announced then .parameters else .device
  else s

/-- Where a character leads in a sequence that it would lead on like this, and whether it stays. -/
def onward (s : Sequence) (c : Char) (next : Sequence) : Sequence × Bool :=
  if isLowControl c then (s, isKept c) else (next, false)

def next (s : Sequence) (c : Char) : Sequence × Bool :=
  if c = '\x1b' then (.opened, false)
  else if c.toNat = 0x18 ∨ c.toNat = 0x1A then (.shown, false)
  else match s with
    | .shown => (.shown, isShown c)
    | .opened => s.onward c (afterOpening c)
    | .intermediate => s.onward c (if isWithin 0x30 0x7E c then .shown else s)
    | .control => s.onward c (if isWithin 0x40 0x7E c then .shown else s)
    | .command => (if c.toNat = 0x07 then .shown else s, false)
    | .announced | .parameters | .selector => (s.towardsDevice c, false)
    | .device => (if endsDevice c then .shown else s, false)

end Sequence

/-- The text without the sequences that a terminal obeys. -/
def plain (cs : List Char) : List Char := go .shown false cs
where
  /-- Reads on in a sequence, right behind a character that stays or not. -/
  go : Sequence → (stayed : Bool) → List Char → List Char
    | _, _, [] => []
    | s, stayed, c :: cs =>
      if stayed && Sequence.isShown c then c :: go (if c.toNat < 0x80 then s else .shown) true cs
      else
        let (next, stays) := s.next c
        if stays then c :: go next true cs else go next false cs

def firstLine (cs : List Char) : List Char :=
  let line := cs.takeWhile (· != '\n')
  if line.length < cs.length ∧ line.getLast? = some '\r' then line.dropLast else line

end Backstep.Text
