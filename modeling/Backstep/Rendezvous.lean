import Backstep.Word
/-!
# Rendezvous channels

A channel carries words between a running program and the world outside. A reader that comes before
its word leaves with a ticket, and the word is laid aside for that ticket when it is written. Words
go to readers in the order in which both came, so words are buffered or readers wait, never both.
-/

namespace Backstep

/-- Names a reader that came before its word. -/
abbrev Ticket := Nat

/-- What a reader gets: its word, or a ticket for it. -/
inductive Reading
  | ready (word : Word)
  | pending (ticket : Ticket)
deriving DecidableEq

structure Channel where
  /-- Words that no reader has asked for, oldest first. -/
  buffer : List Word := []
  /-- Readers without a word, oldest first. -/
  waiting : List Ticket := []
  /-- Words laid aside for readers that have not collected them. -/
  delivered : List (Ticket × Word) := []
  /-- The ticket of the next reader that has to wait. -/
  nextTicket : Ticket := 0
deriving DecidableEq

namespace Channel

/-- What observers of a channel are told: a word found no reader, or a reader found no word. -/
inductive Notice
  | buffered
  | waiting
deriving DecidableEq

/-- Gives the word to the reader that has waited longest, or buffers it. -/
def write (c : Channel) (w : Word) : Channel × List Notice :=
  match c.waiting with
  | t :: ts => ({ c with waiting := ts, delivered := c.delivered ++ [(t, w)] }, [])
  | [] => ({ c with buffer := c.buffer ++ [w] }, [.buffered])

/-- Takes the oldest buffered word, or leaves a waiting reader behind. -/
def read (c : Channel) : Channel × Reading × List Notice :=
  match c.buffer with
  | w :: ws => ({ c with buffer := ws }, .ready w, [])
  | [] =>
    ({ c with waiting := c.waiting ++ [c.nextTicket], nextTicket := c.nextTicket + 1 },
      .pending c.nextTicket, [.waiting])

/-- Hands out the word laid aside for a ticket, once. -/
def collect (c : Channel) (t : Ticket) : Channel × Option Word :=
  match c.delivered.find? (·.1 == t) with
  | some (_, w) => ({ c with delivered := c.delivered.eraseP (·.1 == t) }, some w)
  | none => (c, none)

/-- Takes the oldest buffered word, and never waits. -/
def take (c : Channel) : Channel × Option Word :=
  match c.buffer with
  | w :: ws => ({ c with buffer := ws }, some w)
  | [] => (c, none)

def drain (c : Channel) : Channel × List Word := ({ c with buffer := [] }, c.buffer)

def isWaiting (c : Channel) : Bool := !c.waiting.isEmpty

def summary (c : Channel) : String :=
  "Channel \x7b buffer: " ++ row (c.buffer.map toString) ++ ", waiting: "
    ++ row (c.waiting.map toString) ++ " \x7d"
where
  row (items : List String) : String := "[" ++ ", ".intercalate items ++ "]"

end Channel

end Backstep
