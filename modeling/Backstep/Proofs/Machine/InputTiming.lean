import Backstep.Proofs.Machine.Frame
import Backstep.Proofs.Machine.Read
/-!
# When input comes

Words are fed to the input of a running program at any moments between its steps. The program cannot
tell: it completes the same instructions, with the same effects, as if all of them had been there
from the start, only that it may have to wait. At every moment the machine that had everything from
the start is `ahead` of the other one by what it knows of the input alone, and the words that the
other one has not stored yet are `queued`, in their order, whether they are buffered or laid aside
for the READ that waits.
-/

namespace Backstep

/-- What happens at a moment: a word is fed, or the machine is called to do a step. -/
inductive Tick
  | feed (word : Word)
  | call
deriving DecidableEq

def Tick.fed : List Tick → List Word
  | [] => []
  | .feed w :: ts => w :: fed ts
  | .call :: ts => fed ts

def Tick.calls : List Tick → Nat
  | [] => 0
  | .feed _ :: ts => calls ts
  | .call :: ts => calls ts + 1

/-- What can be seen of a machine, apart from its input. -/
structure Snapshot where
  pc : Address
  x : Word
  memory : Memory
  output : Channel
  past : List Execution
deriving DecidableEq

namespace Machine

def tick (m : Machine) : Tick → Machine
  | .feed w => (m.access (.send .input w)).state
  | .call => m.step.state

def ticked (m : Machine) (ts : List Tick) : Machine := ts.foldl tick m

def snapshot (m : Machine) : Snapshot :=
  ⟨m.core.pc, m.core.x, m.core.memory, m.core.output, m.past⟩

/-- The machine after each call that completes an instruction. -/
def snapshots (m : Machine) : List Tick → List Snapshot
  | [] => []
  | .feed w :: ts => (m.tick (.feed w)).snapshots ts
  | .call :: ts =>
    if m.completes then m.step.state.snapshot :: m.step.state.snapshots ts
    else m.step.state.snapshots ts

/-- The word whose storing at the address in X is all that became of memory. -/
def stored? (m m' : Machine) : Option Word :=
  (m'.core.memory.read? m.core.x.address).filter
    fun w => m.core.memory.write? m.core.x.address w = some m'.core.memory

/-- What each READ that is completed stores. -/
def taken (m : Machine) : List Tick → List (Option Word)
  | [] => []
  | .feed w :: ts => (m.tick (.feed w)).taken ts
  | .call :: ts =>
    if m.completesRead then m.stored? m.step.state :: m.step.state.taken ts
    else m.step.state.taken ts

end Machine

/-- The words that a channel holds, those laid aside for readers first. -/
def Channel.queued (c : Channel) : List Word := c.delivered.map (·.2) ++ c.buffer

/-- The state of an input from which one reader at most takes words. -/
inductive Channel.Listening (c : Channel) : Option Ticket → Prop
  | idle (hwaiting : c.waiting = []) (hdelivered : c.delivered = []) : Listening c none
  | unserved {t : Ticket} (hbuffer : c.buffer = []) (hwaiting : c.waiting = [t])
      (hdelivered : c.delivered = []) : Listening c (some t)
  | served {t : Ticket} {w : Word} (hwaiting : c.waiting = [])
      (hdelivered : c.delivered = [(t, w)]) : Listening c (some t)

/-- A word that is fed comes last, and the reader stays the same. -/
theorem Channel.Listening.write {c : Channel} {t : Option Ticket} (h : c.Listening t) (w : Word) :
    (c.write w).1.Listening t ∧ (c.write w).1.queued = c.queued ++ [w] := by
  unfold Channel.write
  cases h with
  | idle hwaiting hdelivered =>
    simp only [hwaiting]
    exact ⟨.idle rfl hdelivered, by simp [queued]⟩
  | unserved hbuffer hwaiting hdelivered =>
    simp only [hwaiting]
    exact ⟨.served (w := w) rfl (by simp [hdelivered]), by simp [queued, hdelivered, hbuffer]⟩
  | served hwaiting hdelivered =>
    simp only [hwaiting]
    exact ⟨.served rfl hdelivered, by simp [queued]⟩

namespace Machine

/-- The machine has no reader but the READ that waits, which was captured as the counter and X still
are. -/
structure Attentive (m : Machine) : Prop where
  listening : m.core.input.Listening (m.suspended.map (·.ticket))
  parked : ∀ s, m.suspended = some s →
    ∃ i, m.next? = some i ∧ i.reads = true ∧ s.execution = m.reading i

/-- The machine that has got the words still to come as well, and so need not wait. -/
def ahead (m : Machine) (rest : List Word) : Machine :=
  { m with
    core := { m.core with input := { buffer := m.core.input.queued ++ rest } }
    suspended := none }

/-- What a call makes of a machine, and of the one ahead of it. -/
inductive Advance (m m' : Machine) : Prop
  | still (hpast : m'.past = m.past) (hqueued : m'.core.input.queued = m.core.input.queued)
      (hahead : ∀ rest, m'.ahead rest = m.ahead rest)
  | ran {x : Execution} (hpast : m'.past = x :: m.past) (hreads : x.instruction.reads = false)
      (hqueued : m'.core.input.queued = m.core.input.queued)
      (hahead : ∀ rest, (m.ahead rest).step.state = m'.ahead rest)
  | took {x : Execution} {w : Word} (hpast : m'.past = x :: m.past)
      (hreads : x.instruction.reads = true)
      (hqueued : m.core.input.queued = w :: m'.core.input.queued)
      (hwrite : m.core.memory.write? m.core.x.address w = some m'.core.memory)
      (hahead : ∀ rest, (m.ahead rest).step.state = m'.ahead rest)

theorem Advance.same (m : Machine) : Advance m m := .still rfl rfl fun _ => rfl

end Machine

theorem Core.unnoticed_input (input : Channel) : Core.Unnoticed fun c => { c with input } where
  pc _ := rfl
  x _ := rfl
  memory _ := rfl
  setPc _ _ := rfl
  setX _ _ := rfl
  setMemory _ _ := rfl
  send _ _ := rfl

namespace Machine

namespace Attentive

variable {m : Machine}

theorem step_of_quiet (h : Attentive m) (hidle : m.suspended = none)
    (hquiet : m.awaitsWord = false) : Attentive m.step.state ∧ Advance m m.step.state := by
  have hnext : ∀ {i}, m.next? = some i → i.reads = false := by
    intro i hnext
    simpa only [awaitsWord, hidle, hnext, Option.any_some] using hquiet
  -- Being ahead is a change of the input, and this step does not look at the input.
  have hahead : ∀ rest, (m.ahead rest).step.state = m.step.state.changed
      fun c => { c with input := { buffer := m.core.input.queued ++ rest } } := by
    intro rest
    have hsame : m.ahead rest
        = m.changed fun c => { c with input := { buffer := m.core.input.queued ++ rest } } := by
      simp only [ahead, changed, hidle]
    rw [hsame, step_changed (Core.unnoticed_input _) m (by simp [hquiet])]
    rfl
  have hstepped := m.stepped_step
  generalize m.step.state = m' at hstepped hahead
  cases hstepped with
  | unchanged => exact ⟨h, .same m⟩
  | @completed x core _ hcounter hprepared houtcome =>
    have hreads := hnext hcounter
    have hinput := houtcome.input hreads
    refine ⟨⟨?_, ?_⟩, .ran (x := x) rfl hreads (congrArg Channel.queued hinput) ?_⟩
    · rw [hinput]
      exact h.listening
    · intro s hwaits
      simp [hidle] at hwaits
    · intro rest
      rw [hahead]
      simp only [ahead, changed, hinput, hidle]
  | resumed hwaits => simp [hidle] at hwaits
  | parked _ hcounter _ hreads => simp [hnext hcounter] at hreads

theorem of_received {i : Instruction} {w : Word} {input : Channel} (h : Attentive m)
    (hnext : m.next? = some i) (hreads : i.reads = true)
    (hqueued : m.core.input.queued = w :: input.queued) (hlistening : input.Listening none) :
    Attentive (m.received (m.reading i) input w) ∧
      Advance m (m.received (m.reading i) input w) := by
  cases hwrite : m.core.memory.write? m.core.x.address w with
  | none =>
    have hsame : m.received (m.reading i) input w = m := by
      unfold received
      rw [hwrite]
    rw [hsame]
    exact ⟨h, .same m⟩
  | some memory =>
    have hreceived : m.received (m.reading i) input w = { m with
        core := { m.core with input, memory, pc := m.core.pc + 1 }
        past := m.reading i :: m.past
        suspended := none } := by
      unfold received
      rw [hwrite]
    rw [hreceived]
    refine ⟨⟨hlistening, ?_⟩, .took (x := m.reading i) rfl hreads hqueued hwrite ?_⟩
    · intro s hwaits
      cases hwaits
    · intro rest
      have hnext' : (m.ahead rest).next? = some i := hnext
      have hbuffer : (m.ahead rest).core.input.buffer = w :: (input.queued ++ rest) := by
        simp only [ahead, hqueued, List.cons_append]
      have hwrite' : (m.ahead rest).core.memory.write? (m.ahead rest).core.x.address w
          = some memory := hwrite
      rw [step_of_buffered rfl hnext' hreads hbuffer]
      unfold received
      simp only [hwrite']
      rfl

theorem step (h : Attentive m) : Attentive m.step.state ∧ Advance m m.step.state := by
  have hlistening := h.listening
  cases hsuspended : m.suspended with
  | none =>
    rw [hsuspended, Option.map_none] at hlistening
    cases hawaits : m.awaitsWord with
    | false => exact h.step_of_quiet hsuspended hawaits
    | true =>
      obtain ⟨i, hnext, hreads⟩ : ∃ i, m.next? = some i ∧ i.reads = true := by
        simpa only [awaitsWord, hsuspended, Option.any_eq_true] using hawaits
      cases hbuffer : m.core.input.buffer with
      | nil =>
        rw [step_of_empty hsuspended hnext hreads hbuffer]
        cases hlistening with
        | idle hwaiting hdelivered =>
          refine ⟨⟨.unserved hbuffer (by simp [hwaiting]) hdelivered, ?_⟩, .still rfl rfl ?_⟩
          · intro s hwaits
            cases hwaits
            exact ⟨i, hnext, hreads, rfl⟩
          · intro rest
            simp only [ahead, Channel.queued]
      | cons w ws =>
        rw [step_of_buffered hsuspended hnext hreads hbuffer]
        cases hlistening with
        | idle hwaiting hdelivered =>
          refine h.of_received hnext hreads ?_ (.idle hwaiting hdelivered)
          simp only [Channel.queued, hdelivered, hbuffer, List.map_nil, List.nil_append]
  | some s =>
    rw [hsuspended, Option.map_some] at hlistening
    obtain ⟨i, hnext, hreads, hexecution⟩ := h.parked s hsuspended
    have hreads' : s.execution.instruction.reads = true := hexecution ▸ hreads
    have hsaved : s.execution.saved = .x m.core.x := by rw [hexecution]; rfl
    cases hlistening with
    | unserved hbuffer hwaiting hdelivered =>
      rw [step_of_unserved hsuspended hnext hreads' hsaved (by simp [Channel.collect, hdelivered])]
      exact ⟨h, .same m⟩
    | @served _ w hwaiting hdelivered =>
      have hcollect : m.core.input.collect s.ticket
          = ({ m.core.input with delivered := [] }, some w) := by
        simp [Channel.collect, hdelivered]
      rw [step_of_served hsuspended hnext hreads' hsaved hcollect, hexecution]
      refine h.of_received hnext hreads ?_ (.idle hwaiting rfl)
      simp only [Channel.queued, hdelivered, List.map_cons, List.map_nil, List.singleton_append,
        List.nil_append]

theorem feed (h : Attentive m) (w : Word) :
    Attentive (m.tick (.feed w)) ∧
      (m.tick (.feed w)).core.input.queued = m.core.input.queued ++ [w] ∧
      ∀ rest, (m.tick (.feed w)).ahead rest = m.ahead (w :: rest) := by
  obtain ⟨hlistening, hqueued⟩ := h.listening.write w
  have hqueued' : (m.tick (.feed w)).core.input.queued = m.core.input.queued ++ [w] := hqueued
  refine ⟨⟨hlistening, h.parked⟩, hqueued', ?_⟩
  intro rest
  simp only [ahead, hqueued', List.append_assoc, List.singleton_append]
  rfl

end Attentive

/-! ### Whole schedules -/

theorem completes_of_past {m : Machine} {x : Execution} (hpast : m.step.state.past = x :: m.past) :
    m.completes = true := by
  simp [completes, hpast]

theorem completesRead_of_past {m : Machine} {x : Execution}
    (hpast : m.step.state.past = x :: m.past) : m.completesRead = x.instruction.reads := by
  simp [completesRead, completes, hpast]

/-- Whatever can be seen of a machine is seen, in this order, of the one ahead of it, if that one is
called as often. -/
theorem Attentive.snapshots {m : Machine} (h : Attentive m) (ts : List Tick) (more : Nat) :
    m.snapshots ts
      <+: (m.ahead (Tick.fed ts)).snapshots (.replicate (Tick.calls ts + more) .call) := by
  induction ts generalizing m more with
  | nil => exact List.nil_prefix
  | cons t ts ih =>
    cases t with
    | feed w =>
      obtain ⟨h', -, hahead⟩ := h.feed w
      simp only [Machine.snapshots, Tick.fed, Tick.calls]
      rw [← hahead]
      exact ih h' more
    | call =>
      obtain ⟨h', hadvance⟩ := h.step
      have hran : ∀ {x : Execution}, m.step.state.past = x :: m.past →
          (∀ rest, (m.ahead rest).step.state = m.step.state.ahead rest) →
          m.snapshots (.call :: ts) <+: (m.ahead (Tick.fed ts)).snapshots
            (.replicate (Tick.calls ts + 1 + more) .call) := by
        intro x hpast hahead
        have hpast' : (m.ahead (Tick.fed ts)).step.state.past
            = x :: (m.ahead (Tick.fed ts)).past := by
          rw [hahead]
          exact hpast
        rw [Nat.add_right_comm, List.replicate_succ]
        simp only [Machine.snapshots, completes_of_past hpast, completes_of_past hpast', if_true]
        rw [hahead]
        exact List.cons_prefix_cons.2 ⟨rfl, ih h' more⟩
      cases hadvance with
      | still hpast _ hahead =>
        have hcompletes : m.completes = false := by simp [completes, hpast]
        simp only [Machine.snapshots, hcompletes, Tick.fed, Tick.calls, Bool.false_eq_true,
          if_false]
        rw [← hahead, Nat.add_assoc, Nat.add_comm 1]
        exact ih h' (more + 1)
      | ran hpast _ _ hahead => exact hran hpast hahead
      | took hpast _ _ _ hahead => exact hran hpast hahead

/-- The words that were queued, and after them those that were fed, are the ones that READs stored
and, after them, those that are still queued. -/
theorem Attentive.taken {m : Machine} (h : Attentive m) (ts : List Tick) :
    m.taken ts ++ (m.ticked ts).core.input.queued.map some
      = (m.core.input.queued ++ Tick.fed ts).map some := by
  induction ts generalizing m with
  | nil => simp [Machine.taken, ticked, Tick.fed]
  | cons t ts ih =>
    cases t with
    | feed w =>
      obtain ⟨h', hqueued, -⟩ := h.feed w
      simp only [Machine.taken, Tick.fed, ticked, List.foldl_cons]
      rw [← ticked, ih h', hqueued, List.append_assoc, List.singleton_append]
    | call =>
      obtain ⟨h', hadvance⟩ := h.step
      have hticked : m.ticked (.call :: ts) = m.step.state.ticked ts := rfl
      rw [hticked]
      cases hadvance with
      | still hpast hqueued =>
        have hread : m.completesRead = false := by simp [completesRead, completes, hpast]
        simp only [Machine.taken, hread, Tick.fed, Bool.false_eq_true, if_false]
        rw [ih h', hqueued]
      | ran hpast hreads hqueued =>
        have hread : m.completesRead = false := (completesRead_of_past hpast).trans hreads
        simp only [Machine.taken, hread, Tick.fed, Bool.false_eq_true, if_false]
        rw [ih h', hqueued]
      | @took x w hpast hreads hqueued hwrite =>
        have hread : m.completesRead = true := (completesRead_of_past hpast).trans hreads
        have hstored : m.stored? m.step.state = some w := by
          rw [stored?, Memory.read?_write? hwrite]
          simp [hwrite]
        simp only [Machine.taken, hread, Tick.fed, if_true, List.cons_append]
        rw [ih h', hstored, hqueued]
        rfl

theorem attentive_load (memory : Memory) (p : Program) :
    Attentive ((fresh memory).load p).state := by
  refine ⟨.idle rfl rfl, ?_⟩
  intro s hwaits
  cases hwaits

/-- Words that are fed first are all that the machine has to wait for. -/
theorem snapshots_feeds (m : Machine) (ws : List Word) (ts : List Tick) :
    m.snapshots (ws.map .feed ++ ts) = (m.ticked (ws.map .feed)).snapshots ts := by
  induction ws generalizing m with
  | nil => rfl
  | cons w ws ih => exact ih _

theorem ticked_feeds {m : Machine} (hidle : m.suspended = none) (buffer : List Word)
    (hinput : m.core.input = { buffer }) (ws : List Word) :
    m.ticked (ws.map .feed) = m.ahead ws := by
  induction ws generalizing m buffer with
  | nil =>
    have hqueued : m.core.input.queued ++ [] = buffer := by
      rw [hinput]
      simp only [Channel.queued, List.map_nil, List.nil_append, List.append_nil]
    rw [ahead, hqueued, ← hinput, ← hidle]
    rfl
  | cons w ws ih =>
    have hattentive : Attentive m :=
      ⟨by rw [hinput, hidle]; exact .idle rfl rfl, by simp [hidle]⟩
    rw [← (hattentive.feed w).2.2]
    apply ih (m := m.tick (.feed w)) hidle (buffer ++ [w])
    simp only [tick, access, Core.access, Core.send, Core.channel, hinput, Channel.write,
      Core.setChannel, Reply.within]

/-- The moments at which words are fed make no difference to what a program does. Whatever is seen
of it is seen, in this order, when all of them are fed first. The READs that complete store the
words in the order in which they were fed, and those not stored are still queued. -/
theorem input_timing (memory : Memory) (p : Program) (ts : List Tick) (more : Nat) :
    let start := ((fresh memory).load p).state
    start.snapshots ts <+: start.snapshots
        ((Tick.fed ts).map .feed ++ .replicate (Tick.calls ts + more) .call) ∧
      start.taken ts ++ (start.ticked ts).core.input.queued.map some = (Tick.fed ts).map some := by
  intro start
  have hattentive : Attentive start := attentive_load memory p
  constructor
  · rw [snapshots_feeds, ticked_feeds rfl [] rfl]
    exact hattentive.snapshots ts more
  · rw [hattentive.taken ts]
    rfl

end Machine

end Backstep
