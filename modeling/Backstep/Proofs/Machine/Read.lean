import Backstep.Proofs.Machine.Deeds
/-!
# Steps of a READ

A READ that finds a word takes it, one that finds none leaves with a ticket, and one that waits gets
the word laid aside for its ticket as soon as there is one. In each case the step is known from the
state of the input: a READ that gets a word leaves the machine `received`, wherever the word comes
from, and any other step leaves the history as it is.
-/

namespace Backstep

namespace Execution

theorem prepare_of_reads {c : Core} {i : Instruction} (hreads : i.reads = true) :
    prepare c i = .ok ⟨⟨c.pc, i, .x c.x⟩, []⟩ := by
  obtain ⟨hop, -⟩ := Instruction.reads_iff.1 hreads
  simp only [prepare, hop]

theorem perform_of_pending {x : Execution} {c c' : Core} {old : Word} {ticket : Option Ticket}
    {waits : Ticket} {sent : List Signal} (hreads : x.instruction.reads = true)
    (hsaved : x.saved = .x old) (hinput : c.nextInput ticket = ⟨(c', .pending waits), sent⟩) :
    x.perform c ticket = .ok ⟨(c', some waits), sent⟩ := by
  obtain ⟨hop, hservice⟩ := Instruction.reads_iff.1 hreads
  simp only [perform, hsaved, hop, if_true, Core.interrupt, hservice, hinput]

/-- A READ that gets its word stores it at the address in X, if it fits there. -/
theorem perform_of_ready {x : Execution} {c c' : Core} {old w : Word} {ticket : Option Ticket}
    {sent : List Signal} (hreads : x.instruction.reads = true) (hsaved : x.saved = .x old)
    (hinput : c.nextInput ticket = ⟨(c', .ready w), sent⟩) :
    match c'.memory.write? c'.x.address w with
    | some memory =>
      ∃ signals, x.perform c ticket = .ok ⟨({ c' with memory, pc := c'.pc + 1 }, none), signals⟩
    | none => ∃ failure, x.perform c ticket = .error failure := by
  obtain ⟨hop, hservice⟩ := Instruction.reads_iff.1 hreads
  simp only [perform, hsaved, hop, if_true, Core.interrupt, hservice, hinput, Core.store]
  cases c'.memory.write? c'.x.address w with
  | none => exact ⟨_, rfl⟩
  | some memory => exact ⟨_, rfl⟩

end Execution

namespace Machine

/-- The machine after a READ got a word and left the input so. A word that does not fit in memory
changes nothing. -/
def received (m : Machine) (x : Execution) (input : Channel) (w : Word) : Machine :=
  match m.core.memory.write? m.core.x.address w with
  | some memory => { m with
      core := { m.core with input, memory, pc := m.core.pc + 1 }
      past := x :: m.past
      suspended := none }
  | none => m

/-- The execution that a READ at the counter is captured as. -/
def reading (m : Machine) (i : Instruction) : Execution := ⟨m.core.pc, i, .x m.core.x⟩

variable {m : Machine} {i : Instruction}

theorem attempt_received {x : Execution} {old w : Word} {ticket : Option Ticket} {input : Channel}
    {sent signals : List Signal} (hreads : x.instruction.reads = true) (hsaved : x.saved = .x old)
    (hinput : m.core.nextInput ticket = ⟨({ m.core with input }, .ready w), signals⟩) :
    ({ m with toEngine := (m.toEngine.attempt x ticket sent).state } : Machine)
      = m.received x input w := by
  have hperform := Execution.perform_of_ready hreads hsaved hinput
  unfold received Engine.attempt
  simp only at hperform
  cases hwrite : m.core.memory.write? m.core.x.address w with
  | none =>
    simp only [hwrite] at hperform
    obtain ⟨failure, hperform⟩ := hperform
    simp only [hperform]
  | some memory =>
    simp only [hwrite] at hperform
    obtain ⟨signals, hperform⟩ := hperform
    simp only [hperform]

theorem program_of_next? (hnext : m.next? = some i) :
    ∃ p, m.program = some p ∧ p.instruction? m.pc.toNat = some i :=
  Option.bind_eq_some_iff.1 hnext

/-- A step of a machine that does not wait executes the instruction at the counter. -/
theorem step_of_idle (hidle : m.suspended = none) (hnext : m.next? = some i) :
    m.step = m.following (m.execute i) := by
  obtain ⟨p, hprogram, hinstruction⟩ := program_of_next? hnext
  have hwaiting : ¬ m.isWaiting = true := by simp [Engine.isWaiting, hidle]
  simp only [step, hprogram, if_neg hwaiting, hinstruction]

theorem step_of_prepare {x : Execution} {sent : List Signal} (hidle : m.suspended = none)
    (hnext : m.next? = some i) (hprepare : Execution.prepare m.core i = .ok ⟨x, sent⟩) :
    m.step = m.following
      (m.toEngine.attempt x none (sent ++ [.diagnostic (.doing x.index i)])) := by
  have hwaiting : ¬ m.isWaiting = true := by simp [Engine.isWaiting, hidle]
  rw [step_of_idle hidle hnext]
  simp only [Engine.execute, if_neg hwaiting, hprepare]

theorem step_of_reads (hidle : m.suspended = none) (hnext : m.next? = some i)
    (hreads : i.reads = true) :
    m.step.state = { m with toEngine := (m.toEngine.attempt (m.reading i) none
      [.diagnostic (.doing m.core.pc i)]).state } := by
  rw [step_of_prepare hidle hnext (Execution.prepare_of_reads hreads)]
  rfl

theorem step_of_buffered {w : Word} {ws : List Word} (hidle : m.suspended = none)
    (hnext : m.next? = some i) (hreads : i.reads = true) (hbuffer : m.core.input.buffer = w :: ws) :
    m.step.state = m.received (m.reading i) { m.core.input with buffer := ws } w := by
  have hinput : m.core.nextInput none
      = ⟨({ m.core with input := { m.core.input with buffer := ws } }, .ready w), []⟩ := by
    simp only [Core.nextInput, Core.receive, Core.channel, Channel.read, hbuffer, Core.setChannel,
      List.map_nil]
  rw [step_of_reads hidle hnext hreads]
  exact attempt_received hreads rfl hinput

theorem step_of_empty (hidle : m.suspended = none) (hnext : m.next? = some i)
    (hreads : i.reads = true) (hbuffer : m.core.input.buffer = []) :
    m.step.state = { m with
      core := { m.core with input := { m.core.input with
        waiting := m.core.input.waiting ++ [m.core.input.nextTicket]
        nextTicket := m.core.input.nextTicket + 1 } }
      suspended := some ⟨m.reading i, m.core.input.nextTicket⟩ } := by
  have hinput : m.core.nextInput none
      = ⟨({ m.core with input := { m.core.input with
          waiting := m.core.input.waiting ++ [m.core.input.nextTicket]
          nextTicket := m.core.input.nextTicket + 1 } }, .pending m.core.input.nextTicket),
        [.channel .input .waiting]⟩ := by
    simp only [Core.nextInput, Core.receive, Core.channel, Channel.read, hbuffer, Core.setChannel,
      List.map_cons, List.map_nil]
  have hperform := Execution.perform_of_pending (show (m.reading i).instruction.reads = true from
    hreads) rfl hinput
  rw [step_of_reads hidle hnext hreads]
  simp only [Engine.attempt, hperform]

theorem step_of_suspended {s : Suspended} (hwaits : m.suspended = some s)
    (hnext : m.next? = some i) :
    m.step.state
      = { m with toEngine := (m.toEngine.attempt s.execution (some s.ticket) []).state } := by
  obtain ⟨p, hprogram, -⟩ := program_of_next? hnext
  have hwaiting : m.isWaiting = true := by simp [Engine.isWaiting, hwaits]
  have hstep : m.step = m.following m.retry := by
    simp only [step, hprogram, if_pos hwaiting]
  rw [hstep]
  simp only [following, Engine.retry, hwaits]

theorem step_of_served {s : Suspended} {old w : Word} {input : Channel}
    (hwaits : m.suspended = some s) (hnext : m.next? = some i)
    (hreads : s.execution.instruction.reads = true) (hsaved : s.execution.saved = .x old)
    (hcollect : m.core.input.collect s.ticket = (input, some w)) :
    m.step.state = m.received s.execution input w := by
  have hinput : m.core.nextInput (some s.ticket) = ⟨({ m.core with input }, .ready w), []⟩ := by
    simp only [Core.nextInput, Core.collect, Core.channel, hcollect, Core.setChannel]
  rw [step_of_suspended hwaits hnext]
  exact attempt_received hreads hsaved hinput

theorem step_of_unserved {s : Suspended} {old : Word} (hwaits : m.suspended = some s)
    (hnext : m.next? = some i) (hreads : s.execution.instruction.reads = true)
    (hsaved : s.execution.saved = .x old)
    (hcollect : m.core.input.collect s.ticket = (m.core.input, none)) : m.step.state = m := by
  have hinput : m.core.nextInput (some s.ticket) = ⟨(m.core, .pending s.ticket), []⟩ := by
    simp only [Core.nextInput, Core.collect, Core.channel, hcollect, Core.setChannel]
  rw [step_of_suspended hwaits hnext]
  simp only [Engine.attempt, Execution.perform_of_pending hreads hsaved hinput, ← hwaits]

end Machine

end Backstep
