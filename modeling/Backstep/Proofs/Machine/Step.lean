import Backstep.Proofs.Machine.Deeds
/-!
# What a step replies

`Stepped` says what machine a step leaves behind. `Replied` says the whole reply, with the answer
and the signals: a step finds nothing to do, or it tries one execution, which fails, completes or
waits. Whatever has to be known of a single step beyond the machine is read off here.
-/

namespace Backstep

/-- The signal tells of no change of the registers or of memory. -/
def Signal.quiet : Signal → Bool
  | .channel _ _ | .diagnostic _ => true
  | _ => false

theorem Execution.quiet_of_prepare {c : Core} {i : Instruction} {t : Traced Execution}
    (h : prepare c i = .ok t) : ∀ σ ∈ t.signals, σ.quiet = true := by
  unfold prepare at h
  split at h
  case h_1 =>
    cases h
    exact List.forall_mem_singleton.2 rfl
  case h_8 =>
    cases hload : c.load (i.operand 0).address <;> simp only [hload] at h <;> cases h
    exact List.forall_mem_nil _
  all_goals
    cases h
    exact List.forall_mem_nil _

/-- What only has to store a word can fail with a fault alone. -/
theorem Core.fault_of_store {α : Type} {c : Core} {a : Address} {w : Word} {f : Traced Core → α}
    {failure : Failure} (h : (c.store a w >>= fun stored => pure (f stored)) = .error failure) :
    ∃ fault, failure = .fault fault := by
  unfold store at h
  split at h
  · cases h
  · cases h
    exact ⟨_, rfl⟩

theorem Core.fault_of_interrupt {c : Core} {index : Address} {operand : Word}
    {ticket : Option Ticket} {failure : Failure}
    (h : c.interrupt index operand ticket = .error failure) : ∃ fault, failure = .fault fault := by
  unfold interrupt at h
  split at h
  · split at h
    · cases h
    · exact fault_of_store h
  · cases h
  · cases h

namespace Machine

/-- The execution that a step tries, with the ticket that it waits for, if it does, and what is sent
before it runs. -/
inductive Tries (m : Machine) : Execution → Option Ticket → List Signal → Prop
  | begun {x : Execution} {noted : List Signal} (hidle : m.suspended = none)
      (hnext : m.next? = some x.instruction)
      (hprepare : Execution.prepare m.core x.instruction = .ok ⟨x, noted⟩) :
      Tries m x none (noted ++ [.diagnostic (.doing x.index x.instruction)])
  | again {s : Suspended} (hwaits : m.suspended = some s) :
      Tries m s.execution (some s.ticket) []

/-- The machine after an execution is complete. -/
def filed (m : Machine) (x : Execution) (core : Core) : Machine :=
  { m with core, past := x :: m.past, suspended := none }

/-- The machine while an execution waits for the word of a ticket. -/
def parked (m : Machine) (x : Execution) (core : Core) (ticket : Ticket) : Machine :=
  { m with core, suspended := some ⟨x, ticket⟩ }

inductive Replied (m : Machine) : Reply Machine Event → Prop
  | unprogrammed (hprogram : m.program = none) :
      Replied m ⟨m, .error (.problem { cause := .nothingToRun }), []⟩
  | ended (hidle : m.suspended = none) (hdone : m.isDone = true) : Replied m ⟨m, .ok .ended, []⟩
  | unprepared {i : Instruction} {failure : Failure} (hidle : m.suspended = none)
      (hnext : m.next? = some i) (hprepare : Execution.prepare m.core i = .error failure) :
      Replied m ⟨m, .error (m.located failure), []⟩
  | failed {x : Execution} {ticket : Option Ticket} {sent : List Signal} {failure : Failure}
      (htries : m.Tries x ticket sent) (hperform : x.perform m.core ticket = .error failure) :
      Replied m ⟨m, .error (m.located failure), sent⟩
  | completed {x : Execution} {ticket : Option Ticket} {sent signals : List Signal} {core : Core}
      (htries : m.Tries x ticket sent)
      (hperform : x.perform m.core ticket = .ok ⟨(core, none), signals⟩) :
      Replied m ⟨m.filed x core, .ok (if (m.filed x core).isDone then .ended else .stopped),
        sent ++ signals⟩
  | waits {x : Execution} {ticket : Option Ticket} {waits : Ticket} {sent signals : List Signal}
      {core : Core} (htries : m.Tries x ticket sent)
      (hperform : x.perform m.core ticket = .ok ⟨(core, some waits), signals⟩) :
      Replied m ⟨m.parked x core waits, .ok .input, sent ++ signals⟩

private theorem replied_attempt {m : Machine} {x : Execution} {ticket : Option Ticket}
    {sent : List Signal} (htries : m.Tries x ticket sent) :
    m.Replied (m.following (m.toEngine.attempt x ticket sent)) := by
  unfold Engine.attempt
  split
  · rename_i failure hperform
    exact .failed htries hperform
  · rename_i core signals hperform
    exact .completed htries hperform
  · rename_i core waits signals hperform
    exact .waits htries hperform

theorem replied_step (m : Machine) : m.Replied m.step := by
  unfold step
  split
  · rename_i hprogram
    exact .unprogrammed hprogram
  · rename_i p hprogram
    split
    · rename_i hwaiting
      obtain ⟨s, hwaits⟩ := Option.isSome_iff_exists.1 hwaiting
      simp only [Engine.retry, hwaits]
      exact replied_attempt (.again hwaits)
    · rename_i hwaiting
      have hidle : m.suspended = none := by simpa [Engine.isWaiting] using hwaiting
      split
      · rename_i hinstruction
        refine .ended hidle ?_
        rw [isDone, hprogram, Option.any_some, decide_eq_true_eq]
        exact Array.getElem?_eq_none_iff.1 hinstruction
      · rename_i i hinstruction
        have hnext : m.next? = some i := by simp [next?, hprogram, hinstruction]
        simp only [Engine.execute, if_neg hwaiting]
        cases hprepare : Execution.prepare m.core i with
        | error failure => exact .unprepared hidle hnext hprepare
        | ok t =>
          obtain ⟨x, noted⟩ := t
          obtain ⟨rfl, -⟩ := Execution.prepared_of_prepare hprepare
          exact replied_attempt (.begun hidle hnext hprepare)

variable {m : Machine}

/-- Nothing is changed before the execution runs. -/
theorem Tries.quiet {x : Execution} {ticket : Option Ticket} {sent : List Signal}
    (h : m.Tries x ticket sent) : ∀ σ ∈ sent, σ.quiet = true := by
  cases h with
  | begun _ _ hprepare =>
    exact List.forall_mem_append.2
      ⟨Execution.quiet_of_prepare hprepare, List.forall_mem_singleton.2 rfl⟩
  | again => exact List.forall_mem_nil _

/-- A step that fails leaves the machine as it was. -/
theorem state_of_error {failure : Failure} (h : m.step.answer = .error failure) :
    m.step.state = m := by
  have hreplied := m.replied_step
  generalize m.step = r at h hreplied
  cases hreplied with
  | unprogrammed | unprepared | failed => rfl
  | ended | completed | waits => cases h

/-- A step after which the run may go on has completed an execution. -/
theorem completed_of_stopped (h : m.step.answer = .ok .stopped) :
    ∃ x core, m.step.state = m.filed x core := by
  have hreplied := m.replied_step
  generalize m.step = r at h hreplied
  cases hreplied with
  | completed => exact ⟨_, _, rfl⟩
  | unprogrammed | unprepared | failed | ended | waits => cases h

end Machine

end Backstep
