import Backstep.Proofs.Machine.InputTiming
import Backstep.Proofs.Machine.Progress
import Backstep.Proofs.Machine.Retracing
/-!
# Failing

Everything that can go wrong with an instruction is looked for before anything is changed. Besides
the lack of a program only a division by zero is a problem, and it is noticed before memory is read;
an address outside memory and the like are faults. `Fails` says where the next step fails and with
which problem. A run stops at the first such step, behind the instructions that it has completed,
and whoever runs on from there fails again.
-/

namespace Backstep

namespace Core

/-- The instruction divides by zero. An operand that it has not is 2989. -/
def DividesByZero (c : Core) (i : Instruction) : Prop :=
  (i.op? = some .divide ∨ i.op? = some .remainder) ∧ c.x = 0 ∨
    (i.op? = some .divideI ∨ i.op? = some .remainderI) ∧ i.operands[0]?.getD 2989 = 0

variable {c : Core} {i : Instruction} {p : Problem}

/-- The operand does not matter to a division by X, nor X to a division by the operand. -/
theorem DividesByZero.result (h : c.DividesByZero i) : c.result i = .error c.divisionByZero := by
  obtain ⟨hop | hop, hzero⟩ | ⟨hop | hop, hzero⟩ := h
  · simp only [Core.result, hop, hzero, if_true]
  · simp only [Core.result, hop, hzero, if_true]
  · have hoperand : i.operand 0 = 0 := hzero
    simp only [Core.result, hop, hoperand, if_true]
  · have hoperand : i.operand 0 = 0 := hzero
    simp only [Core.result, hop, hoperand, if_true]

theorem DividesByZero.reads (h : c.DividesByZero i) : i.reads = false := by
  obtain ⟨hop | hop, -⟩ | ⟨hop | hop, -⟩ := h
  all_goals simp [Instruction.reads, hop]

theorem no_problem_of_load (f : Word → Word) (a : Address) :
    f <$> c.load a ≠ .error (.problem p) := by
  unfold load
  intro h
  split at h
  · cases h
  · cases h

/-- No instruction but a division by zero computes a problem. -/
theorem dividesByZero_of_result (h : c.result i = .error (.problem p)) : c.DividesByZero i := by
  unfold result at h
  simp only at h
  split at h
  case h_7 hop =>
    split at h
    · rename_i hzero
      exact .inl ⟨.inl hop, hzero⟩
    · exact absurd h (no_problem_of_load _ _)
  case h_8 hop =>
    split at h
    · rename_i hzero
      exact .inl ⟨.inr hop, hzero⟩
    · exact absurd h (no_problem_of_load _ _)
  case h_12 hop =>
    split at h
    · rename_i hzero
      exact .inr ⟨.inl hop, hzero⟩
    · cases h
  case h_13 hop =>
    split at h
    · rename_i hzero
      exact .inr ⟨.inr hop, hzero⟩
    · cases h
  case h_1 =>
    rw [← id_map (c.load _)] at h
    exact absurd h (no_problem_of_load id _)
  all_goals first
    | cases h
    | exact absurd h (no_problem_of_load _ _)

theorem fault_of_target {failure : Failure} (h : c.target i = .error failure) :
    ∃ fault, failure = .fault fault := by
  unfold target at h
  simp only at h
  split at h
  all_goals
    split at h
    · cases h
    · split at h
      · cases h
        exact ⟨_, rfl⟩
      · cases h

end Core

namespace Execution

variable {x : Execution} {c : Core} {i : Instruction} {p : Problem}

theorem no_problem_of_prepare : prepare c i ≠ .error (.problem p) := by
  unfold prepare
  intro h
  split at h
  case h_8 =>
    simp only [Core.load] at h
    split at h
    · cases h
    · cases h
  all_goals cases h

/-- An execution that fails with a problem is of an instruction that divides by zero. -/
theorem dividesByZero_of_perform {ticket : Option Ticket}
    (h : x.perform c ticket = .error (.problem p)) :
    c.DividesByZero x.instruction ∧ .problem p = c.divisionByZero := by
  unfold perform at h
  split at h
  · cases h
  · obtain ⟨f, hfault⟩ := Core.fault_of_store h
    cases hfault
  · cases htarget : c.target x.instruction with
    | ok pc =>
      rw [htarget] at h
      cases h
    | error failure =>
      rw [htarget] at h
      cases h
      obtain ⟨f, hfault⟩ := Core.fault_of_target htarget
      cases hfault
  · split at h
    · obtain ⟨f, hfault⟩ := Core.fault_of_interrupt h
      cases hfault
    · cases hresult : c.result x.instruction with
      | ok v =>
        rw [hresult] at h
        cases h
      | error failure =>
        rw [hresult] at h
        cases h
        have hdivides := Core.dividesByZero_of_result hresult
        rw [hdivides.result] at hresult
        exact ⟨hdivides, (Except.error.inj hresult).symm⟩

/-- A division notes X before it runs. -/
theorem prepare_of_dividesByZero (h : c.DividesByZero i) :
    prepare c i = .ok ⟨⟨c.pc, i, .x c.x⟩, []⟩ ∧ i.op? ≠ some .interrupt := by
  obtain ⟨hop | hop, -⟩ | ⟨hop | hop, -⟩ := h
  all_goals
    constructor
    · simp only [prepare, hop]
    · rw [hop]
      decide

end Execution

namespace Machine

/-- The next step of the machine fails with the problem: no program is loaded, or nothing waits and
the instruction at the counter divides by zero. -/
inductive Fails (m : Machine) : Problem → Prop
  | unprogrammed (hprogram : m.program = none) : Fails m { cause := .nothingToRun }
  | division {i : Instruction} (hidle : m.suspended = none) (hnext : m.next? = some i)
      (hdivides : m.core.DividesByZero i) :
      Fails m
        { cause := .divisionByZero
          line := m.currentLine?.map (·.toNat)
          index := some m.pc.toNat }

variable {m : Machine} {p : Problem}

/-- A step that fails does nothing but tell a log what it tried. -/
theorem Fails.step (h : m.Fails p) :
    ∃ notes : List Diagnostic, m.step = ⟨m, .error (.problem p), notes.map .diagnostic⟩ := by
  cases h with
  | unprogrammed hprogram =>
    refine ⟨[], ?_⟩
    simp only [Machine.step, hprogram]
    rfl
  | @division i hidle hnext hdivides =>
    refine ⟨[.doing m.pc i], ?_⟩
    obtain ⟨hprepare, hop⟩ := Execution.prepare_of_dividesByZero hdivides
    have hperform : Execution.perform ⟨m.core.pc, i, .x m.core.x⟩ m.core none
        = .error m.core.divisionByZero := by
      simp only [Execution.perform, if_neg hop, hdivides.result]
      rfl
    rw [step_of_prepare hidle hnext hprepare]
    simp only [following, Engine.attempt, hperform]
    rfl

theorem problem_of_located {failure : Failure} (h : m.located failure = .problem p) :
    ∃ q, failure = .problem q := by
  cases failure with
  | problem q => exact ⟨q, rfl⟩
  | fault f => cases h

/-- Where a step of a machine fails, and with which problem. -/
theorem Ready.step_error_iff (h : m.Ready) :
    m.step.answer = .error (.problem p) ↔ m.Fails p := by
  constructor
  · intro hanswer
    have hreplied := m.replied_step
    generalize m.step = r at hanswer hreplied
    cases hreplied with
    | unprogrammed hprogram =>
      cases hanswer
      exact .unprogrammed hprogram
    | unprepared _ _ hprepare =>
      obtain ⟨q, rfl⟩ := problem_of_located (Except.error.inj hanswer)
      exact absurd hprepare Execution.no_problem_of_prepare
    | failed htries hperform =>
      obtain ⟨q, rfl⟩ := problem_of_located (Except.error.inj hanswer)
      obtain ⟨hdivides, hproblem⟩ := Execution.dividesByZero_of_perform hperform
      rw [hproblem] at hanswer
      cases hanswer
      cases htries with
      | begun hidle hnext _ => exact .division hidle hnext hdivides
      | again hwaits =>
        obtain ⟨-, hreads, -⟩ := h _ hwaits
        cases hdivides.reads.symm.trans hreads
    | ended | completed | waits => cases hanswer
  · intro hfails
    obtain ⟨notes, hstep⟩ := hfails.step
    rw [hstep]

/-- The READ that waits was captured as the counter and X still are. -/
theorem Attentive.ready (h : Attentive m) : m.Ready := by
  intro s hwaits
  obtain ⟨i, hnext, hreads, hexecution⟩ := h.parked s hwaits
  have hprepare := Execution.prepare_of_reads (c := m.core) hreads
  rw [hexecution]
  exact ⟨(Execution.prepared_of_prepare hprepare).2, hreads, hnext⟩

theorem Ready.stepped (h : m.Ready) (k : Nat) : (m.stepped k).Ready := by
  induction k with
  | zero => exact h
  | succ k ih => exact ih.step.1

/-- So many instructions were completed on the way from the one machine to the other. They are in
the history, and undoing as many leads back. -/
structure Completed (m : Machine) (k : Nat) (m' : Machine) : Prop where
  machine : m' = m.stepped k
  filed : ∀ j < k, ∃ x, (m.stepped j).Executed x (m.stepped (j + 1))
  undone : ∃ newer m₀, m'.past = newer ++ m.past ∧ newer.length = k ∧
    m'.undoTimes k = .ok m₀ ∧ m₀.pc = m.pc ∧ m₀.core.x = m.core.x ∧ m₀.past = m.past ∧
    ((∀ x ∈ newer, x.instruction.reads = false) → m₀.core.memory = m.core.memory)

/-- The run has failed with the problem in the other machine, behind the instructions that it
completed. Any run from there fails with the same problem and does nothing. -/
structure RunFailed (m : Machine) (p : Problem) (m' : Machine) : Prop where
  completed : ∃ k, m.Completed k m'
  fails : m'.Fails p
  again : ∀ pace patience, ∃ notes : List Diagnostic,
    m'.run pace patience = ⟨m', .error (.problem p), notes.map .diagnostic⟩

theorem way_of_executed {k : Nat}
    (h : ∀ j < k, ∃ x, (m.stepped j).Executed x (m.stepped (j + 1))) :
    ∃ newer, m.Way newer (m.stepped k) ∧ newer.length = k := by
  induction k with
  | zero => exact ⟨[], .still rfl, rfl⟩
  | succ k ih =>
    obtain ⟨newer, hway, hlength⟩ := ih fun j hj => h j (Nat.lt_succ_of_lt hj)
    obtain ⟨x, hexecuted⟩ := h k (Nat.lt_succ_self k)
    exact ⟨x :: newer, .next hway hexecuted, congrArg (· + 1) hlength⟩

/-- As far as a run goes on, each of its steps completes an instruction that can be undone. -/
theorem Ready.completed (h : m.Ready) {pace : Pace} {k : Nat}
    (hgoesOn : ∀ j < k, (m.stepped j).GoesOn pace) : m.Completed k (m.stepped k) := by
  have hexecuted : ∀ j < k, ∃ x, (m.stepped j).Executed x (m.stepped (j + 1)) ∧
      (m.stepped (j + 1)).suspended = none := by
    intro j hj
    apply (h.stepped j).executed
    intro hpast
    have hlength := (hgoesOn j hj).past
    rw [hpast] at hlength
    omega
  have hfiled : ∀ j < k, ∃ x, (m.stepped j).Executed x (m.stepped (j + 1)) :=
    fun j hj => (hexecuted j hj).imp fun _ => And.left
  obtain ⟨newer, hway, hlength⟩ := way_of_executed hfiled
  refine ⟨rfl, hfiled, newer, ?_⟩
  cases k with
  | zero =>
    obtain rfl := List.length_eq_zero_iff.1 hlength
    exact ⟨m, rfl, rfl, rfl, rfl, rfl, rfl, fun _ => rfl⟩
  | succ k =>
    obtain ⟨x, hlast, hidle⟩ := hexecuted k (Nat.lt_succ_self k)
    have hprogram : (m.stepped (k + 1)).program.isNone = false := by
      obtain ⟨program, hprogram, -⟩ := program_of_next? hlast.instruction
      rw [hlast.program, hprogram]
      rfl
    obtain ⟨m₀, htimes, hreturned⟩ := hway.undoTimes (.refl hidle) hprogram
    rw [hlength] at htimes
    exact ⟨m₀, hway.past, hlength, htimes, hreturned.pc, hreturned.x, hreturned.past,
      fun hreads => hreturned.memory ⟨trivial, hreads⟩⟩

/-- A run whose first step fails is that step. -/
theorem Fails.run (h : m.Fails p) (pace : Pace) (patience : Nat) :
    ∃ notes : List Diagnostic,
      m.run pace patience = ⟨m, .error (.problem p), notes.map .diagnostic⟩ := by
  obtain ⟨notes, hstep⟩ := h.step
  refine ⟨notes, ?_⟩
  simp only [Machine.run, runOn, hstep]
  simp

theorem Ready.runFailed (h : m.Ready) {pace : Pace} {patience : Nat}
    (hanswer : (m.run pace patience).answer = .error (.problem p)) :
    m.RunFailed p (m.run pace patience).state := by
  obtain ⟨k, hk, hlast, hrun⟩ := m.run_last pace patience
  obtain ⟨answer, hrunOn, hends⟩ := runOn_last hlast ((#[] : Array Signal) ++ m.sentBy k)
  have hlt : k < m.stepsTaken pace (patience + 1) := by
    rw [hk]
    exact Nat.lt_succ_self k
  rw [hrun, hrunOn] at hanswer ⊢
  simp only at hanswer ⊢
  have hstep : (m.stepped k).step.answer = .error (.problem p) := by
    rcases hends with rfl | rfl
    · cases hanswer
    · exact hanswer
  rw [state_of_error hstep]
  have hfails : (m.stepped k).Fails p := (h.stepped k).step_error_iff.1 hstep
  exact ⟨⟨k, h.completed (lt_stepsTaken_iff.1 hlt).2⟩, hfails, hfails.run⟩

end Machine

end Backstep
