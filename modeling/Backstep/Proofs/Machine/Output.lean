import Backstep.Proofs.Machine.Replay
import Backstep.Proofs.Machine.Step
import Backstep.Proofs.Machine.Suspension
/-!
# What steps put out

A WRITE that is completed sends the word in X to the output, and nothing else sends there.
`Machine.uttered` is what so many steps say by what they complete. If nobody waits at the output or
takes from it, that is what comes to stand there.
-/

namespace Backstep

def Instruction.writes (i : Instruction) : Bool :=
  i.op? = some .interrupt && Service.ofOperand? (i.operand 0) = some .write

theorem Instruction.writes_iff {i : Instruction} :
    i.writes = true ↔
      i.op? = some .interrupt ∧ Service.ofOperand? (i.operand 0) = some .write := by
  simp [writes]

theorem Instruction.writes_of_reads {i : Instruction} (hreads : i.reads = true) :
    i.writes = false := by
  simp [writes, (reads_iff.1 hreads).2]

namespace Core

theorem output_store {c : Core} {a : Address} {w : Word} {t : Traced Core}
    (h : c.store a w = .ok t) : t.value.output = c.output := by
  simp only [store] at h
  split at h <;> cases h
  rfl

theorem output_interrupt {c : Core} {index : Address} {operand : Word} {ticket : Option Ticket}
    {t : Traced (Core × Option Ticket)} (h : c.interrupt index operand ticket = .ok t) :
    t.value.1.output = if Service.ofOperand? operand = some .write then (c.output.write c.x).1
      else c.output := by
  unfold interrupt at h
  split at h
  · rename_i hservice
    obtain ⟨input, hcore⟩ := Execution.nextInput_core c ticket
    rw [if_neg (by simp [hservice])]
    split at h
    · rename_i core waits sent hnext
      rw [hnext] at hcore
      cases h
      exact congrArg (·.output) hcore
    · rename_i core w sent hnext
      rw [hnext] at hcore
      have houtput : core.output = c.output := congrArg (·.output) hcore
      cases hstore : core.store core.x.address w with
      | error failure =>
        rw [hstore] at h
        cases h
      | ok stored =>
        rw [hstore] at h
        cases h
        exact (output_store hstore).trans houtput
  · rename_i hservice
    rw [if_pos hservice]
    cases h
    rfl
  · rename_i hservice
    rw [if_neg (by simp [hservice])]
    cases h
    rfl

end Core

namespace Execution

/-- What was noted for a WRITE is X, so that performing it serves the interrupt. -/
def Serves (x : Execution) : Prop := x.instruction.writes = true → ∃ old, x.saved = .x old

theorem serves_of_prepare {c : Core} {i : Instruction} {t : Traced Execution}
    (h : prepare c i = .ok t) : t.value.Serves := by
  intro hwrites
  rw [(prepared_of_prepare h).1] at hwrites
  simp only [prepare, (Instruction.writes_iff.1 hwrites).1] at h
  cases h
  exact ⟨c.x, rfl⟩

/-- Only a WRITE sends to the output, and what it sends is X. -/
theorem output_perform {x : Execution} {c : Core} {ticket : Option Ticket}
    {t : Traced (Core × Option Ticket)} (hserves : x.Serves) (h : x.perform c ticket = .ok t) :
    t.value.1.output
      = if x.instruction.writes then (c.output.write c.x).1 else c.output := by
  have hsilent : (∀ old, x.saved ≠ .x old) → x.instruction.writes = false := by
    intro hsaved
    cases hwrites : x.instruction.writes with
    | false => rfl
    | true =>
      obtain ⟨old, hold⟩ := hserves hwrites
      exact absurd hold (hsaved old)
  unfold perform at h
  split at h
  · rename_i hsaved
    rw [hsilent (by simp [hsaved])]
    cases h
    rfl
  · rename_i a old hsaved
    rw [hsilent (by simp [hsaved])]
    cases hstore : c.store a c.x with
    | error failure =>
      rw [hstore] at h
      cases h
    | ok stored =>
      rw [hstore] at h
      cases h
      have houtput := Core.output_store hstore
      exact houtput
  · rename_i hsaved
    rw [hsilent (by simp [hsaved])]
    cases htarget : c.target x.instruction with
    | error failure =>
      rw [htarget] at h
      cases h
    | ok pc =>
      rw [htarget] at h
      cases h
      rfl
  · split at h
    · rename_i hop
      rw [Core.output_interrupt h]
      simp only [Instruction.writes, hop, decide_true, Bool.true_and, decide_eq_true_eq]
    · rename_i hop
      have hno : x.instruction.writes = false := by simp [Instruction.writes, hop]
      rw [hno]
      cases hresult : c.result x.instruction with
      | error failure =>
        rw [hresult] at h
        cases h
      | ok v =>
        rw [hresult] at h
        cases h
        rfl

theorem output_takeBack {x : Execution} {c : Core} {t : Traced Core} (h : x.takeBack c = .ok t) :
    t.value.output = c.output := by
  unfold takeBack at h
  split at h
  · cases h
    rfl
  · cases h
    rfl
  · cases h
    rfl
  · rename_i a old hsaved
    cases hstore : c.retreat.value.store a old with
    | error failure =>
      simp only [hstore] at h
      cases h
    | ok stored =>
      simp only [hstore] at h
      cases h
      have houtput := Core.output_store hstore
      exact houtput

end Execution

namespace Machine

/-- A step completes a WRITE. -/
def completesWrite (m : Machine) : Bool :=
  m.completes && m.step.state.past.head?.any (·.instruction.writes)

/-- What so many steps say: the word in X at each WRITE that they complete. -/
def uttered (m : Machine) : Nat → List Word
  | 0 => []
  | k + 1 =>
    m.uttered k ++ if (m.stepped k).completesWrite then [(m.stepped k).core.x] else []

variable {m : Machine}

/-- An execution that a step tries was prepared as its instruction needs. -/
theorem Tries.serves (hattentive : Attentive m) {x : Execution} {ticket : Option Ticket}
    {sent : List Signal} (h : m.Tries x ticket sent) : x.Serves := by
  cases h with
  | begun _ _ hprepare => exact Execution.serves_of_prepare hprepare
  | again hwaits =>
    obtain ⟨i, -, hreads, hexecution⟩ := hattentive.parked _ hwaits
    intro hwrites
    rw [hexecution] at hwrites
    rw [show (m.reading i).instruction = i from rfl, Instruction.writes_of_reads hreads] at hwrites
    cases hwrites

theorem completesWrite_of_past {x : Execution} (hpast : m.step.state.past = x :: m.past) :
    m.completesWrite = x.instruction.writes := by
  simp [completesWrite, completes, hpast]

theorem completesWrite_of_still (hpast : m.step.state.past = m.past) :
    m.completesWrite = false := by
  simp [completesWrite, completes, hpast]

theorem unread_of_same {m' : Machine} (hunread : m.Unread)
    (houtput : m'.core.output = m.core.output) : m'.Unread ∧ m'.said = m.said ++ [] := by
  rw [Unread, said, houtput, List.append_nil]
  exact ⟨hunread, rfl⟩

/-- What a step completes decides what comes to stand in the output. -/
theorem said_step (hattentive : Attentive m) (hunread : m.Unread) :
    m.step.state.Unread ∧
      m.step.state.said = m.said ++ if m.completesWrite then [m.core.x] else [] := by
  have hreplied := m.replied_step
  generalize hstep : m.step = r at hreplied
  have hpast := congrArg (·.state.past) hstep
  cases hreplied with
  | unprogrammed | ended | unprepared | failed =>
    rw [completesWrite_of_still hpast]
    exact unread_of_same hunread rfl
  | waits htries hperform =>
    have houtput := Execution.output_perform (htries.serves hattentive) hperform
    rw [Instruction.writes_of_reads (Execution.of_perform_waiting hperform).1] at houtput
    rw [completesWrite_of_still hpast]
    exact unread_of_same hunread houtput
  | @completed x _ _ _ core htries hperform =>
    have houtput : core.output = if x.instruction.writes then (m.core.output.write m.core.x).1
      else m.core.output := Execution.output_perform (htries.serves hattentive) hperform
    rw [completesWrite_of_past hpast]
    cases hwrites : x.instruction.writes with
    | false =>
      rw [hwrites] at houtput
      exact unread_of_same hunread houtput
    | true =>
      rw [hwrites, if_pos rfl, hunread] at houtput
      simp only [Unread, said, filed, houtput, Channel.write]
      exact ⟨trivial, rfl⟩

theorem said_stepped (hattentive : Attentive m) (hunread : m.Unread) (k : Nat) :
    Attentive (m.stepped k) ∧ (m.stepped k).Unread ∧
      (m.stepped k).said = m.said ++ m.uttered k := by
  induction k with
  | zero => exact ⟨hattentive, hunread, (List.append_nil _).symm⟩
  | succ k ih =>
    obtain ⟨hattentive', hunread', hsaid⟩ := ih
    obtain ⟨hunread'', hsaid'⟩ := said_step hattentive' hunread'
    refine ⟨hattentive'.step.1, hunread'', ?_⟩
    rw [stepped, hsaid', hsaid, uttered, List.append_assoc]

theorem Attentive.afterDeeds (h : Attentive m) {ds : List Deed}
    (hspares : ∀ d ∈ ds, d.sparesInput = true) : Attentive (m.afterDeeds ds) :=
  (Expectant.afterDeeds ⟨h, fun _ => rfl⟩ hspares).attentive

theorem output_takenBack (m : Machine) : m.takenBack.core.output = m.core.output := by
  rcases m.takenBack_cases with hsame | ⟨x, past, core, sent, -, -, hback, hafter⟩
  · rw [hsame]
  · rw [hafter]
    exact Execution.output_takeBack hback

theorem output_afterDeeds {ds : List Deed} (hback : ∀ d ∈ ds, d = .takeBack) :
    (m.afterDeeds ds).core.output = m.core.output := by
  induction ds generalizing m with
  | nil => rfl
  | cons d ds ih =>
    obtain rfl := hback d List.mem_cons_self
    rw [afterDeeds_cons, ih fun d hd => hback d (List.mem_cons_of_mem _ hd)]
    exact m.output_takenBack

end Machine

end Backstep
