import Backstep.Proofs.Machine.Replay
import Backstep.Proofs.Machine.Step
import Backstep.Workbench.Session
/-!
# How far a run comes

A run is its steps one after another: it comes so far if it goes on after each step before, and its
last step is the one after which it stops or has no more patience. Each instruction that is
completed signals one change of the program counter, so the signals of a run tell how far it has
come.
-/

namespace Backstep

/-! ### Changes of the counter in a step -/

theorem countP_quiet {sent : List Signal} (hquiet : ∀ σ ∈ sent, σ.quiet = true) :
    sent.countP Signal.movesCounter = 0 := by
  apply List.countP_eq_zero.2
  intro σ hσ
  have hσquiet := hquiet σ hσ
  cases σ with
  | channel | diagnostic => exact Bool.false_ne_true
  | loaded | pc | x | memory => cases hσquiet

theorem countP_channel (way : Direction) (notices : List Channel.Notice) :
    (notices.map (Signal.channel way)).countP Signal.movesCounter = 0 :=
  countP_quiet (List.forall_mem_map.2 fun _ _ => rfl)

/-- The signals tell of one change of the counter, unless something waits. -/
def MovesOnce (t : Traced (Core × Option Ticket)) : Prop :=
  t.signals.countP Signal.movesCounter = if t.value.2.isSome then 0 else 1

namespace Core

variable {c : Core}

theorem countP_store {a : Address} {w : Word} {t : Traced Core} (h : c.store a w = .ok t) :
    t.signals.countP Signal.movesCounter = 0 := by
  simp only [store] at h
  split at h
  · cases h
    exact List.countP_eq_zero.2 (List.forall_mem_map.2 fun _ _ => Bool.false_ne_true)
  · cases h

theorem countP_nextInput (ticket : Option Ticket) :
    (c.nextInput ticket).signals.countP Signal.movesCounter = 0 := by
  cases ticket with
  | none => exact countP_channel _ _
  | some ticket =>
    simp only [nextInput]
    split <;> rfl

theorem movesOnce_interrupt {index : Address} {operand : Word} {ticket : Option Ticket}
    {t : Traced (Core × Option Ticket)} (h : c.interrupt index operand ticket = .ok t) :
    MovesOnce t := by
  unfold interrupt at h
  unfold MovesOnce
  split at h
  · have hinput := c.countP_nextInput ticket
    split at h
    · rename_i hnext
      rw [hnext] at hinput
      cases h
      exact hinput
    · rename_i core w sent hnext
      rw [hnext] at hinput
      cases hstore : core.store core.x.address w with
      | error failure =>
        rw [hstore] at h
        cases h
      | ok stored =>
        rw [hstore] at h
        cases h
        simp only [List.countP_append, hinput, countP_store hstore]
        rfl
  · cases h
    simp only [Traced.signals_bind, List.countP_append, send, countP_channel]
    rfl
  · cases h
    rfl

end Core

theorem Execution.movesOnce_perform {x : Execution} {c : Core} {ticket : Option Ticket}
    {t : Traced (Core × Option Ticket)} (h : x.perform c ticket = .ok t) : MovesOnce t := by
  unfold perform at h
  split at h
  · cases h
    rfl
  · rename_i a old hsaved
    cases hstore : c.store a c.x with
    | error failure =>
      rw [hstore] at h
      cases h
    | ok stored =>
      rw [hstore] at h
      cases h
      simp only [MovesOnce, Traced.signals_bind, List.countP_append, Core.countP_store hstore]
      rfl
  · cases htarget : c.target x.instruction with
    | error failure =>
      rw [htarget] at h
      cases h
    | ok pc =>
      rw [htarget] at h
      cases h
      rfl
  · split at h
    · exact Core.movesOnce_interrupt h
    · cases hresult : c.result x.instruction with
      | error failure =>
        rw [hresult] at h
        cases h
      | ok v =>
        rw [hresult] at h
        cases h
        rfl

namespace Machine

/-- A step signals one change of the counter for the instruction that it completes. -/
theorem countP_step (m : Machine) :
    m.step.signals.countP Signal.movesCounter + m.past.length = m.step.state.past.length := by
  have hreplied := m.replied_step
  generalize m.step = r at hreplied
  cases hreplied with
  | unprogrammed | ended | unprepared => exact Nat.zero_add _
  | failed htries => simp only [countP_quiet htries.quiet, Nat.zero_add]
  | completed htries hperform =>
    have hmoves := Execution.movesOnce_perform hperform
    simp only [MovesOnce, Option.isSome_none, Bool.false_eq_true, if_false] at hmoves
    simp only [List.countP_append, countP_quiet htries.quiet, hmoves, filed, List.length_cons]
    omega
  | waits htries hperform =>
    have hmoves := Execution.movesOnce_perform hperform
    simp only [MovesOnce, Option.isSome_some, if_true] at hmoves
    simp only [List.countP_append, countP_quiet htries.quiet, hmoves, parked, Nat.zero_add]

/-! ### Runs, step by step -/

/-- Everything that so many steps signal. -/
def sentBy (m : Machine) : Nat → List Signal
  | 0 => []
  | k + 1 => m.sentBy k ++ (m.stepped k).step.signals

/-- A run of the pace goes on after the next step. -/
def GoesOn (m : Machine) (pace : Pace) : Prop :=
  m.step.answer = .ok .stopped ∧ pace.stops (m.step.state.startsAt m.step.state.pc.toNat) = false

theorem stepped_step_state (m : Machine) (k : Nat) :
    m.step.state.stepped k = m.stepped (k + 1) := by
  induction k with
  | zero => rfl
  | succ k ih =>
    rw [stepped, ih]
    rfl

theorem stepped_changed {f : Core → Core} (hf : Core.Unnoticed f)
    (hreads : Core.UnnoticedByReads f) (m : Machine) (k : Nat) :
    (m.changed f).stepped k = (m.stepped k).changed f := by
  induction k with
  | zero => rfl
  | succ k ih =>
    rw [stepped, ih, step_changed hf _ fun _ => hreads]
    rfl

theorem past_le_stepped (m : Machine) (k : Nat) :
    m.past.length ≤ (m.stepped k).past.length := by
  induction k with
  | zero => exact Nat.le_refl _
  | succ k ih =>
    have hstep := (m.stepped k).countP_step
    rw [stepped]
    omega

theorem lt_stepsTaken_iff {m : Machine} {pace : Pace} {patience k : Nat} :
    k < m.stepsTaken pace patience ↔ k < patience ∧ ∀ j < k, (m.stepped j).GoesOn pace := by
  induction patience generalizing m k with
  | zero => simp [stepsTaken]
  | succ patience ih =>
    cases k with
    | zero =>
      have hpositive : 0 < m.stepsTaken pace (patience + 1) := by
        unfold stepsTaken
        split
        · split <;> omega
        · omega
      simp [hpositive]
    | succ k =>
      by_cases hgoesOn : m.GoesOn pace
      · have htaken : m.stepsTaken pace (patience + 1)
            = m.step.state.stepsTaken pace patience + 1 := by
          simp only [stepsTaken, hgoesOn.1, hgoesOn.2, Bool.false_eq_true, if_false]
        rw [htaken, Nat.succ_lt_succ_iff, ih, Nat.succ_lt_succ_iff, Nat.forall_lt_succ_left]
        simp only [stepped_step_state]
        exact and_congr_right fun _ => (and_iff_right hgoesOn).symm
      · have htaken : m.stepsTaken pace (patience + 1) = 1 := by
          unfold stepsTaken
          split
          · rename_i hstopped
            rw [if_pos]
            simpa only [GoesOn, hstopped, true_and, Bool.not_eq_false] using hgoesOn
          · rfl
        rw [htaken]
        refine iff_of_false (by omega) fun h => hgoesOn (h.2 0 (Nat.succ_pos k))

variable {m : Machine} {pace : Pace} {k : Nat}

/-- A step after which a run goes on has completed one instruction. -/
theorem GoesOn.past (h : m.GoesOn pace) : m.step.state.past.length = m.past.length + 1 := by
  obtain ⟨x, core, hstate⟩ := completed_of_stopped h.1
  rw [hstate]
  rfl

theorem past_stepped (h : ∀ j < k, (m.stepped j).GoesOn pace) :
    (m.stepped k).past.length = m.past.length + k := by
  induction k with
  | zero => rfl
  | succ k ih =>
    rw [stepped, (h k (Nat.lt_succ_self k)).past, ih fun j hj => h j (Nat.lt_succ_of_lt hj)]
    rfl

theorem appendList_append {α : Type} (sent : Array α) (l l' : List α) :
    sent ++ (l ++ l') = sent ++ l ++ l' := by
  apply Array.ext'
  simp only [Array.toList_appendList, List.append_assoc]

theorem runOn_of_goesOn {patience : Nat} (hgoesOn : m.GoesOn pace) (sent : Array Signal) :
    runOn pace (patience + 1) m sent
      = runOn pace patience m.step.state (sent ++ m.step.signals) := by
  obtain ⟨hstopped, hstops⟩ := hgoesOn
  simp only [runOn, hstopped, hstops, Bool.false_eq_true, if_false]

theorem runOn_of_not_goesOn {patience : Nat} (hlast : ¬ m.GoesOn pace) (sent : Array Signal) :
    runOn pace (patience + 1) m sent
      = ⟨m.step.state, m.step.answer, (sent ++ m.step.signals).toList⟩ := by
  simp only [runOn]
  split
  · rename_i hstopped
    have hstops : pace.stops (m.step.state.startsAt m.step.state.pc.toNat) = true :=
      eq_true_of_ne_false fun hgoesOn => hlast ⟨hstopped, hgoesOn⟩
    rw [if_pos hstops, hstopped]
  · rfl

/-- A run has come so far if it went on after each step. -/
theorem runOn_reach (h : ∀ j < k, (m.stepped j).GoesOn pace) (patience : Nat)
    (sent : Array Signal) :
    runOn pace (patience + k) m sent = runOn pace patience (m.stepped k) (sent ++ m.sentBy k) := by
  induction k generalizing patience with
  | zero => simp [stepped, sentBy]
  | succ k ih =>
    rw [Nat.add_succ, ← Nat.succ_add, ih (fun j hj => h j (Nat.lt_succ_of_lt hj)),
      runOn_of_goesOn (h k (Nat.lt_succ_self k)), sentBy, stepped, appendList_append]

/-- A run takes a last step: it stops there, or has no more patience. -/
theorem run_last (m : Machine) (pace : Pace) (patience : Nat) :
    ∃ k, m.stepsTaken pace (patience + 1) = k + 1 ∧
      (patience - k = 0 ∨ ¬ (m.stepped k).GoesOn pace) ∧
      m.run pace patience = runOn pace (patience - k + 1) (m.stepped k)
        ((#[] : Array Signal) ++ m.sentBy k) := by
  have hpositive : 0 < m.stepsTaken pace (patience + 1) :=
    lt_stepsTaken_iff.2 ⟨Nat.succ_pos _, fun j hj => absurd hj (Nat.not_lt_zero j)⟩
  obtain ⟨k, hk⟩ := Nat.exists_eq_add_one.2 hpositive
  have hlt : k < m.stepsTaken pace (patience + 1) := by omega
  obtain ⟨hle, hgoesOn⟩ := lt_stepsTaken_iff.1 hlt
  refine ⟨k, hk, ?_, ?_⟩
  · by_cases hgoes : (m.stepped k).GoesOn pace
    · have hnot : ¬ k + 1 < m.stepsTaken pace (patience + 1) := hk ▸ Nat.lt_irrefl _
      rw [lt_stepsTaken_iff, Nat.forall_lt_succ_right] at hnot
      have hover : ¬ k + 1 < patience + 1 := fun h => hnot ⟨h, hgoesOn, hgoes⟩
      exact .inl (by omega)
    · exact .inr hgoes
  · rw [← runOn_reach hgoesOn, run]
    congr 1
    omega

/-- After its last step a run answers as the step did, if it was not given up. -/
theorem runOn_last {patience : Nat} (hlast : patience = 0 ∨ ¬ m.GoesOn pace)
    (sent : Array Signal) :
    ∃ answer, runOn pace (patience + 1) m sent
        = ⟨m.step.state, answer, (sent ++ m.step.signals).toList⟩ ∧
      (answer = .error (.fault .unfinished) ∨ answer = m.step.answer) := by
  by_cases hgoesOn : m.GoesOn pace
  · obtain rfl : patience = 0 := hlast.resolve_right fun h => h hgoesOn
    exact ⟨_, runOn_of_goesOn hgoesOn sent, .inl rfl⟩
  · exact ⟨_, runOn_of_not_goesOn hgoesOn sent, .inr rfl⟩

theorem countP_sentBy (h : ∀ j < k, (m.stepped j).GoesOn pace) :
    (m.sentBy k).countP Signal.movesCounter = k := by
  induction k with
  | zero => rfl
  | succ k ih =>
    have hstep := (m.stepped k).countP_step
    rw [(h k (Nat.lt_succ_self k)).past] at hstep
    rw [sentBy, List.countP_append, ih fun j hj => h j (Nat.lt_succ_of_lt hj)]
    omega

/-- The next instruction is a READ that would store outside a memory of the size. -/
def ReadsOutside (m : Machine) (memorySize : Nat) : Prop :=
  m.next?.any (·.reads) = true ∧ ¬ Word.Fits m.core.x memorySize

instance (m : Machine) (memorySize : Nat) : Decidable (m.ReadsOutside memorySize) :=
  inferInstanceAs (Decidable (_ ∧ _))

end Machine

end Backstep
