import Backstep.Proofs.Machine.Failure
import Backstep.Proofs.Machine.Statements
/-!
# What an event says

A run that answers with an event leaves a machine of which the event is true: it waits for input, it
is at the end of its program, or neither. An instruction that waits is the one at the counter, so no
machine waits at the end of its program, and the three events exclude each other. `Event.Describes`
is that correspondence. A step keeps to it whatever programs were loaded before and wherever the
counter has been, and so does every run, which answers as its last step does.

What a run completes before its last step it passes without stopping. `Machine.RanStatement` says
so of a run to the end of a statement: no statement starts at any counter that it has passed.
-/

namespace Backstep

/-- The event is the one for a machine that waits, is at the end of its program, or neither. -/
structure Event.Describes (e : Event) (m : Machine) : Prop where
  input : e = .input ↔ m.isWaiting = true
  ended : e = .ended ↔ m.isDone = true
  stopped : e = .stopped ↔ m.isWaiting = false ∧ m.isDone = false

namespace Machine

variable {m m' : Machine} {e : Event} {pace : Pace}

/-! ### A step -/

/-- Where an instruction waits, the program has not ended. -/
theorem Ready.going (h : m.Ready) (hwaiting : m.isWaiting = true) : m.isDone = false := by
  obtain ⟨s, hwaits⟩ := Option.isSome_iff_exists.1 hwaiting
  obtain ⟨-, -, hnext⟩ := h s hwaits
  obtain ⟨p, hprogram, hinstruction⟩ := program_of_next? hnext
  obtain ⟨hlt, -⟩ := Array.getElem?_eq_some_iff.1 hinstruction
  rw [isDone, hprogram, Option.any_some, decide_eq_false_iff_not]
  exact Nat.not_le.2 hlt

theorem describes_waiting (hwaiting : m.isWaiting = true) (hgoing : m.isDone = false) :
    Event.input.Describes m where
  input := by simp [hwaiting]
  ended := by simp [hgoing]
  stopped := by simp [hwaiting]

theorem describes_idle (hwaiting : m.isWaiting = false) :
    Event.Describes (if m.isDone then .ended else .stopped) m := by
  cases hdone : m.isDone with
  | true => exact ⟨by simp [hwaiting], by simp [hdone], by simp [hdone]⟩
  | false => exact ⟨by simp [hwaiting], by simp [hdone], by simp [hwaiting, hdone]⟩

/-- The event of a step is true of the machine that the step leaves behind. -/
theorem Ready.describes_step (h : m.Ready) (hanswer : m.step.answer = .ok e) :
    e.Describes m.step.state := by
  obtain ⟨hready, -⟩ := h.step
  have hreplied := m.replied_step
  generalize m.step = r at hanswer hready hreplied
  cases hreplied with
  | unprogrammed | unprepared | failed => cases hanswer
  | ended hidle hdone =>
    cases hanswer
    have hwaiting : m.isWaiting = false := by rw [Engine.isWaiting, hidle, Option.isSome_none]
    have hdescribes := describes_idle hwaiting
    rwa [if_pos hdone] at hdescribes
  | completed =>
    cases hanswer
    exact describes_idle rfl
  | waits =>
    cases hanswer
    exact describes_waiting rfl (hready.going rfl)

theorem completes_of_stopped (hanswer : m.step.answer = .ok .stopped) : m.completes = true := by
  obtain ⟨x, core, hstate⟩ := completed_of_stopped hanswer
  rw [completes, hstate, decide_eq_true_eq]
  exact Nat.lt_succ_self _

/-! ### A run -/

/-- A run that answers with an event has come to a step that answers so and after which it does not
go on. -/
theorem last_of_runOn {patience : Nat} {sent : Array Signal}
    (hanswer : (runOn pace patience m sent).answer = .ok e) :
    ∃ k, (∀ j < k, (m.stepped j).GoesOn pace) ∧ ¬ (m.stepped k).GoesOn pace ∧
      (m.stepped k).step.answer = .ok e ∧
      (runOn pace patience m sent).state = m.stepped (k + 1) := by
  induction patience generalizing m sent with
  | zero => cases hanswer
  | succ patience ih =>
    by_cases hgoesOn : m.GoesOn pace
    · rw [runOn_of_goesOn hgoesOn] at hanswer ⊢
      obtain ⟨k, hbefore, hlast, hstep, hstate⟩ := ih hanswer
      simp only [stepped_step_state] at hbefore hlast hstep hstate
      exact ⟨k + 1, (Nat.forall_lt_succ_left).2 ⟨hgoesOn, hbefore⟩, hlast, hstep, hstate⟩
    · rw [runOn_of_not_goesOn hgoesOn] at hanswer ⊢
      exact ⟨0, fun _ hj => absurd hj (Nat.not_lt_zero _), hgoesOn, hanswer, rfl⟩

/-- The run from the one machine to the other, to the end of a statement, has completed so many
instructions and answered with the event. -/
structure RanStatement (m : Machine) (n : Nat) (e : Event) (m' : Machine) : Prop where
  completed : ∀ j < n, (m.stepped j).completes = true
  /-- A last step that completes nothing has found the program at its end or has to wait. -/
  last : m' = m.stepped n ∨ m' = m.stepped (n + 1) ∧ e ≠ .stopped
  past : m'.past.length = m.past.length + n
  /-- No statement starts between two of the instructions. -/
  within : ∀ j, 0 < j → j < n → (m.stepped j).startsAt (m.stepped j).pc.toNat = false
  /-- No statement starts at a READ that has to wait, unless the run began with it. -/
  waiting : e = .input → 0 < n → m'.startsAt m'.pc.toNat = false
  stopped : e = .stopped → 0 < n ∧ m'.startsAt m'.pc.toNat = true

theorem between_of_goesOn {k : Nat} (h : ∀ j < k, (m.stepped j).GoesOn .statement) :
    ∀ j, 0 < j → j ≤ k → (m.stepped j).startsAt (m.stepped j).pc.toNat = false := by
  intro j hpositive hj
  obtain ⟨i, rfl⟩ := Nat.exists_eq_add_one.2 hpositive
  exact (h i hj).2

theorem Ready.past_of_completes (h : m.Ready) (hcompletes : m.completes = true) :
    m.step.state.past.length = m.past.length + 1 := by
  obtain ⟨x, hexecuted, -⟩ := h.executed fun hpast => by
    rw [completes, hpast, decide_eq_true_eq] at hcompletes
    exact Nat.lt_irrefl _ hcompletes
  rw [hexecuted.past, List.length_cons]

theorem Ready.place_of_completes (h : m.Ready) (hcompletes : m.completes = false) :
    m.step.state.place = m.place := by
  obtain ⟨-, hplace | ⟨x, hexecuted, -⟩⟩ := h.step
  · exact hplace
  · rw [completes, hexecuted.past, List.length_cons, decide_eq_false_iff_not] at hcompletes
    exact absurd (Nat.lt_succ_self _) hcompletes

theorem completes_of_input (hanswer : m.step.answer = .ok .input) : m.completes = false := by
  have hreplied := m.replied_step
  rw [completes, decide_eq_false_iff_not]
  generalize m.step = r at hanswer hreplied
  cases hreplied with
  | waits => exact Nat.lt_irrefl _
  | completed =>
    split at hanswer
    · cases hanswer
    · cases hanswer
  | unprogrammed | ended | unprepared | failed => cases hanswer

/-- The run has passed `k` instructions and ends with the step after them, which may complete one
more. -/
theorem Ready.ranStatement {patience : Nat} (h : m.Ready)
    (hanswer : (m.run .statement patience).answer = .ok e) :
    ∃ n, m.RanStatement n e (m.run .statement patience).state := by
  obtain ⟨k, hbefore, hlast, hstep, hstate⟩ := last_of_runOn hanswer
  have hready : (m.stepped k).Ready := h.stepped k
  have hpast : (m.stepped k).past.length = m.past.length + k := past_stepped hbefore
  have hcompleted : ∀ j < k, (m.stepped j).completes = true :=
    fun j hj => completes_of_stopped (hbefore j hj).1
  have hbetween := between_of_goesOn hbefore
  rw [run, hstate]
  cases hcompletes : (m.stepped k).completes with
  | true =>
    refine ⟨k + 1, ?_, .inl rfl, ?_, ?_, ?_, ?_⟩
    · exact (Nat.forall_lt_succ_right).2 ⟨hcompleted, hcompletes⟩
    · rw [Machine.stepped, hready.past_of_completes hcompletes, hpast, Nat.add_assoc]
    · exact fun j hpositive hj => hbetween j hpositive (Nat.le_of_lt_succ hj)
    · rintro rfl
      cases hcompletes.symm.trans (completes_of_input hstep)
    · rintro rfl
      refine ⟨Nat.succ_pos k, ?_⟩
      have hstops : ¬ (m.stepped (k + 1)).startsAt (m.stepped (k + 1)).pc.toNat = false :=
        fun hgoes => hlast ⟨hstep, hgoes⟩
      simpa using hstops
  | false =>
    have hplace : (m.stepped (k + 1)).place = (m.stepped k).place :=
      hready.place_of_completes hcompletes
    have hgoing : e ≠ .stopped := by
      rintro rfl
      cases hcompletes.symm.trans (completes_of_stopped hstep)
    refine ⟨k, hcompleted, .inr ⟨rfl, hgoing⟩, ?_, ?_, ?_, fun hstopped => absurd hstopped hgoing⟩
    · rw [← hpast]
      exact congrArg (·.past.length) hplace
    · exact fun j hpositive hj => hbetween j hpositive (Nat.le_of_lt hj)
    · intro _ hpositive
      exact (startsAt_of_place hplace).trans (hbetween k hpositive (Nat.le_refl k))

/-- After any operations, a machine does not wait at the end of its program, and the event of a run
is true of the machine that it leaves. A run of the program never answers that it has stopped. A run
of a statement that has stopped has completed an instruction and come to the start of a statement,
and whatever it answers, it has passed none. -/
theorem events_tell {memory : Memory} {patience : Nat} {os : List Operation}
    (hm : m = (fresh memory).afterAll patience os) :
    ¬ (m.isWaiting = true ∧ m.isDone = true) ∧
    ∀ pace patience' e, (m.run pace patience').answer = .ok e →
      e.Describes (m.run pace patience').state ∧
      (pace = .program → e ≠ .stopped) ∧
      (pace = .statement → ∃ n, m.RanStatement n e (m.run pace patience').state) := by
  have hready : m.Ready := hm ▸ ready_afterAll memory patience os
  refine ⟨?_, ?_⟩
  · rintro ⟨hwaiting, hdone⟩
    cases hdone.symm.trans (hready.going hwaiting)
  · intro pace patience' e hanswer
    obtain ⟨k, -, hlast, hstep, hstate⟩ := last_of_runOn hanswer
    refine ⟨?_, ?_, ?_⟩
    · rw [run, hstate]
      exact (hready.stepped k).describes_step hstep
    · rintro rfl rfl
      exact hlast ⟨hstep, rfl⟩
    · rintro rfl
      exact hready.ranStatement hanswer

/-- A READ, and a jump to an address below zero. -/
def plunge : Program where
  code := #[⟨4, [3]⟩, ⟨255, [0]⟩, ⟨200, [-1]⟩]
  starts := #[0, 2]

/-- From the third instruction the program jumps back to the first. Its one statement start is at
the READ. -/
def roundabout : Program where
  code := #[⟨106, [1]⟩, ⟨255, [0]⟩, ⟨106, [2]⟩, ⟨200, [0]⟩]
  starts := #[1]

/-- The first program has been left by its jump, which is undone, and the second one is entered in
the middle. -/
theorem events_tell_reloaded :
    let os : List Operation := [.load plunge, .run .statement, .access (.send .input 5),
      .run .program, .undo, .load roundabout]
    let m := (fresh (.zeroed 16)).afterAll 9 os
    m.pc = 2 ∧ ¬ (m.isWaiting = true ∧ m.isDone = true) ∧
      (m.run .statement 9).answer = .ok .stopped ∧
      Event.stopped.Describes (m.run .statement 9).state ∧
      (∃ n, m.RanStatement n .stopped (m.run .statement 9).state) ∧
      (m.run .program 9).answer = .ok .input ∧
      Event.input.Describes (m.run .program 9).state := by
  intro os m
  have hm : m = (fresh (.zeroed 16)).afterAll 9 os := rfl
  obtain ⟨hexclude, htell⟩ := events_tell hm
  have hstatement : (m.run .statement 9).answer = .ok .stopped :=
    eq_ok_of_toOption (by decide +kernel)
  have hprogram : (m.run .program 9).answer = .ok .input :=
    eq_ok_of_toOption (by decide +kernel)
  obtain ⟨hstopped, -, hran⟩ := htell .statement 9 .stopped hstatement
  obtain ⟨hinput, -, -⟩ := htell .program 9 .input hprogram
  exact ⟨by decide +kernel, hexclude, hstatement, hstopped, hran rfl, hprogram, hinput⟩

end Machine

end Backstep
