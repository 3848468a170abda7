import Backstep.Proofs.Machine.Failure
/-!
# The course of a program

A program whose input comes bit by bit, as it is asked for, has one course: the single steps that it
takes if all its input is there from the start. `OnCourse` says that a machine stands on it, at the
place that the length of its history tells. No step leaves the course and no word that is fed does,
so machines that have come equally far are alike, and one that can go no further bounds how far any
other has come.
-/

namespace Backstep

namespace Machine

/-- So many words have come to the machine since the start, and it stands where as many steps from
there lead as its history is long, whatever comes later. No step on the way was a READ that would
store outside a memory of the size. -/
structure OnCourse (memorySize : Nat) (start : Machine) (words : List Word) (m : Machine) :
    Prop where
  attentive : Attentive m
  ahead : ∀ rest, m.ahead rest = (start.ahead (words ++ rest)).stepped m.past.length
  inside : ∀ rest, ∀ k < m.past.length,
    ¬ ((start.ahead (words ++ rest)).stepped k).ReadsOutside memorySize

namespace OnCourse

variable {memorySize : Nat} {start m m' : Machine} {words words' : List Word}

theorem refl (hattentive : Attentive start) (hpast : start.past = []) :
    OnCourse memorySize start [] start where
  attentive := hattentive
  ahead rest := by
    rw [hpast]
    rfl
  inside rest k hk := by
    rw [hpast] at hk
    exact absurd hk (Nat.not_lt_zero k)

theorem feed (h : OnCourse memorySize start words m) (w : Word) :
    OnCourse memorySize start (words ++ [w]) (m.tick (.feed w)) := by
  obtain ⟨hattentive, -, hahead⟩ := h.attentive.feed w
  refine ⟨hattentive, ?_, ?_⟩
  · intro rest
    rw [hahead, h.ahead, List.append_assoc, List.singleton_append]
    rfl
  · intro rest k hk
    rw [List.append_assoc, List.singleton_append]
    exact h.inside (w :: rest) k hk

/-- A step leads to the next place, or stays where it is. -/
theorem step (h : OnCourse memorySize start words m) (hinside : ¬ m.ReadsOutside memorySize) :
    OnCourse memorySize start words m.step.state := by
  obtain ⟨hattentive, hadvance⟩ := h.attentive.step
  have hnext : ∀ {x : Execution}, m.step.state.past = x :: m.past →
      (∀ rest, (m.ahead rest).step.state = m.step.state.ahead rest) →
      OnCourse memorySize start words m.step.state := by
    intro x hpast hahead
    have hlength : m.step.state.past.length = m.past.length + 1 := congrArg List.length hpast
    refine ⟨hattentive, ?_, ?_⟩
    · intro rest
      rw [← hahead, h.ahead, hlength, stepped]
    · intro rest k hk
      rcases Nat.lt_or_eq_of_le (Nat.le_of_lt_succ (hlength ▸ hk)) with hk | rfl
      · exact h.inside rest k hk
      · rw [← h.ahead]
        exact hinside
  cases hadvance with
  | still hpast _ hahead =>
    refine ⟨hattentive, ?_, ?_⟩
    · intro rest
      rw [hahead, h.ahead, hpast]
    · rw [hpast]
      exact h.inside
  | ran hpast _ _ hahead => exact hnext hpast hahead
  | took hpast _ _ _ hahead => exact hnext hpast hahead

theorem stepped (h : OnCourse memorySize start words m) {k : Nat}
    (hinside : ∀ j < k, ¬ (m.stepped j).ReadsOutside memorySize) :
    OnCourse memorySize start words (m.stepped k) := by
  induction k with
  | zero => exact h
  | succ k ih =>
    exact (ih fun j hj => hinside j (Nat.lt_succ_of_lt hj)).step (hinside k (Nat.lt_succ_self k))

/-- Machines that have come equally far are alike, whatever words each still has to store. -/
theorem snapshot_eq (h : OnCourse memorySize start words m)
    (h' : OnCourse memorySize start words' m') {all : List Word} (hwords : words <+: all)
    (hwords' : words' <+: all) (hlength : m.past.length = m'.past.length) :
    m.snapshot = m'.snapshot := by
  obtain ⟨rest, hrest⟩ := hwords
  obtain ⟨rest', hrest'⟩ := hwords'
  have hahead : m.ahead rest = m'.ahead rest' := by
    rw [h.ahead, h'.ahead, hrest, hrest', hlength]
  have hsnapshot : (m.ahead rest).snapshot = (m'.ahead rest').snapshot :=
    congrArg Machine.snapshot hahead
  exact hsnapshot

end OnCourse

/-! ### The end of the course -/

/-- The machine can go no further: the next step is a READ that is not begun, or no step of it does
anything, whatever comes to the input. -/
def Halted (m : Machine) (memorySize : Nat) : Prop :=
  m.ReadsOutside memorySize ∨
    m.suspended = none ∧ m.awaitsWord = false ∧ m.step.state = m

theorem stepped_of_still {m : Machine} (hstill : m.step.state = m) (k : Nat) : m.stepped k = m := by
  induction k with
  | zero => rfl
  | succ k ih => rw [stepped, ih, hstill]

theorem stepped_add (m : Machine) (j k : Nat) : m.stepped (j + k) = (m.stepped j).stepped k := by
  induction k with
  | zero => rfl
  | succ k ih => rw [← Nat.add_assoc, stepped, ih, stepped]

/-- What comes to the input makes no difference to a machine that does nothing without it. -/
theorem step_ahead_of_still {m : Machine} (hidle : m.suspended = none)
    (hquiet : m.awaitsWord = false) (hstill : m.step.state = m) (rest : List Word) :
    (m.ahead rest).step.state = m.ahead rest := by
  have hsame : m.ahead rest
      = m.changed fun c => { c with input := { buffer := m.core.input.queued ++ rest } } := by
    simp only [ahead, changed, hidle]
  rw [hsame, step_changed (Core.unnoticed_input _) m (by simp [hquiet])]
  simp only [Reply.within, hstill]

theorem Halted.behind {m : Machine} {memorySize : Nat} (h : m.Halted memorySize)
    (words : List Word) : (m.changed (.behind words)).Halted memorySize := by
  rcases h with houtside | ⟨hidle, hquiet, hstill⟩
  · exact .inl houtside
  · refine .inr ⟨hidle, hquiet, ?_⟩
    rw [step_changed (Core.unnoticed_behind words) _ fun _ => Core.unnoticedByReads_behind words]
    exact congrArg (fun m : Machine => m.changed (.behind words)) hstill

/-- No machine has come further on the course than one that can go no further. -/
theorem OnCourse.le_of_halted {memorySize : Nat} {start m m' : Machine} {words words' : List Word}
    (h : OnCourse memorySize start words m) (hhalted : m.Halted memorySize)
    (h' : OnCourse memorySize start words' m') {all : List Word} (hwords : words <+: all)
    (hwords' : words' <+: all) : m'.past.length ≤ m.past.length := by
  obtain ⟨rest, hrest⟩ := hwords
  obtain ⟨rest', hrest'⟩ := hwords'
  apply Nat.le_of_not_lt
  intro hlt
  rcases hhalted with houtside | ⟨hidle, hquiet, hstill⟩
  · have hinside := h'.inside rest' m.past.length hlt
    rw [hrest', ← hrest, ← h.ahead] at hinside
    exact hinside houtside
  · have hsame : m'.ahead rest' = m.ahead rest := by
      rw [h'.ahead, hrest', ← hrest, ← Nat.add_sub_cancel' (Nat.le_of_lt hlt), stepped_add,
        ← h.ahead]
      exact stepped_of_still (step_ahead_of_still hidle hquiet hstill rest) _
    have hlength : m'.past.length = m.past.length := congrArg (·.past.length) hsame
    omega

theorem step_of_done {m : Machine} (hidle : m.suspended = none) (hdone : m.isDone = true) :
    m.next? = none ∧ m.step = ⟨m, .ok .ended, []⟩ := by
  unfold isDone at hdone
  obtain ⟨p, hprogram, hsize⟩ := (Option.any_eq_true _ _).1 hdone
  have hnone : p.instruction? m.pc.toNat = none :=
    Array.getElem?_eq_none_iff.2 (of_decide_eq_true hsize)
  refine ⟨by simp [next?, hprogram, hnone], ?_⟩
  simp [step, hprogram, Engine.isWaiting, hidle, hnone]

theorem halted_of_done {m : Machine} (hidle : m.suspended = none) (hdone : m.isDone = true)
    (memorySize : Nat) : m.Halted memorySize := by
  obtain ⟨hnext, hstep⟩ := step_of_done hidle hdone
  exact .inr ⟨hidle, by simp [awaitsWord, hidle, hnext], by rw [hstep]⟩

/-- A step that ends the run at the end of the program or with a problem leaves the machine where no
other leads further. -/
theorem Attentive.halted_of_answer {m : Machine} (hattentive : Attentive m) (memorySize : Nat)
    (h : m.step.answer = .ok .ended ∨ ∃ p, m.step.answer = .error (.problem p)) :
    m.step.state.Halted memorySize := by
  rcases h with hended | ⟨p, hproblem⟩
  · have hreplied := m.replied_step
    generalize m.step = r at hended hreplied
    cases hreplied with
    | ended hidle hdone => exact halted_of_done hidle hdone memorySize
    | @completed x _ _ _ core =>
      simp only [Except.ok.injEq, ite_eq_left_iff, reduceCtorEq, imp_false, Bool.not_eq_true,
        Bool.not_eq_false] at hended
      exact halted_of_done rfl hended memorySize
    | unprogrammed | unprepared | failed | waits => cases hended
  · have hstill := state_of_error hproblem
    rw [hstill]
    suffices hquiet : m.suspended = none ∧ m.awaitsWord = false from
      .inr ⟨hquiet.1, hquiet.2, hstill⟩
    cases hattentive.ready.step_error_iff.1 hproblem with
    | unprogrammed hprogram =>
      have hnext : m.next? = none := by simp [next?, hprogram]
      cases hsuspended : m.suspended with
      | none => exact ⟨rfl, by simp [awaitsWord, hsuspended, hnext]⟩
      | some s =>
        obtain ⟨i, hsome, -⟩ := hattentive.parked s hsuspended
        cases hnext.symm.trans hsome
    | division hidle hnext hdivides =>
      refine ⟨hidle, ?_⟩
      simp only [awaitsWord, hidle, hnext, Option.any_some, hdivides.reads]

end Machine

end Backstep
