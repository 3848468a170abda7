import Backstep.Proofs.Machine.Step
/-!
# Refusals

Undoing is refused with a problem before anything is done: where there is no program, or while an
instruction waits for its word. What goes wrong later, on the way back, is a fault. So an operation
that goes back and answers with a problem has left the machine as it was.
-/

namespace Backstep

theorem Execution.fault_of_takeBack {x : Execution} {c : Core} {failure : Failure}
    (h : x.takeBack c = .error failure) : ∃ f, failure = .fault f := by
  unfold takeBack at h
  split at h
  · cases h
  · cases h
  · cases h
  · exact Core.fault_of_store h

theorem Engine.no_problem_of_rewind (stop : Address → Bool) (core : Core) (past : List Execution)
    (sent : Array Signal) (p : Problem) :
    (Engine.rewind stop core past sent).answer ≠ .error (.problem p) := by
  induction past generalizing core sent with
  | nil =>
    intro h
    cases h
  | cons x past ih =>
    unfold rewind
    simp only
    split
    · rename_i failure hback
      obtain ⟨f, rfl⟩ := Execution.fault_of_takeBack hback
      intro h
      cases h
    · split
      · intro h
        cases h
      · exact ih _ _

theorem Engine.state_of_undo_error {e : Engine} {failure : Failure}
    (h : e.undo.answer = .error failure) : e.undo.state = e := by
  unfold undo at h ⊢
  cases hsuspended : e.suspended with
  | some s => simp only
  | none =>
    cases hpast : e.past with
    | nil => simp only
    | cons x past =>
      simp only [hsuspended, hpast] at h ⊢
      cases hback : x.takeBack e.core with
      | error failure => rfl
      | ok t =>
        rw [hback] at h
        cases h

namespace Machine

variable {m : Machine} {p : Problem}

theorem undo_refused (h : m.undo.answer = .error (.problem p)) : m.undo.state = m := by
  unfold undo at h ⊢
  split
  · rfl
  · split
    · rfl
    · split
      · rfl
      · rename_i hprogram hwaiting hpast
        rw [if_neg hprogram, if_neg hwaiting, if_neg hpast] at h
        cases hanswer : m.toEngine.undo.answer with
        | ok x =>
          simp only [Reply.map, Reply.within, hanswer] at h
          cases h
        | error failure =>
          simp only [Reply.map, Reply.within, Engine.state_of_undo_error hanswer]

theorem undoStatement_refused (h : m.undoStatement.answer = .error (.problem p)) :
    m.undoStatement.state = m := by
  unfold undoStatement at h ⊢
  split at h
  · rename_i hprogram
    rw [if_pos hprogram]
    rfl
  · rename_i hprogram
    rw [if_neg hprogram]
    split at h
    · rename_i hwaiting
      rw [if_pos hwaiting]
      rfl
    · exact absurd h (Engine.no_problem_of_rewind _ _ _ _ p)

theorem reset_refused (h : m.reset.answer = .error (.problem p)) : m.reset.state = m := by
  unfold reset at h ⊢
  split at h
  · rename_i hwaiting
    rw [if_pos hwaiting]
    rfl
  · exact absurd h (Engine.no_problem_of_rewind _ _ _ _ p)

end Machine

end Backstep
