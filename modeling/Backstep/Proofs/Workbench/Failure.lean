import Backstep.Proofs.Machine.Failure
import Backstep.Proofs.Machine.Storing
import Backstep.Proofs.Workbench.Output
/-!
# Failing at the workbench

A session looks at each READ before it is begun, so one that would store outside memory is a problem
there and no fault. Otherwise a drive fails where a step of its machine does. Either way the session
is left as it was behind the instructions that were completed, and driving it on fails at once.
-/

namespace Backstep.Workbench

namespace Session

/-- The next step of a drive fails with the problem. -/
inductive Fails (s : Session) : Problem → Prop
  | outside (houtside : s.machine.ReadsOutside s.memorySize) :
      Fails s
        { cause := .inputAddress s.machine.core.x s.memorySize
          index := some s.machine.pc.toNat }
  | machine {p : Problem} (hinside : ¬ s.machine.ReadsOutside s.memorySize)
      (hfails : s.machine.Fails p) : Fails s p

/-- The drive has failed with the problem in the other session, behind the instructions that it
completed. Driving that session on at the same pace fails with the same problem, whatever
the surroundings, and does nothing. -/
structure DriveFailed (s : Session) (pace : Pace) (p : Problem) (s' : Session) : Prop where
  completed : ∃ k, s.machine.Completed k s'.machine
  fails : s'.Fails p
  again : ∀ w, ∃ notes : List Diagnostic,
    s'.drive w pace = ⟨s', .error (.problem p), notes.map .diagnostic⟩

variable {s : Session} {p : Problem} {pace : Pace}

/-- A session hears nothing in what only tells a log. -/
theorem following_notes {α : Type} (answer : Except Failure α) (notes : List Diagnostic) :
    s.following ⟨s.machine, answer, notes.map .diagnostic⟩
      = ⟨s, answer, notes.map .diagnostic⟩ := by
  have hwritten : (notes.map Signal.diagnostic).foldl Signal.noteWritten s.written = s.written :=
    Signal.foldl_noteWritten_of_silent (List.forall_mem_map.2 fun _ _ => rfl) s.written
  have hmoves : (notes.map Signal.diagnostic).countP Signal.movesCounter = 0 :=
    countP_quiet (List.forall_mem_map.2 fun _ _ => rfl)
  simp only [following, after, hwritten, hmoves, Nat.add_zero]

theorem Fails.driveOn (h : s.Fails p) (w : Surroundings) (pace : Pace) (patience : Nat)
    (sent : Array Signal) :
    ∃ notes : List Diagnostic, driveOn w pace (patience + 1) s false sent
      = ⟨s, .error (.problem p), (sent ++ notes.map Signal.diagnostic).toList⟩ := by
  cases h with
  | outside houtside =>
    refine ⟨[], ?_⟩
    simp only [Session.driveOn, misplacedInput?_eq, if_pos houtside, Bool.false_eq_true, if_false]
    rfl
  | machine hinside hfails =>
    obtain ⟨notes, hstep⟩ := hfails.step
    refine ⟨notes, ?_⟩
    simp only [Session.driveOn, misplacedInput?_eq, if_neg hinside, hstep, following_notes,
      Bool.false_eq_true, if_false]

theorem Fails.drive (h : s.Fails p) (w : Surroundings) :
    ∃ notes : List Diagnostic,
      s.drive w s.pace = ⟨s, .error (.problem p), notes.map .diagnostic⟩ := by
  obtain ⟨notes, hdriveOn⟩ := h.driveOn w s.pace w.patience #[]
  refine ⟨notes, hdriveOn.trans ?_⟩
  simp

theorem pace_stepped (s : Session) (k : Nat) : (s.stepped k).pace = s.pace := by
  induction k with
  | zero => rfl
  | succ k ih => exact ih

theorem stepped_following (s : Session) (k : Nat) :
    (s.following s.machine.step).state.stepped k = s.stepped (k + 1) := by
  induction k with
  | zero => rfl
  | succ k ih =>
    rw [stepped, ih]
    rfl

/-- A drive that fails has come to where the next step fails, and has changed nothing since. -/
theorem fails_of_driveOn {w : Surroundings} {patience : Nat} {interrupted : Bool}
    {sent : Array Signal} (hready : s.machine.Ready)
    (hanswer : (driveOn w pace patience s interrupted sent).answer = .error (.problem p)) :
    ∃ k, (∀ j < k, (s.machine.stepped j).GoesOn pace) ∧
      (driveOn w pace patience s interrupted sent).state = s.stepped k ∧ (s.stepped k).Fails p := by
  induction patience generalizing s interrupted sent with
  | zero => cases hanswer
  | succ patience ih =>
    cases interrupted with
    | true => cases hanswer
    | false =>
      have hhere : ∀ q, s.Fails q → ∃ k, (∀ j < k, (s.machine.stepped j).GoesOn pace) ∧
          (driveOn w pace (patience + 1) s false sent).state = s.stepped k ∧
          (s.stepped k).Fails p := by
        intro q hfails
        obtain ⟨notes, hdriveOn⟩ := hfails.driveOn w pace patience sent
        rw [hdriveOn] at hanswer ⊢
        cases hanswer
        exact ⟨0, fun j hj => absurd hj (Nat.not_lt_zero j), rfl, hfails⟩
      by_cases houtside : s.machine.ReadsOutside s.memorySize
      · exact hhere _ (.outside houtside)
      · have hplaced : s.misplacedInput? = none := by rw [misplacedInput?_eq, if_neg houtside]
        by_cases hgoesOn : s.machine.GoesOn pace
        · rw [driveOn_of_goesOn hplaced hgoesOn] at hanswer ⊢
          obtain ⟨k, hsteps, hstate, hfails⟩ := ih hready.step.1 hanswer
          rw [stepped_following] at hstate hfails
          refine ⟨k + 1, ?_, hstate, hfails⟩
          rw [Nat.forall_lt_succ_left]
          refine ⟨hgoesOn, fun j hj => ?_⟩
          rw [← Machine.stepped_step_state]
          exact hsteps j hj
        · rw [driveOn_of_not_goesOn hplaced hgoesOn] at hanswer
          exact hhere p (.machine houtside (hready.step_error_iff.1 hanswer))

theorem driveFailed (hready : s.machine.Ready) {w : Surroundings}
    (hanswer : (s.drive w pace).answer = .error (.problem p)) :
    s.DriveFailed pace p (s.drive w pace).state := by
  obtain ⟨k, hgoesOn, hstate, hfails⟩ := fails_of_driveOn (s := { s with pace }) hready hanswer
  have hcompleted := hready.completed hgoesOn
  rw [drive, hstate]
  refine ⟨⟨k, ?_⟩, hfails, fun w => ?_⟩
  · rw [machine_stepped]
    exact hcompleted
  · have hagain := hfails.drive w
    rw [pace_stepped] at hagain
    exact hagain

end Session

namespace Console

/-- After any operations a step of a machine answers with a problem exactly where `Fails` says so,
and then it changes nothing. A run or a drive that answers with a problem stands where the
instructions that it completed have led, and fails there again if it is tried again. -/
theorem failures_atomic :
    (∀ (memory : Memory) (patience : Nat) (os : List Operation) (m : Machine),
      m = (Machine.fresh memory).afterAll patience os →
      (∀ p, m.step.answer = .error (.problem p) ↔ m.Fails p) ∧
      (∀ p, m.Fails p → ∃ notes : List Diagnostic,
        m.step = ⟨m, .error (.problem p), notes.map .diagnostic⟩) ∧
      ∀ pace patience p, (m.run pace patience).answer = .error (.problem p) →
        m.RunFailed p (m.run pace patience).state) ∧
    ∀ memorySize file? c, Reached memorySize file? c → ∀ s : Session,
      (s = c.session ∨ ∃ value, s = c.session.given value) → ∀ w pace p,
        (s.drive w pace).answer = .error (.problem p) →
          s.DriveFailed pace p (s.drive w pace).state := by
  constructor
  · rintro memory patience os m rfl
    have hready := Machine.ready_afterAll memory patience os
    exact ⟨fun p => hready.step_error_iff, fun p hfails => hfails.step,
      fun pace patience p hanswer => hready.runFailed hanswer⟩
  · intro memorySize file? c hc s hs w pace p hanswer
    have hquiet : s.Quiet := by
      rcases hs with rfl | ⟨value, rfl⟩
      · exact hc.quiet
      · exact hc.quiet.given value
    exact Session.driveFailed hquiet.attentive.ready hanswer

theorem failures_atomic_counting :
    let m := (Machine.fresh (.zeroed 16)).afterAll 20 [.load Machine.countdown, .run .instruction]
    m.RunFailed { cause := .divisionByZero, line := some 6, index := some 5 }
        (m.run .program 20).state ∧
      (m.run .program 20).state.past.length = 9 ∧
      ∃ response es c,
        conversation countingFile 64 (some "a.lst")
            [(countingFile, .line "run"), (countingFile, .line "run")] = some (response, es, c) ∧
        c.session.DriveFailed .program { cause := .inputAddress (-4) 64, index := some 5 }
          (c.session.drive countingFile .program).state := by
  intro m
  obtain ⟨hmachine, hsession⟩ := failures_atomic
  have hdivision : (m.run .program 20).answer
      = .error (.problem { cause := .divisionByZero, line := some 6, index := some 5 }) :=
    eq_error_of_failure? (by decide +kernel)
  have hcounting : (conversation countingFile 64 (some "a.lst")
      [(countingFile, .line "run"), (countingFile, .line "run")]).map (fun (_, _, c) =>
        failure? (c.session.drive countingFile .program).answer)
      = some (some (.problem { cause := .inputAddress (-4) 64, index := some 5 })) := by
    decide +kernel
  obtain ⟨⟨response, es, c⟩, hconversation, hfailure⟩ := Option.map_eq_some_iff.1 hcounting
  have hreached := reached_of_conversation hconversation
  refine ⟨(hmachine _ 20 _ m rfl).2.2 _ _ _ hdivision, by decide +kernel, response, es, c,
    hconversation, ?_⟩
  exact hsession 64 _ c hreached c.session (.inl rfl) countingFile .program _
    (eq_error_of_failure? hfailure)

end Console

end Backstep.Workbench
