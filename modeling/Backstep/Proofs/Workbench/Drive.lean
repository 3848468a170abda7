import Backstep.Proofs.Machine.Progress
import Backstep.Proofs.Workbench.Turn
import Mathlib.Data.Nat.Find
/-!
# Driving and running

A session drives its machine with a loop of its own, which Ctrl-C and a READ to outside memory can
cut short. `Session.Compares` says how the loop compares with the run of the machine itself: it
takes the same steps and ends with the same answer, unless one of the two cuts comes first. Ctrl-C
is told by the number of a change of the program counter, and so the comparison rests on what
`Replied` says of the signals of a step: one change for each instruction that is completed, and no
other.
-/

namespace Backstep

namespace Workbench.Session

theorem misplacedInput?_eq (s : Session) :
    s.misplacedInput? = if s.machine.ReadsOutside s.memorySize then
      some
        { cause := .inputAddress s.machine.core.x s.memorySize,
          index := some s.machine.pc.toNat }
    else none := by
  have hreads : (s.machine.program.bind (·.instruction? s.machine.pc.toNat)).any
      (fun i => i.op? = some .interrupt ∧ Service.ofOperand? (i.operand 0) = some .read)
      = s.machine.next?.any (·.reads) := by
    congr 1
    funext i
    rw [Bool.eq_iff_iff, decide_eq_true_eq, Instruction.reads_iff]
  simp only [misplacedInput?, hreads]
  rfl

/-- The session after so many steps of its machine. -/
def stepped (s : Session) : Nat → Session
  | 0 => s
  | k + 1 => ((s.stepped k).following (s.stepped k).machine.step).state

theorem machine_stepped (s : Session) (k : Nat) : (s.stepped k).machine = s.machine.stepped k := by
  induction k with
  | zero => rfl
  | succ k ih =>
    rw [Machine.stepped, ← ih]
    rfl

theorem memorySize_stepped (s : Session) (k : Nat) : (s.stepped k).memorySize = s.memorySize := by
  induction k with
  | zero => rfl
  | succ k ih => exact ih

theorem moves_stepped (s : Session) (k : Nat) :
    (s.stepped k).moves = s.moves + (s.machine.sentBy k).countP Signal.movesCounter := by
  induction k with
  | zero => rfl
  | succ k ih =>
    rw [Machine.sentBy, List.countP_append, ← Nat.add_assoc, ← ih, ← machine_stepped]
    rfl

/-- Ctrl-C comes right after the change of the counter by the last of so many instructions. -/
def Interrupted (s : Session) (w : Surroundings) (k : Nat) : Prop :=
  0 < k ∧ w.interrupts (s.moves + k) = true

instance (s : Session) (w : Surroundings) (k : Nat) : Decidable (s.Interrupted w k) :=
  inferInstanceAs (Decidable (_ ∧ _))

/-- Nothing cuts a run short after so many instructions. -/
def Passes (s : Session) (w : Surroundings) (k : Nat) : Prop :=
  ¬ s.Interrupted w k ∧ ¬ (s.machine.stepped k).ReadsOutside s.memorySize

instance (s : Session) (w : Surroundings) (k : Nat) : Decidable (s.Passes w k) :=
  inferInstanceAs (Decidable (_ ∧ _))

variable {s : Session} {w : Surroundings} {pace : Pace} {k : Nat}

theorem interruptsWithin_succ (w : Surroundings) (n : Nat) :
    w.interruptsWithin n (n + 1) = w.interrupts (n + 1) := by
  simp [Surroundings.interruptsWithin]

/-- A drive has come so far if the run goes on after each step and nothing cuts it short before. -/
theorem driveOn_reach (hgoesOn : ∀ j < k, (s.machine.stepped j).GoesOn pace)
    (hpasses : ∀ j < k, s.Passes w j) (patience : Nat) (sent : Array Signal) :
    driveOn w pace (patience + k) s false sent
      = driveOn w pace patience (s.stepped k) (decide (s.Interrupted w k))
          (sent ++ s.machine.sentBy k) := by
  induction k generalizing patience with
  | zero => simp [stepped, Machine.sentBy, Interrupted]
  | succ k ih =>
    have hgoesOn' : ∀ j < k, (s.machine.stepped j).GoesOn pace :=
      fun j hj => hgoesOn j (Nat.lt_succ_of_lt hj)
    obtain ⟨hanswer, hstops⟩ := hgoesOn k (Nat.lt_succ_self k)
    obtain ⟨hinterrupted, hinside⟩ := hpasses k (Nat.lt_succ_self k)
    have hplaced : (s.stepped k).misplacedInput? = none := by
      rw [misplacedInput?_eq, machine_stepped, memorySize_stepped, if_neg hinside]
    have hmoves : (s.stepped k).moves = s.moves + k := by
      rw [moves_stepped, Machine.countP_sentBy hgoesOn']
    have hmoves' : ((s.stepped k).following (s.machine.stepped k).step).state.moves
        = s.moves + k + 1 := by
      have hnext := s.moves_stepped (k + 1)
      rw [Machine.countP_sentBy hgoesOn, stepped, machine_stepped] at hnext
      exact hnext
    rw [Nat.add_succ, ← Nat.succ_add, ih hgoesOn' fun j hj => hpasses j (Nat.lt_succ_of_lt hj)]
    simp only [driveOn, hinterrupted, decide_false, Bool.false_eq_true, if_false, hplaced,
      machine_stepped, hmoves, hmoves', interruptsWithin_succ]
    have hflag : w.interrupts (s.moves + k + 1) = decide (s.Interrupted w (k + 1)) := by
      simp [Interrupted, Nat.add_assoc]
    simp only [following, after, hanswer, hstops, Bool.false_eq_true, if_false, stepped,
      machine_stepped, Machine.sentBy, hflag, Machine.appendList_append]

/-- The reply of the session is that of its machine. -/
structure Alike (r : Reply Session Event) (r' : Reply Machine Event) : Prop where
  machine : r.state.machine = r'.state
  answer : r.answer = r'.answer
  signals : r.signals = r'.signals

theorem driveOn_of_goesOn {patience : Nat} (hplaced : s.misplacedInput? = none)
    (hgoesOn : s.machine.GoesOn pace) (sent : Array Signal) :
    driveOn w pace (patience + 1) s false sent
      = driveOn w pace patience (s.following s.machine.step).state
          (w.interruptsWithin s.moves (s.following s.machine.step).state.moves)
          (sent ++ s.machine.step.signals) := by
  obtain ⟨hstopped, hstops⟩ := hgoesOn
  simp only [driveOn, hplaced, following, after, hstopped, hstops, Bool.false_eq_true, if_false]

theorem driveOn_of_not_goesOn {patience : Nat} (hplaced : s.misplacedInput? = none)
    (hlast : ¬ s.machine.GoesOn pace) (sent : Array Signal) :
    driveOn w pace (patience + 1) s false sent
      = ⟨(s.following s.machine.step).state, s.machine.step.answer,
          (sent ++ s.machine.step.signals).toList⟩ := by
  simp only [driveOn, hplaced, Bool.false_eq_true, if_false]
  cases hanswer : s.machine.step.answer with
  | error failure => simp only [following, hanswer]
  | ok event =>
    cases event with
    | input | ended => simp only [following, hanswer]
    | stopped =>
      have hstops : pace.stops
          (s.machine.step.state.startsAt s.machine.step.state.pc.toNat) = true :=
        eq_true_of_ne_false fun hgoesOn => hlast ⟨hanswer, hgoesOn⟩
      simp only [following, after, hanswer, hstops, if_true]

/-- A run that has come to its last step, and that nothing cuts short before it, is driven as the
machine runs. -/
theorem driveOn_last {patience : Nat} (hplaced : s.misplacedInput? = none)
    (hlast : patience = 0 ∨ ¬ s.machine.GoesOn pace) (sent : Array Signal) :
    Alike (driveOn w pace (patience + 1) s false sent)
      (Machine.runOn pace (patience + 1) s.machine sent) := by
  by_cases hgoesOn : s.machine.GoesOn pace
  · obtain rfl : patience = 0 := hlast.resolve_right fun h => h hgoesOn
    rw [driveOn_of_goesOn hplaced hgoesOn, Machine.runOn_of_goesOn hgoesOn]
    exact ⟨rfl, rfl, rfl⟩
  · rw [driveOn_of_not_goesOn hplaced hgoesOn, Machine.runOn_of_not_goesOn hgoesOn]
    exact ⟨rfl, rfl, rfl⟩

/-- How many steps the machine takes if it runs at the pace, for at most as many instructions as a
drive. -/
def tried (s : Session) (w : Surroundings) (pace : Pace) : Nat :=
  s.machine.stepsTaken pace (w.patience + 1)

/-- The drive has taken so many steps of the machine and no more, and answers so. -/
structure Halfway (s : Session) (k : Nat) (answer : Except Failure Event)
    (r : Reply Session Event) : Prop where
  machine : r.state.machine = s.machine.stepped k
  answer : r.answer = answer
  signals : r.signals = s.machine.sentBy k

/-- How driving a session compares with running its machine from the same state at the same pace. -/
structure Compares (s : Session) (w : Surroundings) (pace : Pace) : Prop where
  /-- Each step on the way completes an instruction, and the changes of the counter are those of the
  instructions, one each. -/
  counted : ∀ k < s.tried w pace,
    (s.machine.stepped k).past.length = s.machine.past.length + k ∧
      (s.machine.sentBy k).countP Signal.movesCounter = k
  /-- If nothing cuts it short before its last step, the drive is the run. -/
  undisturbed : (∀ k < s.tried w pace, s.Passes w k) →
    Alike (s.drive w pace) (s.machine.run pace w.patience)
  /-- Ctrl-C right after an instruction that is not the last one stops the drive there. -/
  interrupted : ∀ k < s.tried w pace, (∀ j < k, s.Passes w j) → s.Interrupted w k →
    Halfway s k (.ok .stopped) (s.drive w pace)
  /-- A READ that would store outside memory is not begun. -/
  outside : ∀ k < s.tried w pace, (∀ j < k, s.Passes w j) → ¬ s.Interrupted w k →
    (s.machine.stepped k).ReadsOutside s.memorySize →
    Halfway s k (.error (.problem
      { cause := .inputAddress (s.machine.stepped k).core.x s.memorySize
        index := some (s.machine.stepped k).pc.toNat })) (s.drive w pace)
  /-- Ctrl-C at changes of the counter before the drive makes no difference. -/
  deaf : ∀ w' : Surroundings, w'.patience = w.patience →
    (∀ n, s.moves < n → w'.interrupts n = w.interrupts n) → s.drive w' pace = s.drive w pace

theorem interruptsWithin_congr {w' : Surroundings} {before later : Nat}
    (hsame : ∀ n, before < n → w'.interrupts n = w.interrupts n) :
    w'.interruptsWithin before later = w.interruptsWithin before later := by
  unfold Surroundings.interruptsWithin
  congr 1
  funext i
  exact hsame _ (by omega)

theorem driveOn_congr {w' : Surroundings} (patience : Nat) (interrupted : Bool)
    (sent : Array Signal) (hsame : ∀ n, s.moves < n → w'.interrupts n = w.interrupts n) :
    driveOn w' pace patience s interrupted sent = driveOn w pace patience s interrupted sent := by
  induction patience generalizing s interrupted sent with
  | zero => rfl
  | succ patience ih =>
    have hlater : ∀ n, (s.following s.machine.step).state.moves < n →
        w'.interrupts n = w.interrupts n := by
      intro n hn
      have hmoves := (s.counts_following s.machine.step).moves
      exact hsame n (by omega)
    unfold driveOn
    simp only [interruptsWithin_congr hsame, ih _ _ hlater]

/-- A drive comes as far as the run of the machine if nothing cuts it short before. -/
theorem drive_reach (hk : k < s.tried w pace) (hpasses : ∀ j < k, s.Passes w j) :
    s.drive w pace = driveOn w pace (w.patience - k + 1) ({ s with pace }.stepped k)
      (decide (s.Interrupted w k)) ((#[] : Array Signal) ++ s.machine.sentBy k) := by
  obtain ⟨hle, hgoesOn⟩ := Machine.lt_stepsTaken_iff.1 hk
  have hpatience : w.patience + 1 = (w.patience - k + 1) + k := by omega
  rw [drive, hpatience]
  exact driveOn_reach (s := { s with pace }) hgoesOn hpasses _ _

theorem drive_undisturbed (hpasses : ∀ k < s.tried w pace, s.Passes w k) :
    Alike (s.drive w pace) (s.machine.run pace w.patience) := by
  -- Both loops are followed to the last step of the run, which they take alike.
  obtain ⟨k, hk, hlast, hrun⟩ := s.machine.run_last pace w.patience
  have hlt : k < s.tried w pace := by
    rw [tried, hk]
    exact Nat.lt_succ_self k
  obtain ⟨hinterrupted, hinside⟩ := hpasses k hlt
  have hplaced : ({ s with pace }.stepped k).misplacedInput? = none := by
    rw [misplacedInput?_eq, machine_stepped, memorySize_stepped, if_neg hinside]
  rw [drive_reach hlt fun j hj => hpasses j (Nat.lt_trans hj hlt), hrun,
    decide_eq_false hinterrupted, ← machine_stepped { s with pace } k]
  exact driveOn_last hplaced (by rwa [machine_stepped]) _

/-- A session is driven as its machine runs, up to the first cut. -/
theorem compares (s : Session) (w : Surroundings) (pace : Pace) : s.Compares w pace where
  counted k hk := by
    have hgoesOn := (Machine.lt_stepsTaken_iff.1 hk).2
    exact ⟨Machine.past_stepped hgoesOn, Machine.countP_sentBy hgoesOn⟩
  undisturbed := drive_undisturbed
  interrupted k hk hpasses hinterrupted := by
    rw [drive_reach hk hpasses, decide_eq_true hinterrupted]
    exact ⟨machine_stepped _ k, rfl, by simp [driveOn]⟩
  outside k hk hpasses hinterrupted houtside := by
    have hplaced := ({ s with pace }.stepped k).misplacedInput?_eq
    rw [machine_stepped, memorySize_stepped, if_pos houtside] at hplaced
    rw [drive_reach hk hpasses, decide_eq_false hinterrupted]
    simp only [driveOn, Bool.false_eq_true, if_false, hplaced]
    exact ⟨machine_stepped _ k, rfl, by simp⟩
  deaf w' hpatience hsame := by
    rw [drive, drive, hpatience]
    exact driveOn_congr _ _ _ hsame

/-- How far a drive has come and why it has ended there. -/
structure Ends (s : Session) (k : Nat) (r : Reply Session Event) : Prop where
  machine : r.state.machine = s.machine.stepped k
  signals : r.signals = s.machine.sentBy k
  inside : ∀ j < k, ¬ (s.machine.stepped j).ReadsOutside s.memorySize
  answer : r.answer = .ok .stopped ∨ r.answer = .error (.fault .unfinished) ∨
    (s.machine.stepped k).ReadsOutside s.memorySize ∨
    ∃ j, k = j + 1 ∧ r.answer = (s.machine.stepped j).step.answer

/-- A drive that takes no step at all is kept from a READ to outside memory. -/
theorem ends_drive_begun (s : Session) (w : Surroundings) (pace : Pace) :
    ∃ k, s.Ends k (s.drive w pace) ∧ (k = 0 → s.machine.ReadsOutside s.memorySize) := by
  have hcompares := s.compares w pace
  by_cases hcut : ∃ k, k < s.tried w pace ∧ ¬ s.Passes w k
  · -- Something cuts the run short, and what comes first stops the drive.
    obtain ⟨hk, hnot⟩ := Nat.find_spec hcut
    have hbefore : ∀ j < Nat.find hcut, s.Passes w j := by
      intro j hj
      by_contra hj'
      exact Nat.find_min hcut hj ⟨Nat.lt_trans hj hk, hj'⟩
    have hinside := fun j hj => (hbefore j hj).2
    by_cases hinterrupted : s.Interrupted w (Nat.find hcut)
    · obtain ⟨hmachine, hanswer, hsignals⟩ := hcompares.interrupted _ hk hbefore hinterrupted
      refine ⟨_, ⟨hmachine, hsignals, hinside, .inl hanswer⟩, fun hnone => ?_⟩
      exact absurd hnone (Nat.pos_iff_ne_zero.1 hinterrupted.1)
    · have houtside : (s.machine.stepped (Nat.find hcut)).ReadsOutside s.memorySize := by
        by_contra hinside'
        exact hnot ⟨hinterrupted, hinside'⟩
      obtain ⟨hmachine, -, hsignals⟩ := hcompares.outside _ hk hbefore hinterrupted houtside
      refine ⟨_, ⟨hmachine, hsignals, hinside, .inr (.inr (.inl houtside))⟩, fun hnone => ?_⟩
      rwa [hnone] at houtside
  · have hpasses : ∀ k < s.tried w pace, s.Passes w k := by
      intro k hk
      by_contra hnot
      exact hcut ⟨k, hk, hnot⟩
    obtain ⟨hmachine, hanswer, hsignals⟩ := hcompares.undisturbed hpasses
    obtain ⟨k, hk, hlast, hrun⟩ := s.machine.run_last pace w.patience
    obtain ⟨answer, hrunOn, hends⟩ :=
      Machine.runOn_last hlast ((#[] : Array Signal) ++ s.machine.sentBy k)
    rw [hrun, hrunOn] at hmachine hanswer hsignals
    refine ⟨k + 1, ⟨hmachine, ?_, ?_, ?_⟩, fun hnone => absurd hnone (Nat.succ_ne_zero k)⟩
    · rw [hsignals, Machine.sentBy]
      simp
    · intro j hj
      exact (hpasses j (by rw [tried, hk]; exact hj)).2
    · rcases hends with hends | hends
      · exact .inr (.inl (hanswer.trans hends))
      · exact .inr (.inr (.inr ⟨k, rfl, hanswer.trans hends⟩))

theorem ends_drive (s : Session) (w : Surroundings) (pace : Pace) :
    ∃ k, s.Ends k (s.drive w pace) :=
  (s.ends_drive_begun w pace).imp fun _ hends => hends.1

end Workbench.Session

namespace Workbench.Console

/-- However a conversation has led to a session, driving it compares with running its machine.
Ctrl-C is told by the number of a change of the program counter, of all that were signalled since
the conversation began. A session is driven as it is or once a number for its program was typed. -/
theorem drive_compares {start : Surroundings} {memorySize : Nat} {file? : Option String}
    {turns : List (Surroundings × Typed)} {response : Response} {es : List Exchange} {c : Console}
    (h : conversation start memorySize file? turns = some (response, es, c)) (s : Session)
    (hs : s = c.session ∨ ∃ value, s = c.session.given value) (w : Surroundings) (pace : Pace) :
    s.moves
        = (response.signals ++ es.flatMap (·.response.signals)).countP Signal.movesCounter ∧
      s.Compares w pace := by
  refine ⟨?_, s.compares w pace⟩
  rcases hs with rfl | ⟨value, rfl⟩
  · exact moves_conversation h
  · rw [Session.moves_given]
    exact moves_conversation h

/-- A file that counts from two to zero and then reads to an address outside memory. Ctrl-C comes
with the second and the fifth change of the counter. -/
def countingFile : Surroundings where
  read _ := .ok ("* 1: LOAD_I(2)\n* 2: INTERRUPT(1)\n* 3: ADD_I(-1)\n"
    ++ "* 4: BRANCH_IF_NOT_ZERO(1)\n* 5: LOAD_I(-4)\n* 6: INTERRUPT(0)\n")
  interrupts n := n = 2 ∨ n = 5
  patience := 20

theorem drive_compares_counting :
    ∃ response es c,
      conversation countingFile 64 (some "a.lst")
          [(countingFile, .line "step"), (countingFile, .line "undo")] = some (response, es, c) ∧
        c.session.moves = 2 ∧
        Session.Halfway c.session 3 (.ok .stopped) (c.session.drive countingFile .program) := by
  have hcounting : (conversation countingFile 64 (some "a.lst")
      [(countingFile, .line "step"), (countingFile, .line "undo")]).map (fun (_, _, c) =>
        (c.session.moves, decide (3 < c.session.tried countingFile .program),
          decide (∀ j : Fin 3, c.session.Passes countingFile j),
          decide (c.session.Interrupted countingFile 3)))
      = some (2, true, true, true) := by decide +kernel
  obtain ⟨⟨response, es, c⟩, hconversation, heq⟩ := Option.map_eq_some_iff.1 hcounting
  simp only [Prod.mk.injEq, decide_eq_true_eq] at heq
  obtain ⟨hmoves, htried, hpasses, hinterrupted⟩ := heq
  have hcompares := (drive_compares hconversation c.session (.inl rfl) countingFile .program).2
  exact ⟨response, es, c, hconversation, hmoves,
    hcompares.interrupted 3 htried (fun j hj => hpasses ⟨j, hj⟩) hinterrupted⟩

end Workbench.Console

end Backstep
