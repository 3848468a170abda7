import Backstep.Machine.Run
import Backstep.Proofs.Machine.Execution
/-!
# Operations, deed by deed

A run executes many instructions and an undone statement takes back many. What has to hold at every
moment is therefore said of the smallest things that happen to a machine: one step, one execution
taken back, one program loaded, one access from outside. `Machine.deeds` lists them for an
operation, and `state_perform` says that doing them one after another is the operation. What every
deed preserves then holds of every machine that operations can reach.
-/

namespace Backstep

theorem eq_ok_of_toOption {ε α : Type} {result : Except ε α} {a : α}
    (h : result.toOption = some a) : result = .ok a := by
  cases result with
  | error e => cases h
  | ok b =>
    cases h
    rfl

def failure? {ε α : Type} : Except ε α → Option ε
  | .ok _ => none
  | .error e => some e

theorem eq_error_of_failure? {ε α : Type} {result : Except ε α} {e : ε}
    (h : failure? result = some e) : result = .error e := by
  cases result with
  | ok a => cases h
  | error e =>
    cases h
    rfl

/-- The smallest things that happen to a machine. -/
inductive Deed
  | load (program : Program)
  | step
  | takeBack
  | access (a : Access)
deriving DecidableEq

namespace Machine

/-- A new machine with a memory that was filled from outside. -/
def fresh (memory : Memory) : Machine := { core := { memory } }

def next? (m : Machine) : Option Instruction := m.program.bind (·.instruction? m.pc.toNat)

/-- A step completes an instruction. -/
def completes (m : Machine) : Bool := m.past.length < m.step.state.past.length

/-- A step completes a READ. -/
def completesRead (m : Machine) : Bool :=
  m.completes && m.step.state.past.head?.any (·.instruction.reads)

/-- The machine that a step leaves behind. -/
inductive Stepped (m : Machine) : Machine → Prop
  /-- Nothing could be executed, or the execution failed or still waits. -/
  | unchanged : Stepped m m
  | completed {x : Execution} {core : Core} (hidle : m.suspended = none)
      (hnext : m.next? = some x.instruction) (hprepared : x.Prepared m.core)
      (houtcome : x.Outcome none m.core core) :
      Stepped m { m with core, past := x :: m.past }
  | resumed {s : Suspended} {core : Core} (hwaits : m.suspended = some s)
      (houtcome : s.execution.Outcome (some s.ticket) m.core core) :
      Stepped m { m with core, past := s.execution :: m.past, suspended := none }
  | parked {x : Execution} {input : Channel} {ticket : Ticket} {notices : List Signal}
      (hidle : m.suspended = none) (hnext : m.next? = some x.instruction)
      (hprepared : x.Prepared m.core) (hreads : x.instruction.reads = true)
      (hinput : m.core.nextInput none = ⟨({ m.core with input }, .pending ticket), notices⟩) :
      Stepped m { m with core := { m.core with input }, suspended := some ⟨x, ticket⟩ }

private theorem stepped_attempt_none {m : Machine} {x : Execution} {sent : List Signal}
    (hidle : m.suspended = none) (hnext : m.next? = some x.instruction)
    (hprepared : x.Prepared m.core) :
    m.Stepped { m with toEngine := (m.toEngine.attempt x none sent).state } := by
  unfold Engine.attempt
  split
  · exact .unchanged
  · rename_i core signals hperform
    have houtcome := Execution.outcome_of_perform hperform
    have h := Stepped.completed hidle hnext hprepared houtcome
    rw [← hidle]
    exact h
  · rename_i core ticket signals hperform
    obtain ⟨hreads, -, notices, hinput⟩ := Execution.of_perform_waiting hperform
    obtain ⟨input, hcore⟩ := Execution.nextInput_core m.core none
    rw [hinput] at hcore
    simp only at hcore
    subst hcore
    exact .parked hidle hnext hprepared hreads hinput

private theorem stepped_attempt_some {m : Machine} {s : Suspended}
    (hwaits : m.suspended = some s) :
    m.Stepped { m with toEngine := (m.toEngine.attempt s.execution (some s.ticket) []).state } := by
  unfold Engine.attempt
  split
  · exact .unchanged
  · rename_i core signals hperform
    exact .resumed hwaits (Execution.outcome_of_perform hperform)
  · rename_i core ticket signals hperform
    obtain ⟨-, -, notices, hinput⟩ := Execution.of_perform_waiting hperform
    have hsame : core = m.core ∧ ticket = s.ticket := by
      simp only [Core.nextInput, Core.collect, Channel.collect] at hinput
      split at hinput
      · rename_i heq
        split at heq <;> cases heq
        cases hinput
      · rename_i heq
        split at heq <;> cases heq
        cases hinput
        exact ⟨rfl, rfl⟩
    obtain ⟨rfl, rfl⟩ := hsame
    have heq : ({ m with suspended := some ⟨s.execution, s.ticket⟩ } : Machine) = m := by
      rw [← hwaits]
    exact heq ▸ .unchanged

theorem stepped_step (m : Machine) : m.Stepped m.step.state := by
  unfold step
  split
  · exact .unchanged
  · rename_i p hprogram
    split
    · rename_i hwaiting
      obtain ⟨s, hwaits⟩ := Option.isSome_iff_exists.1 hwaiting
      simp only [following, Engine.retry, hwaits]
      exact stepped_attempt_some hwaits
    · rename_i hwaiting
      split
      · exact .unchanged
      · rename_i i hinstruction
        have hidle : m.suspended = none := by
          simpa [Engine.isWaiting] using hwaiting
        have hnext : m.next? = some i := by simp [next?, hprogram, hinstruction]
        simp only [following, Engine.execute, if_neg hwaiting]
        split
        · exact .unchanged
        · rename_i x signals hprepare
          obtain ⟨hsame, hprepared⟩ := Execution.prepared_of_prepare hprepare
          exact stepped_attempt_none hidle (by rw [hnext, ← hsame]) hprepared

/-- The machine after the latest execution was taken back, if there is one and none waits. -/
def takenBack (m : Machine) : Machine := { m with toEngine := m.toEngine.undo.state }

/-- Taking back either changes nothing or takes the latest execution off. -/
theorem takenBack_cases (m : Machine) :
    m.takenBack = m ∨ ∃ x past core sent, m.suspended = none ∧ m.past = x :: past ∧
      x.takeBack m.core = .ok ⟨core, sent⟩ ∧ m.takenBack = { m with core, past } := by
  unfold takenBack Engine.undo
  split
  · exact .inl rfl
  · exact .inl rfl
  · rename_i x past hidle hpast
    split
    · exact .inl rfl
    · rename_i core sent htakeBack
      refine .inr ⟨x, past, core, sent, hidle, hpast, htakeBack, ?_⟩
      rw [← hidle]

def after (m : Machine) : Deed → Machine
  | .load p => (m.load p).state
  | .step => m.step.state
  | .takeBack => m.takenBack
  | .access a => (m.access a).state

def afterDeeds (m : Machine) (ds : List Deed) : Machine := ds.foldl after m

@[simp] theorem afterDeeds_nil (m : Machine) : m.afterDeeds [] = m := rfl

@[simp] theorem afterDeeds_cons (m : Machine) (d : Deed) (ds : List Deed) :
    m.afterDeeds (d :: ds) = (m.after d).afterDeeds ds := rfl

theorem afterDeeds_append (m : Machine) (ds es : List Deed) :
    m.afterDeeds (ds ++ es) = (m.afterDeeds ds).afterDeeds es := List.foldl_append

/-! ### The deeds of an operation -/

def stepsTaken (pace : Pace) : (patience : Nat) → Machine → Nat
  | 0, _ => 0
  | patience + 1, m =>
    match m.step.answer with
    | .ok .stopped =>
      if pace.stops (m.step.state.startsAt m.step.state.pc.toNat) then 1
      else stepsTaken pace patience m.step.state + 1
    | _ => 1

theorem state_runOn (pace : Pace) (patience : Nat) (m : Machine) (sent : Array Signal) :
    (runOn pace patience m sent).state
      = m.afterDeeds (.replicate (m.stepsTaken pace patience) .step) := by
  induction patience generalizing m sent with
  | zero => rfl
  | succ patience ih =>
    unfold runOn stepsTaken
    simp only
    cases m.step.answer with
    | ok event =>
      cases event with
      | stopped =>
        simp only
        split
        · rfl
        · rw [ih, List.replicate_succ, afterDeeds_cons, after]
      | input => rfl
      | ended => rfl
    | error failure => rfl

/-- How many executions are taken back until the counter is where it shall stop. -/
def retreats (stop : Address → Bool) (core : Core) : List Execution → Nat
  | [] => 0
  | x :: past =>
    match x.takeBack core with
    | .error _ => 0
    | .ok ⟨core, _⟩ => if stop core.pc then 1 else retreats stop core past + 1

theorem state_rewind (stop : Address → Bool) (m : Machine) (hidle : m.suspended = none)
    (sent : Array Signal) :
    { m with toEngine := (Engine.rewind stop m.core m.past sent).state }
      = m.afterDeeds (.replicate (retreats stop m.core m.past) .takeBack) := by
  obtain ⟨⟨core, past, suspended⟩, program, starts⟩ := m
  simp only at hidle
  subst hidle
  induction past generalizing core sent with
  | nil => rfl
  | cons x past ih =>
    unfold Engine.rewind retreats
    simp only
    cases htakeBack : x.takeBack core with
    | error failure => rfl
    | ok restored =>
      obtain ⟨core', signals⟩ := restored
      have hback : ({ core, past := x :: past, program, starts } : Machine).takenBack
          = { core := core', past, program, starts } := by
        simp only [takenBack, Engine.undo, htakeBack]
      simp only
      split
      · rw [List.replicate_one, afterDeeds_cons, after, hback, afterDeeds_nil]
      · rw [ih, List.replicate_succ, afterDeeds_cons, after, hback]

/-- The deeds that an operation consists of. A refused operation has none. -/
def deeds (m : Machine) (patience : Nat) : Operation → List Deed
  | .load p => [.load p]
  | .run pace => .replicate (m.stepsTaken pace (patience + 1)) .step
  | .undo => if m.program.isNone then [] else [.takeBack]
  | .undoStatement =>
    if m.program.isNone || m.isWaiting then []
    else .replicate (retreats (fun pc => m.startsAt pc.toNat) m.core m.past) .takeBack
  | .reset =>
    if m.isWaiting then []
    else .replicate (retreats (fun _ => false) m.core m.past) .takeBack
  | .access a => [.access a]

private theorem state_undo (m : Machine) :
    m.undo.state = m.afterDeeds (m.deeds 0 .undo) := by
  unfold undo deeds
  split
  · rfl
  · rw [afterDeeds_cons, afterDeeds_nil, after, takenBack]
    split
    · rename_i hwaiting
      obtain ⟨s, hwaits⟩ := Option.isSome_iff_exists.1 hwaiting
      simp only [Engine.undo, hwaits]
      rfl
    · rename_i hwaiting
      split
      · rename_i hempty
        have hidle : m.suspended = none := by simpa [Engine.isWaiting] using hwaiting
        rw [List.isEmpty_iff] at hempty
        simp only [Engine.undo, hidle, hempty]
      · rfl

/-- An operation is its deeds, one after another. -/
theorem state_perform (m : Machine) (patience : Nat) (o : Operation) :
    (m.perform patience o).state = m.afterDeeds (m.deeds patience o) := by
  cases o with
  | load p => rfl
  | run pace => exact state_runOn pace (patience + 1) m #[]
  | undo => exact state_undo m
  | undoStatement =>
    simp only [perform, Reply.map, undoStatement, deeds]
    by_cases hprogram : m.program.isNone = true
    · rw [if_pos hprogram, if_pos (by simp only [hprogram, Bool.true_or])]
      rfl
    · by_cases hwaiting : m.isWaiting = true
      · rw [if_neg hprogram, if_pos hwaiting, if_pos (by simp only [hwaiting, Bool.or_true])]
        rfl
      · have hidle : m.suspended = none := by simpa [Engine.isWaiting] using hwaiting
        rw [if_neg hprogram, if_neg hwaiting, if_neg (by simp only [hprogram, hwaiting]; decide)]
        exact state_rewind _ m hidle #[]
  | reset =>
    simp only [perform, Reply.map, reset, deeds]
    by_cases hwaiting : m.isWaiting = true
    · rw [if_pos hwaiting, if_pos hwaiting]
      rfl
    · have hidle : m.suspended = none := by simpa [Engine.isWaiting] using hwaiting
      rw [if_neg hwaiting, if_neg hwaiting]
      exact state_rewind _ m hidle #[]
  | access a => rfl

/-- The machine after operations, each given up after so many instructions. -/
def afterAll (m : Machine) (patience : Nat) (os : List Operation) : Machine :=
  os.foldl (fun m o => (m.perform patience o).state) m

/-- The deeds of operations, one operation after another. -/
def allDeeds (m : Machine) (patience : Nat) : List Operation → List Deed
  | [] => []
  | o :: os => m.deeds patience o ++ (m.perform patience o).state.allDeeds patience os

theorem afterAll_eq_afterDeeds (m : Machine) (patience : Nat) (os : List Operation) :
    m.afterAll patience os = m.afterDeeds (m.allDeeds patience os) := by
  induction os generalizing m with
  | nil => rfl
  | cons o os ih =>
    rw [allDeeds, afterDeeds_append, ← state_perform, ← ih]
    rfl

theorem mem_allDeeds {m : Machine} {patience : Nat} {os : List Operation} {d : Deed}
    (hd : d ∈ m.allDeeds patience os) : ∃ o ∈ os, ∃ m' : Machine, d ∈ m'.deeds patience o := by
  induction os generalizing m with
  | nil => cases hd
  | cons o os ih =>
    rcases List.mem_append.1 hd with hd | hd
    · exact ⟨o, List.mem_cons_self, m, hd⟩
    · obtain ⟨o', ho', hm'⟩ := ih hd
      exact ⟨o', List.mem_cons_of_mem _ ho', hm'⟩

/-- What an operation consists of: everything but a program loaded or an access is steps and
executions taken back. -/
theorem mem_deeds {m : Machine} {patience : Nat} {o : Operation} {d : Deed}
    (hd : d ∈ m.deeds patience o) :
    match o with
    | .load p => d = .load p
    | .run _ => d = .step
    | .undo | .undoStatement | .reset => d = .takeBack
    | .access a => d = .access a := by
  cases o with
  | load | access => exact List.mem_singleton.1 hd
  | run => exact List.eq_of_mem_replicate hd
  | undo =>
    simp only [deeds] at hd
    split at hd
    · cases hd
    · exact List.mem_singleton.1 hd
  | undoStatement | reset =>
    simp only [deeds] at hd
    split at hd
    · cases hd
    · exact List.eq_of_mem_replicate hd

end Machine

end Backstep
