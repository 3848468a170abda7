import Backstep.Proofs.Machine.Undo
/-!
# The way back

Where a machine stands is all of it but the channels and what waits. An execution leads from one
place to another, at once or after a READ has waited, and what it noted is enough to lead back:
`Executed` says so of a single one and `Way` of several. Going back needs no more than to stand
where the way has ended, whatever else the machine has been through. The counter, X and the past
return to what they were, and so does memory if no READ was among the executions.
-/

namespace Backstep

/-- What is noted for a READ is the counter and X alone. -/
theorem Execution.Prepared.of_reads {x : Execution} {c d : Core} (h : x.Prepared c)
    (hreads : x.instruction.reads = true) (hpc : d.pc = c.pc) (hx : d.x = c.x) : x.Prepared d := by
  refine ⟨h.index.trans hpc.symm, ?_⟩
  rw [h.saved_of_reads hreads, ← hx]
  apply Noted.x
  rw [(Instruction.reads_iff.1 hreads).1]
  decide

namespace Machine

/-- All of the machine but its channels and what waits. -/
def place (m : Machine) : Machine :=
  { m with core := { m.core with input := {}, output := {} }, suspended := none }

/-- If an execution waits, it is the READ at the counter, and the counter and X are as it noted
them. -/
def Ready (m : Machine) : Prop :=
  ∀ s, m.suspended = some s → s.execution.Prepared m.core ∧
    s.execution.instruction.reads = true ∧ m.next? = some s.execution.instruction

/-- The execution, of the instruction at the counter, leads from the place of one machine to that of
the other, and has noted what it takes to lead back. -/
structure Executed (m : Machine) (x : Execution) (m' : Machine) : Prop where
  instruction : m.next? = some x.instruction
  prepared : x.Prepared m.core
  left : x.Left m.core m'.core.pc m'.core.x
  past : m'.past = x :: m.past
  size : m'.core.memory.size = m.core.memory.size
  restores : x.instruction.reads = false →
    x.saved.restore? m'.core.memory = some m.core.memory
  program : m'.program = m.program
  starts : m'.starts = m.starts

/-- The executions, the latest of which stands first, lead from one place to another. -/
inductive Way (m : Machine) : List Execution → Machine → Prop
  | still {m' : Machine} (hplace : m'.place = m.place) : Way m [] m'
  | next {newer : List Execution} {x : Execution} {m₁ m' : Machine} (hway : Way m newer m₁)
      (hexecuted : m₁.Executed x m') : Way m (x :: newer) m'

variable {m m' : Machine}

theorem ready_of_idle (hidle : m.suspended = none) : m.Ready := by
  intro s hwaits
  rw [hidle] at hwaits
  cases hwaits

theorem Ready.of_core (h : m.Ready) {core : Core} (hpc : core.pc = m.core.pc)
    (hx : core.x = m.core.x) : Ready { m with core } := by
  intro s hwaits
  obtain ⟨hprepared, hreads, hnext⟩ := h s hwaits
  refine ⟨hprepared.of_reads hreads hpc hx, hreads, ?_⟩
  rw [← hnext]
  simp only [next?, pc, hpc]

/-- A step leaves the machine in its place, or executes one instruction and leaves it idle. -/
theorem Ready.step (h : m.Ready) :
    m.step.state.Ready ∧ (m.step.state.place = m.place ∨
      ∃ x, m.Executed x m.step.state ∧ m.step.state.suspended = none) := by
  have hstepped := m.stepped_step
  generalize m.step.state = m' at hstepped
  cases hstepped with
  | unchanged => exact ⟨h, .inl rfl⟩
  | @completed x core hidle hnext hprepared houtcome =>
    refine ⟨ready_of_idle hidle, .inr ⟨x, ?_, hidle⟩⟩
    exact ⟨hnext, hprepared, houtcome.left, rfl, houtcome.size_memory,
      houtcome.restore? hprepared, rfl, rfl⟩
  | @resumed s core hwaits houtcome =>
    obtain ⟨hprepared, -, hnext⟩ := h s hwaits
    refine ⟨ready_of_idle rfl, .inr ⟨s.execution, ?_, rfl⟩⟩
    exact ⟨hnext, hprepared, houtcome.left, rfl, houtcome.size_memory,
      houtcome.restore? hprepared, rfl, rfl⟩
  | parked _ hnext hprepared hreads =>
    refine ⟨?_, .inl rfl⟩
    intro s hwaits
    cases hwaits
    exact ⟨hprepared.of_reads hreads rfl rfl, hreads, hnext⟩

theorem Ready.executed (h : m.Ready) (hpast : m.step.state.past ≠ m.past) :
    ∃ x, m.Executed x m.step.state ∧ m.step.state.suspended = none := by
  obtain ⟨-, hplace | hexecuted⟩ := h.step
  · exact absurd (congrArg (·.past) hplace) hpast
  · exact hexecuted

theorem Ready.kept (h : m.Ready) (hpast : m.step.state.past = m.past) :
    m.step.state.place = m.place := by
  obtain ⟨-, hplace | ⟨x, hexecuted, -⟩⟩ := h.step
  · exact hplace
  · exact absurd (hexecuted.past.symm.trans hpast) (List.cons_ne_self x m.past)

/-- Whatever happens to a machine keeps it ready. -/
theorem Ready.after (h : m.Ready) (d : Deed) : (m.after d).Ready := by
  cases d with
  | load p =>
    by_cases hwaiting : m.isWaiting = true
    · rw [Machine.after, load, if_pos hwaiting]
      exact h
    · rw [Machine.after, load, if_neg hwaiting]
      exact ready_of_idle (by simpa [Engine.isWaiting] using hwaiting)
  | step => exact h.step.1
  | takeBack =>
    rcases m.takenBack_cases with hsame | ⟨x, past, core, sent, hidle, -, -, htaken⟩
    · rw [Machine.after, hsame]
      exact h
    · rw [Machine.after, htaken]
      exact ready_of_idle hidle
  | access a =>
    obtain ⟨hpc, hx⟩ := m.core.registers_access a
    exact h.of_core hpc hx

theorem ready_afterAll (memory : Memory) (patience : Nat) (os : List Operation) :
    ((fresh memory).afterAll patience os).Ready := by
  rw [afterAll_eq_afterDeeds, afterDeeds]
  exact List.foldlRecOn (motive := Ready) _ _ (ready_of_idle rfl) fun _ h d _ => h.after d

theorem Executed.of_place {x : Execution} {m₁ : Machine} (h : m₁.Executed x m)
    (hplace : m'.place = m.place) : m₁.Executed x m' := by
  have hcore : ({ m'.core with input := {}, output := {} } : Core)
      = { m.core with input := {}, output := {} } := congrArg (·.core) hplace
  have hpc : m'.core.pc = m.core.pc := congrArg (·.pc) hcore
  have hx : m'.core.x = m.core.x := congrArg (·.x) hcore
  have hmemory : m'.core.memory = m.core.memory := congrArg (·.memory) hcore
  refine ⟨h.instruction, h.prepared, ?_, ?_, ?_, ?_, ?_, ?_⟩
  · rw [hpc, hx]
    exact h.left
  · exact (congrArg (·.past) hplace).trans h.past
  · rw [hmemory]
    exact h.size
  · rw [hmemory]
    exact h.restores
  · exact (congrArg (·.program) hplace).trans h.program
  · exact (congrArg (·.starts) hplace).trans h.starts

theorem Way.of_place {newer : List Execution} (h : m.Way newer m') {m₂ : Machine}
    (hplace : m₂.place = m'.place) : m.Way newer m₂ := by
  cases h with
  | still hsame => exact .still (hplace.trans hsame)
  | next hway hexecuted => exact .next hway (hexecuted.of_place hplace)

theorem Way.past {newer : List Execution} (h : m.Way newer m') : m'.past = newer ++ m.past := by
  induction h with
  | still hplace => exact congrArg (·.past) hplace
  | next _ hexecuted ih => rw [hexecuted.past, ih, List.cons_append]

theorem Way.program {newer : List Execution} (h : m.Way newer m') : m'.program = m.program := by
  induction h with
  | still hplace => exact congrArg (·.program) hplace
  | next _ hexecuted ih => exact hexecuted.program.trans ih

theorem Way.starts {newer : List Execution} (h : m.Way newer m') : m'.starts = m.starts := by
  induction h with
  | still hplace => exact congrArg (·.starts) hplace
  | next _ hexecuted ih => exact hexecuted.starts.trans ih

/-! ### Going back -/

/-- The first machine has come back to where the second one stood, and holds the same memory if the
way back was exact. -/
structure Returned (d m : Machine) (intact : Prop) : Prop where
  pc : d.core.pc = m.core.pc
  x : d.core.x = m.core.x
  past : d.past = m.past
  idle : d.suspended = none
  program : d.program = m.program
  starts : d.starts = m.starts
  size : d.core.memory.size = m.core.memory.size
  memory : intact → d.core.memory = m.core.memory

variable {d : Machine} {intact : Prop}

theorem Returned.refl (hidle : m.suspended = none) : m.Returned m True :=
  ⟨rfl, rfl, rfl, hidle, rfl, rfl, rfl, fun _ => rfl⟩

theorem Returned.of_place (h : d.Returned m intact) (hplace : m.place = m'.place) :
    d.Returned m' intact where
  pc := h.pc.trans (congrArg (·.core.pc) hplace)
  x := h.x.trans (congrArg (·.core.x) hplace)
  past := h.past.trans (congrArg (·.past) hplace)
  idle := h.idle
  program := h.program.trans (congrArg (·.program) hplace)
  starts := h.starts.trans (congrArg (·.starts) hplace)
  size := h.size.trans (congrArg (·.core.memory.size) hplace)
  memory hintact := (h.memory hintact).trans (congrArg (·.core.memory) hplace)

theorem Returned.mono {intact' : Prop} (h : d.Returned m intact) (himp : intact' → intact) :
    d.Returned m intact' :=
  { h with memory := fun hintact => h.memory (himp hintact) }

/-- Wherever an execution has led, taking it back leads to where it began. -/
theorem Executed.takeBack {x : Execution} (h : m.Executed x m') (hd : d.Returned m' intact) :
    ∃ core sent, x.takeBack d.core = .ok ⟨core, sent⟩ ∧
      Returned { d with core, past := m.past } m (intact ∧ x.instruction.reads = false) := by
  obtain ⟨memory, hrestore, hsize, -⟩ := h.prepared.restore? (m := d.core.memory)
    (hd.size.trans h.size)
  have hleft : x.Left m.core d.core.pc d.core.x := by
    rw [hd.pc, hd.x]
    exact h.left
  obtain ⟨sent, hback⟩ := Execution.takeBack_of_left h.prepared hleft hrestore
  refine ⟨_, sent, hback, ⟨rfl, rfl, rfl, hd.idle, hd.program.trans h.program,
    hd.starts.trans h.starts, hsize.trans (hd.size.trans h.size), ?_⟩⟩
  rintro ⟨hintact, hreads⟩
  rw [hd.memory hintact, h.restores hreads] at hrestore
  exact (Option.some.inj hrestore).symm

/-- As many undos as there were executions lead back along the way. -/
theorem Way.undoTimes {newer : List Execution} (h : m.Way newer m') (hd : d.Returned m' intact)
    (hprogram : d.program.isNone = false) :
    ∃ d', d.undoTimes newer.length = .ok d' ∧
      d'.Returned m (intact ∧ ∀ x ∈ newer, x.instruction.reads = false) := by
  induction h generalizing d intact with
  | still hplace => exact ⟨d, rfl, (hd.of_place hplace).mono (·.1)⟩
  | @next newer x m₁ m' hway hexecuted ih =>
    obtain ⟨core, sent, hback, hd₁⟩ := hexecuted.takeBack hd
    have hpast : d.past = x :: m₁.past := hd.past.trans hexecuted.past
    obtain ⟨hanswer, hstate⟩ := undo_of_takeBack hprogram hd.idle hpast hback
    obtain ⟨d', htimes, hd'⟩ := ih hd₁ hprogram
    refine ⟨d', ?_, hd'.mono ?_⟩
    · simp only [List.length_cons, Machine.undoTimes, hanswer, hstate]
      exact htimes
    · rintro ⟨hintact, hreads⟩
      obtain ⟨hfirst, hrest⟩ := List.forall_mem_cons.1 hreads
      exact ⟨⟨hintact, hfirst⟩, hrest⟩

end Machine

end Backstep
