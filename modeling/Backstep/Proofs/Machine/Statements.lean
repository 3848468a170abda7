import Backstep.Proofs.Machine.Retracing
import Backstep.Proofs.Machine.Step
/-!
# Statements there and back

A run of a statement stops where the next one starts. Going back stops where a statement starts as
well, and so at another place: not behind the statement, but before its first instruction. The two
agree because no place in between is a start. The run would have stopped there, whatever jumps it
took; only the place from which it began may be one. A statement that ends behind the program is the
last one, so each of the others has led to the start of the next.
-/

namespace Backstep

namespace Machine

/-- The machine after so many statements are undone one by one, if each undo has an answer. -/
def undoStatementTimes (m : Machine) : Nat → Except Failure Machine
  | 0 => .ok m
  | n + 1 =>
    match m.undoStatement.answer with
    | .ok () => m.undoStatement.state.undoStatementTimes n
    | .error failure => .error failure

/-- A statement is run from the one machine to the other. Each time it asks for input, a word is
sent there and it is run on. -/
inductive RunsStatement : Machine → Machine → Prop
  | ends {m : Machine} {patience : Nat} {event : Event}
      (hanswer : (m.run .statement patience).answer = .ok event)
      (hevent : event = .stopped ∨ event = .ended) :
      RunsStatement m (m.run .statement patience).state
  | asks {m m' : Machine} {patience : Nat} {word : Word}
      (hanswer : (m.run .statement patience).answer = .ok .input)
      (hrest : RunsStatement
        ((m.run .statement patience).state.access (.send .input word)).state m') :
      RunsStatement m m'

/-- So many statements are run one after another, each of them begun before the program is done. -/
inductive RunsStatements (m : Machine) : Nat → Machine → Prop
  | start : RunsStatements m 0 m
  | next {n : Nat} {m₁ m' : Machine} (hbefore : RunsStatements m n m₁)
      (hgoing : m₁.isDone = false) (hstatement : RunsStatement m₁ m') :
      RunsStatements m (n + 1) m'

/-- A statement may be begun here: one starts at the counter, or nothing was executed. -/
def AtStart (m : Machine) : Prop := m.startsAt m.pc.toNat = true ∨ m.past = []

/-! ### The way forward -/

/-- None of the executions but the earliest began at the start of a statement. -/
def Inside (m : Machine) (newer : List Execution) : Prop :=
  ∀ x ∈ newer.dropLast, m.startsAt x.index.toNat = false

/-- A statement that was begun in the one machine has come to the other one and is not at an end. -/
structure Underway (m : Machine) (newer : List Execution) (m' : Machine) : Prop where
  way : m.Way newer m'
  inside : m.Inside newer
  ready : m'.Ready
  going : m'.isDone = false
  between : newer ≠ [] → m'.startsAt m'.pc.toNat = false

/-- A statement that was begun in the one machine has executed an instruction and come to the other.
-/
structure Comes (m : Machine) (newer : List Execution) (m' : Machine) : Prop where
  way : m.Way newer m'
  inside : m.Inside newer
  some : newer ≠ []
  idle : m'.suspended = none

variable {m m₁ m' : Machine} {newer : List Execution}

theorem isDone_of_place (hplace : m'.place = m.place) : m'.isDone = m.isDone := by
  have hpc : m'.core.pc = m.core.pc := congrArg (·.core.pc) hplace
  have hprogram : m'.program = m.program := congrArg (·.program) hplace
  rw [isDone, isDone, pc, pc, hpc, hprogram]

theorem startsAt_of_place (hplace : m'.place = m.place) :
    m'.startsAt m'.pc.toNat = m.startsAt m.pc.toNat := by
  have hpc : m'.core.pc = m.core.pc := congrArg (·.core.pc) hplace
  have hstarts : m'.starts = m.starts := congrArg (·.starts) hplace
  rw [startsAt, startsAt, pc, pc, hpc, hstarts]

theorem Underway.of_place (h : m.Underway newer m₁) (hplace : m'.place = m₁.place)
    (hready : m'.Ready) : m.Underway newer m' where
  way := h.way.of_place hplace
  inside := h.inside
  ready := hready
  going := (isDone_of_place hplace).trans h.going
  between hsome := (startsAt_of_place hplace).trans (h.between hsome)

/-- The instruction that is executed next did not begin at the start of a statement, unless it is
the first one. -/
theorem Underway.comes (h : m.Underway newer m₁) {x : Execution} (hexecuted : m₁.Executed x m')
    (hidle : m'.suspended = none) : m.Comes (x :: newer) m' := by
  refine ⟨.next h.way hexecuted, ?_, List.cons_ne_nil _ _, hidle⟩
  intro y hy
  cases newer with
  | nil => cases hy
  | cons z older =>
    rw [List.dropLast_cons_of_ne_nil (List.cons_ne_nil z older)] at hy
    rcases List.mem_cons.1 hy with rfl | hy
    · have hbetween := h.between (List.cons_ne_nil z older)
      rw [startsAt, h.way.starts] at hbetween
      rw [startsAt, hexecuted.prepared.index]
      exact hbetween
    · exact h.inside y hy

/-- What a step makes of a statement that is under way: it waits where it is, or has executed one
more instruction. -/
theorem Underway.step (h : m.Underway newer m₁) :
    match m₁.step.answer with
    | .ok .input => m.Underway newer m₁.step.state
    | .ok event => ∃ x, m.Comes (x :: newer) m₁.step.state ∧
        (m₁.step.state.isDone = true ↔ event = .ended)
    | .error _ => True := by
  obtain ⟨hready, -⟩ := h.ready.step
  have hcomes : m₁.step.state.past ≠ m₁.past → ∃ x, m.Comes (x :: newer) m₁.step.state := by
    intro hpast
    obtain ⟨x, hexecuted, hidle⟩ := h.ready.executed hpast
    exact ⟨x, h.comes hexecuted hidle⟩
  have hstays : m₁.step.state.past = m₁.past → m.Underway newer m₁.step.state :=
    fun hpast => h.of_place (h.ready.kept hpast) hready
  have hreplied := m₁.replied_step
  generalize m₁.step = r at hready hcomes hstays hreplied
  cases hreplied with
  | unprogrammed | unprepared | failed => trivial
  | ended _ hdone => cases h.going.symm.trans hdone
  | waits => exact hstays rfl
  | @completed x _ _ _ core =>
    obtain ⟨y, hy⟩ := hcomes (List.cons_ne_self x m₁.past)
    cases (m₁.filed x core).isDone with
    | false => exact ⟨y, hy, by simp⟩
    | true => exact ⟨y, hy, by simp⟩

/-- A run of the statement goes on until it waits for input, or has come to the start of a statement
or behind the program. -/
theorem Underway.runOn (h : m.Underway newer m₁) (patience : Nat) (sent : Array Signal) :
    match (Machine.runOn .statement patience m₁ sent).answer with
    | .ok .input => ∃ newer', m.Underway newer' (Machine.runOn .statement patience m₁ sent).state
    | .ok _ => ∃ newer', m.Comes newer' (Machine.runOn .statement patience m₁ sent).state ∧
        ((Machine.runOn .statement patience m₁ sent).state.AtStart ∨
          (Machine.runOn .statement patience m₁ sent).state.isDone = true)
    | .error _ => True := by
  induction patience generalizing m₁ newer sent with
  | zero => trivial
  | succ patience ih =>
    have hstep := h.step
    obtain ⟨hready, -⟩ := h.ready.step
    unfold Machine.runOn
    simp only
    cases hanswer : m₁.step.answer with
    | error failure => trivial
    | ok event =>
      rw [hanswer] at hstep
      cases event with
      | input => exact ⟨newer, hstep⟩
      | ended =>
        obtain ⟨x, hcomes, hdone⟩ := hstep
        exact ⟨x :: newer, hcomes, .inr (hdone.2 rfl)⟩
      | stopped =>
        obtain ⟨x, hcomes, hdone⟩ := hstep
        cases hstart : m₁.step.state.startsAt m₁.step.state.pc.toNat with
        | true =>
          simp only [Pace.stops, if_true]
          exact ⟨x :: newer, hcomes, .inl (.inl hstart)⟩
        | false =>
          simp only [Pace.stops, Bool.false_eq_true, if_false]
          refine ih ⟨hcomes.way, hcomes.inside, hready, ?_, fun _ => hstart⟩ _
          exact Bool.eq_false_iff.2 fun hended => Event.noConfusion (hdone.1 hended)

/-- A statement that was run from where another one may start has come to where the next may start,
or behind the program. -/
theorem RunsStatement.comes (hstatement : RunsStatement m₁ m') (h : m.Underway newer m₁) :
    ∃ newer', m.Comes newer' m' ∧ (m'.AtStart ∨ m'.isDone = true) := by
  induction hstatement generalizing newer with
  | @ends m₁ patience event hanswer hevent =>
    have hrun := h.runOn (patience + 1) #[]
    rw [show (Machine.runOn .statement (patience + 1) m₁ #[]).answer = .ok event from hanswer]
      at hrun
    rcases hevent with rfl | rfl
    · exact hrun
    · exact hrun
  | @asks m₁ m' patience word hanswer _ ih =>
    have hrun := h.runOn (patience + 1) #[]
    rw [show (Machine.runOn .statement (patience + 1) m₁ #[]).answer = .ok .input from hanswer]
      at hrun
    obtain ⟨newer', hunderway⟩ := hrun
    exact ih (hunderway.of_place rfl (hunderway.ready.of_core rfl rfl))

theorem RunsStatement.programmed (hstatement : RunsStatement m m') : m.program.isNone = false := by
  have hrun : ∀ patience event, (m.run .statement patience).answer = .ok event →
      m.program.isNone = false := by
    intro patience event hanswer
    cases hprogram : m.program with
    | some p => rfl
    | none =>
      have hstep : m.step.answer = .error (.problem { cause := .nothingToRun }) := by
        simp only [Machine.step, hprogram]
        rfl
      simp only [run, Machine.runOn, hstep] at hanswer
      cases hanswer
  cases hstatement with
  | ends hanswer => exact hrun _ _ hanswer
  | asks hanswer => exact hrun _ _ hanswer

/-! ### The way back -/

variable {d : Machine} {intact : Prop}

/-- Going back stops at the place from which the statement was begun and at none before. -/
theorem Way.rewind (h : m.Way newer m') (hinside : m.Inside newer) (hsome : newer ≠ [])
    (hstart : m.AtStart) (hd : d.Returned m' intact) (sent : Array Signal) :
    ∃ core signals, Engine.rewind (fun pc => m.startsAt pc.toNat) d.core d.past sent
        = ⟨⟨core, m.past, none⟩, .ok (), signals⟩ ∧
      Returned { d with core, past := m.past } m
        (intact ∧ ∀ x ∈ newer, x.instruction.reads = false) := by
  induction h generalizing d intact sent with
  | still => exact absurd rfl hsome
  | @next older x m₁ m' hway hexecuted ih =>
    obtain ⟨core, signals, hback, hd₁⟩ := hexecuted.takeBack hd
    have hpast : d.past = x :: m₁.past := hd.past.trans hexecuted.past
    have hpc : core.pc = m₁.core.pc := hd₁.pc
    have hindex : x.index = m₁.core.pc := hexecuted.prepared.index
    simp only [hpast, Engine.rewind, hback]
    cases older with
    | nil =>
      -- This was the first instruction, so the counter is back where the statement was begun.
      obtain ⟨hplace⟩ := hway
      have hpast' : m₁.past = m.past := congrArg (·.past) hplace
      have hpc' : core.pc = m.pc := hpc.trans (congrArg (·.core.pc) hplace)
      have hreturned : Returned { d with core, past := m.past } m
          (intact ∧ ∀ y ∈ [x], y.instruction.reads = false) := by
        rw [← hpast']
        refine (hd₁.of_place hplace).mono ?_
        exact fun hintact => ⟨hintact.1, hintact.2 x List.mem_cons_self⟩
      rw [hpast', hpc']
      rcases hstart with hstart | hnone
      · rw [if_pos hstart]
        exact ⟨core, _, rfl, hreturned⟩
      · rw [hnone] at hreturned ⊢
        split
        · exact ⟨core, _, rfl, hreturned⟩
        · exact ⟨core, _, rfl, hreturned⟩
    | cons y older =>
      rw [Inside, List.dropLast_cons_of_ne_nil (List.cons_ne_nil y older)] at hinside
      obtain ⟨hbetween, hinside'⟩ := List.forall_mem_cons.1 hinside
      rw [hpc, ← hindex, hbetween]
      obtain ⟨core', signals', hrewind, hreturned⟩ := ih hinside' (List.cons_ne_nil y older) hd₁ _
      refine ⟨core', signals', hrewind, hreturned.mono ?_⟩
      rintro ⟨hintact, hreads⟩
      obtain ⟨hfirst, hrest⟩ := List.forall_mem_cons.1 hreads
      exact ⟨⟨hintact, hfirst⟩, hrest⟩

/-- A statement that has been run is undone as one. -/
theorem Comes.undoStatement (h : m.Comes newer m') (hstart : m.AtStart)
    (hprogram : m.program.isNone = false) (hd : d.Returned m' intact) :
    d.undoStatement.answer = .ok () ∧
      d.undoStatement.state.Returned m (intact ∧ ∀ x ∈ newer, x.instruction.reads = false) := by
  obtain ⟨core, signals, hrewind, hreturned⟩ := h.way.rewind h.inside h.some hstart hd #[]
  have hprogram' : d.program.isNone = false := by
    rw [hd.program, h.way.program, hprogram]
  have hstops : (fun pc : Address => d.startsAt pc.toNat) = fun pc => m.startsAt pc.toNat := by
    funext pc
    rw [startsAt, startsAt, hd.starts, h.way.starts]
  have hundo : d.undoStatement = ⟨{ d with core, past := m.past }, .ok (), signals⟩ := by
    unfold Machine.undoStatement
    rw [if_neg (by simp [hprogram']), if_neg (by simp [Engine.isWaiting, hd.idle])]
    simp only [hstops, hrewind, Reply.within, hd.idle]
  rw [hundo]
  exact ⟨rfl, hreturned⟩

/-- Before each of the statements the next one may start, and the way there is undone. -/
theorem RunsStatements.undoes {n : Nat} (h : m.RunsStatements n m') (hidle : m.suspended = none)
    (hstart : m.AtStart) :
    m'.suspended = none ∧ (m'.AtStart ∨ m'.isDone = true) ∧
      ∃ newer, m'.past = newer ++ m.past ∧
        ∀ (d : Machine) (intact : Prop), d.Returned m' intact → ∃ m₀, d.undoStatementTimes n = .ok m₀ ∧
          m₀.Returned m (intact ∧ ∀ x ∈ newer, x.instruction.reads = false) := by
  induction h with
  | start =>
    refine ⟨hidle, .inl hstart, [], rfl, fun d intact hd => ⟨d, rfl, hd.mono (·.1)⟩⟩
  | @next n m₁ m' _ hgoing hstatement ih =>
    obtain ⟨hidle₁, hplace, older, hpast, hundo⟩ := ih
    have hstart₁ : m₁.AtStart := hplace.resolve_right (by simp [hgoing])
    have hbegun : m₁.Underway [] m₁ :=
      ⟨.still rfl, List.forall_mem_nil _, ready_of_idle hidle₁, hgoing, fun h => absurd rfl h⟩
    obtain ⟨newer, hcomes, hplace'⟩ := hstatement.comes hbegun
    refine ⟨hcomes.idle, hplace', newer ++ older, ?_, fun d intact hd => ?_⟩
    · rw [hcomes.way.past, hpast, List.append_assoc]
    · obtain ⟨hanswer, hreturned⟩ := hcomes.undoStatement hstart₁ hstatement.programmed hd
      obtain ⟨m₀, htimes, hm₀⟩ := hundo _ _ hreturned
      refine ⟨m₀, ?_, hm₀.mono ?_⟩
      · simp only [undoStatementTimes, hanswer]
        exact htimes
      · rintro ⟨hintact, hreads⟩
        obtain ⟨hlater, hearlier⟩ := List.forall_mem_append.1 hreads
        exact ⟨⟨hintact, hlater⟩, hearlier⟩

/-- Let statements be run one after another from where one may start, each begun before the program
is done, and let words be sent to those that ask for input. Undoing as many statements brings the
counter, X and the past back to what they were, and memory as well if no READ was executed. -/
theorem statements_undone {n : Nat} (h : m.RunsStatements n m') (hidle : m.isWaiting = false)
    (hstart : m.startsAt m.pc.toNat = true ∨ m.past = []) :
    ∃ newer m₀, m'.past = newer ++ m.past ∧ m'.undoStatementTimes n = .ok m₀ ∧
      m₀.pc = m.pc ∧ m₀.core.x = m.core.x ∧ m₀.past = m.past ∧
      ((∀ x ∈ newer, x.instruction.reads = false) → m₀.core.memory = m.core.memory) := by
  have hidle' : m.suspended = none := by simpa [Engine.isWaiting] using hidle
  obtain ⟨hended, -, newer, hpast, hundo⟩ := h.undoes hidle' hstart
  obtain ⟨m₀, htimes, hreturned⟩ := hundo m' True (.refl hended)
  exact ⟨newer, m₀, hpast, htimes, hreturned.pc, hreturned.x, hreturned.past,
    fun hreads => hreturned.memory ⟨trivial, hreads⟩⟩

/-- The first statement reads a word and jumps into the middle of the second one, which is a loop,
and the third one jumps past the end. -/
def detour : Program where
  code := #[⟨4, [3]⟩, ⟨255, [0]⟩, ⟨200, [4]⟩, ⟨106, [0]⟩, ⟨106, [-1]⟩, ⟨202, [3]⟩, ⟨200, [99]⟩]
  starts := #[0, 3, 6]

theorem statements_undone_detour :
    let start := ((ofSize 16).load detour).state
    let first := ((start.run .statement 9).state.access (.send .input 5)).state.run .statement 9
    let second := first.state.run .statement 9
    let third := second.state.run .statement 9
    let last := third.state.run .statement 9
    start.isWaiting = false ∧ start.startsAt start.pc.toNat = true ∧
      start.RunsStatements 4 last.state ∧ last.state.pc = 99 ∧ last.state.past.length = 12 ∧
      ∃ m₀, last.state.undoStatementTimes 4 = .ok m₀ ∧ m₀.pc = 0 ∧ m₀.core.x = 0 ∧
        m₀.past = [] := by
  intro start first second third last
  have hasks : (start.run .statement 9).answer = .ok .input :=
    eq_ok_of_toOption (by decide +kernel)
  have hfirst : first.answer = .ok .stopped :=
    eq_ok_of_toOption (by decide +kernel)
  have hsecond : second.answer = .ok .stopped :=
    eq_ok_of_toOption (by decide +kernel)
  have hthird : third.answer = .ok .stopped :=
    eq_ok_of_toOption (by decide +kernel)
  have hlast : last.answer = .ok .ended :=
    eq_ok_of_toOption (by decide +kernel)
  have hruns : start.RunsStatements 4 last.state := by
    refine .next (.next (.next (.next .start ?_ (.asks hasks (.ends hfirst (.inl rfl)))) ?_
      (.ends hsecond (.inl rfl))) ?_ (.ends hthird (.inl rfl))) ?_ (.ends hlast (.inr rfl))
    all_goals decide +kernel
  obtain ⟨newer, m₀, -, htimes, hpc, hx, hpast, -⟩ := statements_undone hruns rfl (.inl rfl)
  exact ⟨rfl, rfl, hruns, by decide +kernel, by decide +kernel, m₀, htimes, hpc, hx, hpast⟩

end Machine

end Backstep
