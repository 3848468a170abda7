import Backstep.Proofs.Machine.InputTiming
/-!
# Waiting for input

A machine whose program asks for a word that nobody has sent stands still. Runs answer that it
waits, everything else is refused, and nothing at all changes, so the one reader that stands at the
input stays the only one. The first word that is sent wakes it: the next step completes the READ
with that word, and what was sent after it stays behind for later. Both follow from what `Attentive`
says of the input, which holds of every machine from whose input only its own program takes words;
`Machine.fedSince` counts the words that have come since the wait began.
-/

namespace Backstep

/-- Nothing is taken from the input from outside, though words may be sent there. -/
def Access.sparesInput : Access → Bool
  | .receive .input | .collect .input _ | .take .input | .drain .input => false
  | _ => true

def Operation.sparesInput : Operation → Bool
  | .access a => a.sparesInput
  | _ => true

def Operation.fromOutside : Operation → Bool
  | .access _ => true
  | _ => false

def Deed.sparesInput : Deed → Bool
  | .access a => a.sparesInput
  | _ => true

/-- The words that a deed sends to the input. -/
def Deed.fed : Deed → List Word
  | .access (.send .input w) => [w]
  | _ => []

theorem Execution.input_takeBack {x : Execution} {c : Core} {t : Traced Core}
    (h : x.takeBack c = .ok t) : t.value.input = c.input := by
  unfold takeBack at h
  cases hsaved : x.saved with
  | nothing | x | pc =>
    simp only [hsaved] at h
    cases h
    rfl
  | word a old =>
    simp only [hsaved, Core.store] at h
    cases hwrite : c.retreat.value.memory.write? a old with
    | none =>
      simp only [hwrite] at h
      cases h
    | some memory =>
      simp only [hwrite] at h
      cases h
      rfl

/-- What spares the input either sends a word there or leaves it alone. -/
def Access.keepsInput : Access → Bool
  | .send .input _ => false
  | a => a.sparesInput

theorem Access.cases_sparesInput {a : Access} (hspares : a.sparesInput = true) :
    (∃ w, a = .send .input w) ∨ (a.keepsInput = true ∧ (Deed.access a).fed = []) := by
  cases a with
  | store | image | clear => exact .inr ⟨rfl, rfl⟩
  | send way w =>
    cases way with
    | input => exact .inl ⟨w, rfl⟩
    | output => exact .inr ⟨rfl, rfl⟩
  | receive way | collect way | take way | drain way =>
    cases way with
    | input => cases hspares
    | output => exact .inr ⟨rfl, rfl⟩

namespace Machine

/-- An access changes neither the counter nor X, and the input only if it is about the input. -/
theorem after_access_eq (m : Machine) (a : Access) :
    ∃ core, m.after (.access a) = { m with core } ∧ core.pc = m.core.pc ∧ core.x = m.core.x ∧
      (a.keepsInput = true → core.input = m.core.input) := by
  cases a with
  | store address w =>
    simp only [after, access, Core.access, Core.store, Reply.within]
    cases m.core.memory.write? address w with
    | none => exact ⟨m.core, rfl, rfl, rfl, fun _ => rfl⟩
    | some memory => exact ⟨{ m.core with memory }, rfl, rfl, rfl, fun _ => rfl⟩
  | image | clear => exact ⟨_, rfl, rfl, rfl, fun _ => rfl⟩
  | send way | receive way | collect way | take way | drain way =>
    cases way with
    | input => exact ⟨_, rfl, rfl, rfl, fun hkeeps => Bool.noConfusion hkeeps⟩
    | output => exact ⟨_, rfl, rfl, rfl, fun _ => rfl⟩

/-- The words that have been fed since the machine began to wait, if it waits in the end. The first
ones were fed before the deeds. -/
def fedSince (m : Machine) (fed : List Word) : List Deed → List Word
  | [] => fed
  | d :: ds => (m.after d).fedSince (if m.isWaiting then fed ++ d.fed else []) ds

/-- Only the program takes words from the input, and those that nobody has taken since the machine
began to wait are the given ones. -/
structure Expectant (m : Machine) (fed : List Word) : Prop where
  attentive : Attentive m
  queued : m.isWaiting = true → m.core.input.queued = fed

theorem Attentive.of_idle {m m' : Machine} (h : Attentive m) (hidle : m.suspended = none)
    (hidle' : m'.suspended = none) (hinput : m'.core.input = m.core.input) : Attentive m' := by
  have hlistening := h.listening
  refine ⟨?_, ?_⟩
  · rw [hidle', hinput]
    rwa [hidle] at hlistening
  · intro s hwaits
    rw [hidle'] at hwaits
    cases hwaits

/-- What comes from outside leaves the READ that waits as it was captured. -/
theorem Attentive.of_access {m : Machine} (h : Attentive m) {core : Core}
    (hpc : core.pc = m.core.pc) (hx : core.x = m.core.x) (hinput : core.input = m.core.input) :
    Attentive { m with core } := by
  refine ⟨?_, ?_⟩
  · simp only [hinput]
    exact h.listening
  · intro s hwaits
    obtain ⟨i, hnext, hreads, hexecution⟩ := h.parked s hwaits
    refine ⟨i, ?_, hreads, ?_⟩
    · rw [← hnext]
      simp only [next?, pc, hpc]
    · rw [hexecution]
      simp only [reading, hpc, hx]

namespace Expectant

variable {m : Machine} {fed : List Word} (h : Expectant m fed)

include h

theorem of_unchanged {d : Deed} (hafter : m.after d = m) (hfed : d.fed = []) :
    Expectant (m.after d) (if m.isWaiting then fed ++ d.fed else []) := by
  rw [hafter]
  refine ⟨h.attentive, ?_⟩
  intro hwaiting
  rw [if_pos hwaiting, hfed, List.append_nil]
  exact h.queued hwaiting

theorem after_load (p : Program) :
    Expectant (m.after (.load p)) (if m.isWaiting then fed ++ (Deed.load p).fed else []) := by
  cases hsuspended : m.suspended with
  | some s =>
    apply h.of_unchanged _ rfl
    simp only [after, load, Engine.isWaiting, hsuspended, Option.isSome_some, if_true]
    rfl
  | none =>
    have hafter : m.after (.load p)
        = { m with core := (m.core.putImage p.data.toList).value, program := some p,
                   starts := p.startMap } := by
      simp only [after, load, Engine.isWaiting, hsuspended, Option.isSome_none, Bool.false_eq_true,
        if_false]
    rw [hafter]
    refine ⟨h.attentive.of_idle hsuspended hsuspended rfl, ?_⟩
    intro hwaiting
    simp [Engine.isWaiting, hsuspended] at hwaiting

/-- A machine that begins to wait has taken all words there were. -/
theorem after_step :
    Expectant (m.after .step) (if m.isWaiting then fed ++ Deed.step.fed else []) := by
  refine ⟨h.attentive.step.1, ?_⟩
  have hstepped := m.stepped_step
  simp only [after]
  generalize m.step.state = m' at hstepped
  intro hwaiting
  cases hstepped with
  | unchanged =>
    rw [if_pos hwaiting]
    simp only [Deed.fed, List.append_nil]
    exact h.queued hwaiting
  | completed hidle => simp [Engine.isWaiting, hidle] at hwaiting
  | resumed => simp [Engine.isWaiting] at hwaiting
  | parked hidle _ _ _ hinput =>
    have hlistening := h.attentive.listening
    rw [hidle] at hlistening
    cases hlistening with
    | idle hnone hdelivered =>
      rw [if_neg (by simp [Engine.isWaiting, hidle])]
      simp only [Core.nextInput, Core.receive, Core.channel, Channel.read] at hinput
      cases hbuffer : m.core.input.buffer with
      | cons w ws =>
        simp only [hbuffer] at hinput
        cases hinput
      | nil =>
        simp only [hbuffer, Core.setChannel] at hinput
        cases hinput
        simp only [Channel.queued, hdelivered, List.map_nil, List.append_nil]

theorem after_takeBack :
    Expectant (m.after .takeBack) (if m.isWaiting then fed ++ Deed.takeBack.fed else []) := by
  rcases m.takenBack_cases with hsame | ⟨x, past, core, sent, hidle, -, hback, hafter⟩
  · exact h.of_unchanged hsame rfl
  · simp only [after, hafter]
    refine ⟨h.attentive.of_idle hidle hidle (Execution.input_takeBack hback), ?_⟩
    intro hwaiting
    simp [Engine.isWaiting, hidle] at hwaiting

theorem after_access {a : Access} (hspares : a.sparesInput = true) :
    Expectant (m.after (.access a)) (if m.isWaiting then fed ++ (Deed.access a).fed else []) := by
  obtain ⟨core, hafter, hpc, hx, hinput⟩ := m.after_access_eq a
  rcases Access.cases_sparesInput hspares with ⟨w, rfl⟩ | ⟨hkeeps, hfed⟩
  · obtain ⟨hattentive, hqueued, -⟩ := h.attentive.feed w
    refine ⟨hattentive, ?_⟩
    intro hwaiting
    have hwaiting' : m.isWaiting = true := hwaiting
    have hqueued' : (m.after (.access (.send .input w))).core.input.queued
        = m.core.input.queued ++ [w] := hqueued
    rw [if_pos hwaiting', hqueued', h.queued hwaiting']
    rfl
  · have hinput' := hinput hkeeps
    rw [hafter, hfed, List.append_nil]
    refine ⟨h.attentive.of_access hpc hx hinput', ?_⟩
    intro hwaiting
    have hwaiting' : m.isWaiting = true := hwaiting
    rw [if_pos hwaiting']
    simp only [hinput']
    exact h.queued hwaiting'

theorem after {d : Deed} (hspares : d.sparesInput = true) :
    Expectant (m.after d) (if m.isWaiting then fed ++ d.fed else []) := by
  cases d with
  | load p => exact h.after_load p
  | step => exact h.after_step
  | takeBack => exact h.after_takeBack
  | access a => exact h.after_access hspares

theorem afterDeeds {ds : List Deed} (hspares : ∀ d ∈ ds, d.sparesInput = true) :
    Expectant (m.afterDeeds ds) (m.fedSince fed ds) := by
  induction ds generalizing m fed with
  | nil => exact h
  | cons d ds ih =>
    exact ih (h.after (hspares d List.mem_cons_self)) fun d' hd' =>
      hspares d' (List.mem_cons_of_mem _ hd')

end Expectant

theorem spares_allDeeds {m : Machine} {patience : Nat} {os : List Operation}
    (hos : ∀ o ∈ os, o.sparesInput = true) :
    ∀ d ∈ m.allDeeds patience os, d.sparesInput = true := by
  intro d hd
  obtain ⟨o, ho, m', hd⟩ := mem_allDeeds hd
  have hspares := hos o ho
  have hdeed := mem_deeds hd
  cases o with
  | load | run | undo | undoStatement | reset =>
    rw [hdeed]
    rfl
  | access a =>
    rw [hdeed]
    exact hspares

/-- Only its program has ever taken words from the input of the machine. -/
theorem expectant_afterAll (memory : Memory) (patience : Nat) {os : List Operation}
    (hos : ∀ o ∈ os, o.sparesInput = true) :
    Expectant ((fresh memory).afterAll patience os)
      ((fresh memory).fedSince [] ((fresh memory).allDeeds patience os)) := by
  have hstart : Expectant (fresh memory) [] := by
    refine ⟨⟨.idle rfl rfl, ?_⟩, fun _ => rfl⟩
    intro s hwaits
    cases hwaits
  rw [afterAll_eq_afterDeeds]
  exact hstart.afterDeeds (spares_allDeeds hos)

/-! ### Without a word -/

/-- Nothing but a word moves the machine. Runs answer that it waits, all else is refused, and no
signal is sent. -/
structure Stalled (m : Machine) : Prop where
  run (pace : Pace) (patience : Nat) : m.run pace patience = ⟨m, .ok .input, []⟩
  load (p : Program) : m.load p = ⟨m, .error (.problem { cause := .inputPending }), []⟩
  undo : m.undo = ⟨m, .error (.problem { cause := .inputPending }), []⟩
  undoStatement : m.undoStatement = ⟨m, .error (.problem { cause := .inputPending }), []⟩
  reset : m.reset = ⟨m, .error (.problem { cause := .inputPending }), []⟩

theorem Stalled.state_perform {m : Machine} (h : m.Stalled) (patience : Nat) {o : Operation}
    (ho : o.fromOutside = false) : (m.perform patience o).state = m := by
  cases o with
  | load p => simp only [perform, Reply.map, h.load]
  | run pace => simp only [perform, Reply.map, h.run]
  | undo => simp only [perform, Reply.map, h.undo]
  | undoStatement => simp only [perform, Reply.map, h.undoStatement]
  | reset => simp only [perform, Reply.map, h.reset]
  | access => cases ho

theorem Stalled.afterAll {m : Machine} (h : m.Stalled) (patience : Nat) {us : List Operation}
    (hus : ∀ u ∈ us, u.fromOutside = false) : m.afterAll patience us = m := by
  induction us with
  | nil => rfl
  | cons u us ih =>
    have hfirst := h.state_perform patience (hus u List.mem_cons_self)
    unfold Machine.afterAll at ih ⊢
    rw [List.foldl_cons, hfirst]
    exact ih fun u' hu' => hus u' (List.mem_cons_of_mem _ hu')

theorem step_of_waiting {m : Machine} {p : Program} {s : Suspended} (hprogram : m.program = some p)
    (hwaits : m.suspended = some s) :
    m.step = m.following (m.toEngine.attempt s.execution (some s.ticket) []) := by
  have hwaiting : m.isWaiting = true := by simp [Engine.isWaiting, hwaits]
  simp only [step, hprogram, hwaiting, if_true, Engine.retry, hwaits]

/-- A step of a READ whose word has not come leaves nothing behind. -/
theorem stalled_of_step {m : Machine} {p : Program} {s : Suspended} (hprogram : m.program = some p)
    (hwaits : m.suspended = some s) (hstep : m.step = ⟨m, .ok .input, []⟩) : m.Stalled := by
  have hwaiting : m.isWaiting = true := by simp [Engine.isWaiting, hwaits]
  have hsome : m.program.isNone = false := by rw [hprogram, Option.isNone_some]
  constructor
  · intro pace patience
    simp only [run, runOn, hstep]
    rfl
  · intro q
    simp only [Machine.load, hwaiting, if_true]
    rfl
  · simp only [Machine.undo, hsome, hwaiting, if_true, Bool.false_eq_true, if_false]
    rfl
  · simp only [Machine.undoStatement, hsome, hwaiting, if_true, Bool.false_eq_true, if_false]
    rfl
  · simp only [Machine.reset, hwaiting, if_true]
    rfl

/-! ### The execution that waits -/

/-- The execution that waits is an `INTERRUPT(0)` at the counter, inside the program. -/
structure WaitsAtRead (m : Machine) (s : Suspended) (p : Program) : Prop where
  program : m.program = some p
  index : s.execution.index = m.pc
  inside : m.pc.toNat < p.size
  instruction : p.instruction? m.pc.toNat = some s.execution.instruction
  interrupt : s.execution.instruction.op? = some .interrupt
  operand : s.execution.instruction.operand 0 = 0

theorem Attentive.waitsAtRead {m : Machine} (h : Attentive m) {s : Suspended}
    (hwaits : m.suspended = some s) : ∃ p, WaitsAtRead m s p := by
  obtain ⟨i, hnext, hreads, hexecution⟩ := h.parked s hwaits
  obtain ⟨p, hprogram, hinstruction⟩ := program_of_next? hnext
  obtain ⟨hop, hservice⟩ := Instruction.reads_iff.1 hreads
  have hsame : s.execution.instruction = i := by rw [hexecution]; rfl
  have hinside : m.pc.toNat < p.code.size := (Array.getElem?_eq_some_iff.1 hinstruction).1
  refine ⟨p, hprogram, by rw [hexecution]; rfl, hinside, by rw [hsame]; exact hinstruction,
    by rw [hsame]; exact hop, ?_⟩
  rw [hsame]
  exact Int64.toInt.inj (Service.ofOperand?_eq_some_iff.1 hservice)

/-- As long as no word has come, there is one reader at the input, and a step changes nothing. -/
theorem Attentive.step_of_no_word {m : Machine} (h : Attentive m) {s : Suspended}
    (hwaits : m.suspended = some s) (hqueued : m.core.input.queued = []) :
    m.step = ⟨m, .ok .input, []⟩ ∧
      m.core.input = { waiting := [s.ticket], nextTicket := m.core.input.nextTicket } := by
  obtain ⟨i, hnext, hreads, hexecution⟩ := h.parked s hwaits
  obtain ⟨p, hprogram, -⟩ := program_of_next? hnext
  have hreads' : s.execution.instruction.reads = true := hexecution ▸ hreads
  have hsaved : s.execution.saved = .x m.core.x := by rw [hexecution]; rfl
  have hlistening := h.listening
  rw [hwaits, Option.map_some] at hlistening
  cases hlistening with
  | served hwaiting hdelivered => simp [Channel.queued, hdelivered] at hqueued
  | unserved hbuffer hwaiting hdelivered =>
    have hcollect : m.core.input.collect s.ticket = (m.core.input, none) := by
      simp [Channel.collect, hdelivered]
    have hinput : m.core.nextInput (some s.ticket) = ⟨(m.core, .pending s.ticket), []⟩ := by
      simp only [Core.nextInput, Core.collect, Core.channel, hcollect, Core.setChannel]
    have hsame : ({ m with suspended := some ⟨s.execution, s.ticket⟩ } : Machine) = m := by
      rw [← hwaits]
    constructor
    · rw [step_of_waiting hprogram hwaits]
      simp only [following, Engine.attempt, Execution.perform_of_pending hreads' hsaved hinput]
      rw [hsame]
      rfl
    · rw [← hbuffer, ← hwaiting, ← hdelivered]

/-- The machine after the execution that waits has stored a word, with the words that came after it
in the input. -/
def woken (m : Machine) (x : Execution) (memory : Memory) (ws : List Word) : Machine :=
  { m with
    core := { m.core with
      pc := m.core.pc + 1
      memory
      input := { buffer := ws, nextTicket := m.core.input.nextTicket } }
    past := x :: m.past
    suspended := none }

/-- The first word that has come completes the READ, if it fits in memory at the address in X. -/
theorem Attentive.step_of_word {m : Machine} (h : Attentive m) {s : Suspended} {w : Word}
    {ws : List Word} (hwaits : m.suspended = some s) (hqueued : m.core.input.queued = w :: ws)
    (hholds : m.core.memory.Holds m.core.x.address) :
    ∃ memory, m.core.memory.write? m.core.x.address w = some memory ∧
      m.step.state = m.woken s.execution memory ws ∧
      m.step.answer
        = .ok (if (m.woken s.execution memory ws).isDone then .ended else .stopped) := by
  obtain ⟨i, hnext, hreads, hexecution⟩ := h.parked s hwaits
  obtain ⟨p, hprogram, -⟩ := program_of_next? hnext
  have hreads' : s.execution.instruction.reads = true := hexecution ▸ hreads
  have hsaved : s.execution.saved = .x m.core.x := by rw [hexecution]; rfl
  have hlistening := h.listening
  rw [hwaits, Option.map_some] at hlistening
  cases hlistening with
  | unserved hbuffer hwaiting hdelivered => simp [Channel.queued, hbuffer, hdelivered] at hqueued
  | @served _ v hwaiting hdelivered =>
    obtain ⟨rfl, rfl⟩ : v = w ∧ m.core.input.buffer = ws := by
      simpa [Channel.queued, hdelivered] using hqueued
    have hcollect : m.core.input.collect s.ticket
        = ({ m.core.input with delivered := [] }, some v) := by
      simp [Channel.collect, hdelivered]
    have hinput : m.core.nextInput (some s.ticket)
        = ⟨({ m.core with input := { m.core.input with delivered := [] } }, .ready v), []⟩ := by
      simp only [Core.nextInput, Core.collect, Core.channel, hcollect, Core.setChannel]
    obtain ⟨memory, hwrite⟩ := hholds.write? v
    have hperform := Execution.perform_of_ready hreads' hsaved hinput
    simp only [hwrite] at hperform
    obtain ⟨signals, hperform⟩ := hperform
    have hwoken : m.woken s.execution memory m.core.input.buffer = { m with
        core := { m.core with
          pc := m.core.pc + 1
          memory
          input := { m.core.input with delivered := [] } }
        past := s.execution :: m.past
        suspended := none } := by
      simp only [woken, hwaiting]
    refine ⟨memory, hwrite, ?_⟩
    rw [step_of_waiting hprogram hwaits, hwoken]
    simp only [following, Engine.attempt, hperform, true_and]
    rfl

/-- A machine waits after any operations that leave its input to the program. It waits at a READ
inside its program. Until a word has come since the wait began, nothing moves it and its reader is
the only one. Once words have come, a step completes the READ with the first of them, and the others
stay behind it. -/
theorem suspension (memory : Memory) (patience : Nat) (os : List Operation) (m : Machine)
    (s : Suspended) (hm : m = (fresh memory).afterAll patience os)
    (hos : ∀ o ∈ os, o.sparesInput = true) (hwaits : m.suspended = some s) :
    let fed := (fresh memory).fedSince [] ((fresh memory).allDeeds patience os)
    (∃ p, WaitsAtRead m s p) ∧
      (fed = [] → m.Stalled ∧
        m.core.input = { waiting := [s.ticket], nextTicket := m.core.input.nextTicket } ∧
        ∀ (patience : Nat) (us : List Operation), (∀ u ∈ us, u.fromOutside = false) →
          m.afterAll patience us = m) ∧
      ∀ w ws, fed = w :: ws → m.core.memory.Holds m.core.x.address →
        ∃ memory, m.core.memory.write? m.core.x.address w = some memory ∧
          m.step.state = m.woken s.execution memory ws ∧
          m.step.answer
            = .ok (if (m.woken s.execution memory ws).isDone then .ended else .stopped) := by
  intro fed
  have hexpectant : Expectant m fed := hm ▸ expectant_afterAll memory patience hos
  have hqueued := hexpectant.queued (by simp [Engine.isWaiting, hwaits])
  obtain ⟨p, hread⟩ := hexpectant.attentive.waitsAtRead hwaits
  refine ⟨⟨p, hread⟩, ?_, ?_⟩
  · intro hnone
    obtain ⟨hstep, hinput⟩ := hexpectant.attentive.step_of_no_word hwaits (hqueued.trans hnone)
    have hstalled := stalled_of_step hread.program hwaits hstep
    exact ⟨hstalled, hinput, fun patience us hus => hstalled.afterAll patience hus⟩
  · intro w ws hfed hholds
    exact hexpectant.attentive.step_of_word hwaits (hqueued.trans hfed) hholds

/-- Reads two words to the address eight. The second one has to be waited for. -/
def twoReads : Program := .eachAlone [⟨4, [8]⟩, ⟨255, [0]⟩, ⟨255, [0]⟩, ⟨255, [1]⟩]

/-- The first word is there before it is asked for, and the machine is told to go on in vain. -/
def beforeWord : List Operation :=
  [.load twoReads, .access (.send .input 7), .run .program, .access (.store 0 1), .run .statement,
    .undo, .load twoReads]

theorem suspension_twoReads :
    let withWords := beforeWord ++ [.access (.send .input 5), .access (.send .input 6)]
    let m := (fresh (.zeroed 16)).afterAll 9 beforeWord
    let m' := (fresh (.zeroed 16)).afterAll 9 withWords
    m.suspended = some ⟨⟨2, ⟨255, [0]⟩, .x 8⟩, 0⟩ ∧ m.Stalled ∧
      m'.step.state.core.memory.read? 8 = some 5 ∧ m'.step.state.core.input.buffer = [6] ∧
      m'.step.state.isWaiting = false := by
  intro withWords m m'
  have hsuspended : m.suspended = some ⟨⟨2, ⟨255, [0]⟩, .x 8⟩, 0⟩ := by decide +kernel
  have hsuspended' : m'.suspended = some ⟨⟨2, ⟨255, [0]⟩, .x 8⟩, 0⟩ := by decide +kernel
  have hfed : (fresh (.zeroed 16)).fedSince [] ((fresh (.zeroed 16)).allDeeds 9 beforeWord)
      = [] := by decide +kernel
  have hfed' : (fresh (.zeroed 16)).fedSince [] ((fresh (.zeroed 16)).allDeeds 9 withWords)
      = [5, 6] := by decide +kernel
  have hx : m'.core.x = 8 := by decide +kernel
  have hholds : m'.core.memory.Holds m'.core.x.address := by decide +kernel
  have hstalled := ((suspension _ 9 beforeWord m _ rfl (by decide) hsuspended).2.1 hfed).1
  obtain ⟨memory, hwrite, hstate, -⟩ :=
    (suspension _ 9 withWords m' _ rfl (by decide) hsuspended').2.2 5 [6] hfed' hholds
  rw [hx] at hwrite
  rw [hstate]
  exact ⟨hsuspended, hstalled, Memory.read?_write? hwrite, rfl, rfl⟩

end Machine

end Backstep
