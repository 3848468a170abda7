import Backstep.Proofs.Workbench.Stepping
/-!
# Prompts for input

Words come to the program of a session only as the numbers typed for it, one at a time, and only
while a READ waits for one. So at every prompt the input is empty, and nobody asks for a word there
but that READ. A number goes to it and to no other. Whatever else is typed leaves it waiting, until
another program is loaded, and any run asks again.

`Session.Poised` is what holds of a session at every prompt. A drive keeps it if nothing stands in
the input, and so does the drive by a number, whose first step takes the number away.
-/

namespace Backstep

namespace Machine

def withMemory (m : Machine) (memory : Memory) : Machine :=
  { m with core := { m.core with memory } }

/-- No word stands in the input, and only the READ that waits asks for one there. -/
structure InputSettled (m : Machine) : Prop where
  buffer : m.core.input.buffer = []
  delivered : m.core.input.delivered = []
  waiting : m.core.input.waiting = (m.suspended.map (·.ticket)).toList

/-- A machine that waited has got its word and come to another prompt. -/
structure Answered (m : Machine) (s : Suspended) (word : Word) (m' : Machine) : Prop where
  /-- The READ that waited has stored the word at the address in X. After it ran what else there was
  to run, and what that put out was taken. -/
  stored : ∃ memory k, m.core.memory.write? m.core.x.address word = some memory ∧
    m' = ((m.woken s.execution memory []).stepped k).withOutput {}
  /-- It is in the history, and no other READ has completed. -/
  once : ∃ newer, m'.past = newer ++ s.execution :: m.past ∧
    ∀ x ∈ newer, x.instruction.reads = false

variable {m : Machine}

theorem Attentive.inputSettled (h : Attentive m) (hqueued : m.core.input.queued = []) :
    m.InputSettled := by
  have hlistening := h.listening
  obtain ⟨hdelivered, hbuffer⟩ := List.append_eq_nil_iff.1 hqueued
  refine ⟨hbuffer, List.map_eq_nil_iff.1 hdelivered, ?_⟩
  cases hsuspended : m.suspended.map (·.ticket) with
  | none =>
    rw [hsuspended] at hlistening
    cases hlistening with
    | idle hwaiting _ => exact hwaiting
  | some ticket =>
    rw [hsuspended] at hlistening
    cases hlistening with
    | unserved _ hwaiting _ => exact hwaiting
    | served _ hserved =>
      rw [hserved] at hdelivered
      cases hdelivered

theorem nextTicket_feed (m : Machine) (word : Word) :
    (m.tick (.feed word)).core.input.nextTicket = m.core.input.nextTicket := by
  simp only [tick, access, Core.access, Core.send, Core.channel, Core.setChannel, Reply.within,
    Channel.write]
  split <;> rfl

/-- Without a word in the input no READ is completed. -/
theorem Attentive.stepped_dry (h : Attentive m) (hqueued : m.core.input.queued = []) (k : Nat) :
    Attentive (m.stepped k) ∧ (m.stepped k).core.input.queued = [] ∧
      ∃ newer, (m.stepped k).past = newer ++ m.past ∧
        ∀ x ∈ newer, x.instruction.reads = false := by
  induction k with
  | zero => exact ⟨h, hqueued, [], rfl, List.forall_mem_nil _⟩
  | succ k ih =>
    obtain ⟨hattentive, hqueued', newer, hpast, hnewer⟩ := ih
    obtain ⟨hnext, hadvance⟩ := hattentive.step
    cases hadvance with
    | still hstill hsame _ =>
      exact ⟨hnext, hsame.trans hqueued', newer, hstill.trans hpast, hnewer⟩
    | @ran x hran hreads hsame _ =>
      refine ⟨hnext, hsame.trans hqueued', x :: newer, ?_, ?_⟩
      · rw [stepped, hran, hpast, List.cons_append]
      · exact List.forall_mem_cons.2 ⟨hreads, hnewer⟩
    | took _ _ htaken =>
      rw [hqueued'] at htaken
      cases htaken

/-- What only goes back leaves the input of an idle machine alone, and the machine idle. -/
theorem idle_afterDeeds {ds : List Deed} (hidle : m.suspended = none)
    (hback : ∀ d ∈ ds, d = .takeBack) :
    (m.afterDeeds ds).suspended = none ∧ (m.afterDeeds ds).core.input = m.core.input := by
  induction ds generalizing m with
  | nil => exact ⟨hidle, rfl⟩
  | cons d ds ih =>
    obtain rfl := hback d List.mem_cons_self
    have hrest : ∀ d ∈ ds, d = .takeBack := fun d hd => hback d (List.mem_cons_of_mem _ hd)
    rw [afterDeeds_cons, after]
    rcases m.takenBack_cases with hsame | ⟨x, past, core, sent, -, -, hback, htaken⟩
    · rw [hsame]
      exact ih hidle hrest
    · obtain ⟨hidle', hinput⟩ := ih (m := m.takenBack) (by rw [htaken]; exact hidle) hrest
      refine ⟨hidle', hinput.trans ?_⟩
      rw [htaken]
      exact Execution.input_takeBack hback

/-- A READ that comes to wait has its address from before. -/
theorem ReadsOutside.of_step {memorySize : Nat} (hwaiting : m.step.state.isWaiting = true)
    (h : m.step.state.ReadsOutside memorySize) : m.ReadsOutside memorySize := by
  have hstepped := m.stepped_step
  generalize m.step.state = m' at hstepped hwaiting h
  cases hstepped with
  | unchanged => exact h
  | completed hidle => simp [Engine.isWaiting, hidle] at hwaiting
  | resumed => simp [Engine.isWaiting] at hwaiting
  | parked _ hnext hprepared _ hinput =>
    obtain ⟨input, hcore⟩ := Execution.nextInput_core m.core none
    rw [hinput] at hcore
    cases hcore
    exact h

end Machine

namespace Workbench

namespace Session

/-- What holds of a session at every prompt. Its machine is quiet, nothing stands in the input, and
the READ that waits, if one does, has its address inside memory. -/
structure Poised (s : Session) : Prop where
  quiet : s.Quiet
  dry : s.machine.core.input.queued = []
  inside : s.machine.isWaiting = true → ¬ s.machine.ReadsOutside s.memorySize

namespace Poised

variable {s : Session}

theorem of_idle (hquiet : s.Quiet) (hdry : s.machine.core.input.queued = [])
    (hidle : s.machine.suspended = none) : s.Poised := by
  refine ⟨hquiet, hdry, fun hwaiting => ?_⟩
  simp [Engine.isWaiting, hidle] at hwaiting

theorem ofSize (memorySize : Nat) : (ofSize memorySize).Poised :=
  of_idle (.ofSize memorySize) rfl rfl

theorem load (h : s.Poised) (listing : String) : (s.load listing).state.Poised := by
  have hquiet := h.quiet.load listing
  unfold Session.load at hquiet ⊢
  split
  · exact h
  · rename_i program hread
    simp only [hread] at hquiet
    split
    · exact h
    · rename_i hplaced
      simp only [hplaced] at hquiet
      exact of_idle hquiet rfl rfl

theorem loadFile (h : s.Poised) (w : Surroundings) (file : String) :
    (s.loadFile w file).state.Poised := by
  unfold Session.loadFile
  split
  · exact h
  · exact h.load _

/-- A machine that waits stands still, and has asked for its word. -/
theorem stands (h : s.Poised) {x : Suspended} (hwaits : s.machine.suspended = some x) :
    s.machine.Stalled ∧ s.machine.step = ⟨s.machine, .ok .input, []⟩ ∧
      s.misplacedInput? = none := by
  obtain ⟨p, hread⟩ := h.quiet.attentive.waitsAtRead hwaits
  obtain ⟨hstep, -⟩ := h.quiet.attentive.step_of_no_word hwaits h.dry
  have hinside := h.inside (by simp [Engine.isWaiting, hwaits])
  exact ⟨Machine.stalled_of_step hread.program hwaits hstep, hstep,
    by rw [misplacedInput?_eq, if_neg hinside]⟩

/-- Going back leaves a machine that waits alone, and any other one idle. -/
theorem of_goesBack (h : s.Poised) {o : Operation} (ho : o.goesBack = true) {s' : Session}
    (hmachine : s'.machine = (s.machine.perform 0 o).state) (hsize : s'.memorySize = s.memorySize)
    (hquiet : s'.Quiet) : s'.Poised := by
  have hoperation : o.fromOutside = false := by
    cases o with
    | access => cases ho
    | load | run | undo | undoStatement | reset => rfl
  cases hsuspended : s.machine.suspended with
  | some x =>
    have hsame : s'.machine = s.machine :=
      hmachine.trans ((h.stands hsuspended).1.state_perform 0 hoperation)
    exact ⟨hquiet, hsame ▸ h.dry, by rw [hsame, hsize]; exact h.inside⟩
  | none =>
    obtain ⟨hidle, hinput⟩ := Machine.idle_afterDeeds hsuspended (Machine.back_deeds ho s.machine 0)
    rw [← Machine.state_perform, ← hmachine] at hidle hinput
    exact of_idle hquiet (by rw [hinput]; exact h.dry) hidle

theorem edit (h : s.Poised) (w : Surroundings) (arguments : List (List Char)) (known : Command) :
    (s.edit w arguments known).state.Poised := by
  have hquiet := h.quiet.edit w arguments known
  cases known with
  | undo => exact h.of_goesBack (o := .undo) rfl rfl rfl hquiet
  | back => exact h.of_goesBack (o := .undoStatement) rfl rfl rfl hquiet
  | reset => exact h.of_goesBack (o := .reset) rfl rfl rfl hquiet
  | clear => exact ⟨hquiet, h.dry, h.inside⟩
  | load =>
    cases arguments with
    | nil => exact h
    | cons file _ => exact h.loadFile w _
  | step | next | run | regs | mem | vars | list | hist | ops | help | quit => exact h

/-- A machine that waits after a step has its address inside memory if it was checked before. -/
theorem inside_stepped {n : Nat} {m : Machine} {k : Nat}
    (hstart : m.isWaiting = true → ¬ m.ReadsOutside n)
    (hinside : ∀ j < k, ¬ (m.stepped j).ReadsOutside n)
    (hwaiting : (m.stepped k).isWaiting = true) : ¬ (m.stepped k).ReadsOutside n := by
  cases k with
  | zero => exact hstart hwaiting
  | succ k =>
    intro houtside
    exact hinside k (Nat.lt_succ_self k) (houtside.of_step hwaiting)

theorem drive (h : s.Poised) (w : Surroundings) (pace : Pace) :
    (s.drive w pace).state.drained.Poised := by
  obtain ⟨k, hends⟩ := s.ends_drive w pace
  obtain ⟨-, hmachine, hquiet⟩ := h.quiet.ended hends
  obtain ⟨-, hdry, -⟩ := h.quiet.attentive.stepped_dry h.dry k
  have hsize : (s.drive w pace).state.drained.memorySize = s.memorySize :=
    (s.counts_drive w pace).memorySize
  refine ⟨hquiet, by rw [hmachine]; exact hdry, fun hwaiting => ?_⟩
  rw [hmachine] at hwaiting ⊢
  rw [hsize]
  exact inside_stepped h.inside hends.inside hwaiting

/-- Whatever pace a number resumes, its first step completes the READ that waits. What comes after
finds nothing in the input. -/
theorem drive_given (h : s.Poised) (hsafe : s.Safe) {x : Suspended}
    (hwaits : s.machine.suspended = some x) (value : Word) (w : Surroundings) (pace : Pace) :
    ((s.given value).drive w pace).state.drained.Poised ∧
      s.machine.Answered x value ((s.given value).drive w pace).state.drained.machine := by
  obtain ⟨-, -, hplaced⟩ := h.stands hwaits
  have hinside := h.inside (by simp [Engine.isWaiting, hwaits])
  obtain ⟨i, hnext, hreads, -⟩ := h.quiet.attentive.parked x hwaits
  have hholds := hsafe.input hplaced i hnext hreads
  -- The word that is typed is all there is in the input, and so the first step takes it.
  obtain ⟨hattentive, hqueued, -⟩ := h.quiet.attentive.feed value
  rw [h.dry, List.nil_append] at hqueued
  obtain ⟨memory, hwrite, hstep, -⟩ := hattentive.step_of_word hwaits hqueued hholds
  have hwoken : (s.given value).machine.step.state = s.machine.woken x.execution memory [] := by
    refine hstep.trans ?_
    simp only [Machine.woken, Machine.nextTicket_feed]
    rfl
  have hawake : Machine.Attentive (s.machine.woken x.execution memory []) :=
    hwoken ▸ hattentive.step.1
  obtain ⟨k, hends, hbegun⟩ := (s.given value).ends_drive_begun w pace
  obtain ⟨-, hmachine, hquiet⟩ := (h.quiet.given value).ended hends
  obtain ⟨j, rfl⟩ : ∃ j, k = j + 1 :=
    Nat.exists_eq_add_one.2 (Nat.pos_of_ne_zero fun hnone => hinside (hbegun hnone))
  obtain ⟨-, hdry, newer, hpast, hnewer⟩ := hawake.stepped_dry rfl j
  have hsize : ((s.given value).drive w pace).state.drained.memorySize = s.memorySize :=
    ((s.given value).counts_drive w pace).memorySize
  have hstepped : (s.given value).machine.stepped (j + 1)
      = (s.machine.woken x.execution memory []).stepped j := by
    rw [← Machine.stepped_step_state, hwoken]
  refine ⟨⟨hquiet, ?_, fun hwaiting => ?_⟩, ⟨⟨memory, j, hwrite, ?_⟩, newer, ?_, hnewer⟩⟩
  · rw [hmachine, hstepped]
    exact hdry
  · rw [hmachine] at hwaiting ⊢
    rw [hsize]
    exact inside_stepped (fun _ => hinside) hends.inside hwaiting
  · rw [hmachine, hstepped]
  · rw [hmachine, hstepped]
    exact hpast

/-- A drive while a READ waits only asks for its word. -/
theorem drive_of_waiting (h : s.Poised) {x : Suspended} (hwaits : s.machine.suspended = some x)
    (w : Surroundings) (pace : Pace) :
    (s.drive w pace).answer = .ok .input ∧ (s.drive w pace).state.machine = s.machine ∧
      (s.drive w pace).state.drained.machine = s.machine := by
  obtain ⟨-, hstep, hplaced⟩ := h.stands hwaits
  have hplaced' : { s with pace }.misplacedInput? = none := hplaced
  have hdrive : s.drive w pace = ⟨{ s with pace }, .ok .input, []⟩ := by
    simp only [Session.drive, driveOn, hplaced', following, hstep, Bool.false_eq_true, if_false]
    rfl
  rw [hdrive]
  refine ⟨rfl, rfl, ?_⟩
  simp only [drained, Core.drain, Channel.drain, Core.channel, Core.setChannel]
  have houtput : { s.machine.core.output with buffer := [] } = s.machine.core.output := by
    rw [h.quiet.output]
  rw [houtput]

end Poised

end Session

/-- What is typed has loaded a program. -/
def Exchange.loads (e : Exchange) : Bool :=
  match e.console.prompt, e.typed with
  | .command, .line line =>
    match Request.ofLine line with
    | .command .load _ => (e.console.edit e.surroundings e.typed).answer.isOk
    | _ => false
  | _, _ => false

namespace Console

/-- What comes of a line or of an interrupt where a number is asked for. -/
structure Asks (c : Console) (x : Suspended) : Prop where
  /-- If the run that a number resumes comes to another prompt, the READ has got the number. -/
  number : ∀ w line value, readNumber line.toList = .ok value →
    c.respond w (.line line) = .error .unfinished ∨
      ∃ c' response, c.respond w (.line line) = .ok ⟨some c', response⟩ ∧
        c.session.machine.Answered x value c'.session.machine
  /-- What is no number is asked for again. -/
  nonsense : ∀ w line, (∀ value, readNumber line.toList ≠ .ok value) →
    ∃ response, c.respond w (.line line) = .ok ⟨some c, response⟩
  interrupt : ∀ w, ∃ response,
    c.respond w .interrupt = .ok ⟨some { c with asks := false }, response⟩

/-- As long as no number is accepted and no program loaded, the READ goes on waiting, and each run
asks for its number. Only memory can be changed meanwhile. -/
structure Insists (c : Console) : Prop where
  waits : ∀ turns es d, c.played turns = some (es, d) → accepted es = [] →
    (∀ e ∈ es, e.loads = false) →
    ∃ memory, d.session.machine = c.session.machine.withMemory memory
  asks : ∀ turns es d, c.played turns = some (es, d) → accepted es = [] →
    (∀ e ∈ es, e.loads = false) → d.prompt = .command →
    ∀ w line known arguments, Request.ofLine line = .command known arguments →
      known.pace?.isSome = true →
      ∃ d' response, d.respond w (.line line) = .ok ⟨some d', response⟩ ∧ d'.prompt = .value ∧
        d'.session.machine = d.session.machine

variable {c : Console} {memorySize : Nat} {file? : Option String}

theorem waiting_of_value (h : c.prompt = .value) :
    c.asks = true ∧ c.session.machine.isWaiting = true := by
  unfold prompt at h
  split at h
  · rename_i hboth
    exact Bool.and_eq_true_iff.1 hboth
  · cases h

theorem prompt_of_accepted? {typed : Typed} {value : Word} (h : c.accepted? typed = some value) :
    c.prompt = .value := by
  unfold accepted? at h
  split at h
  · assumption
  · cases h

theorem Reached.poised (hc : Reached memorySize file? c) : c.session.Poised := by
  apply hc.kept (.ofSize memorySize)
  · intro s w arguments known h
    exact h.edit w arguments known
  · intro c typed s pace w hc h hrun
    rcases accepted?_of_run hrun with ⟨-, rfl⟩ | ⟨value, haccepted, rfl⟩
    · exact h.drive w pace
    · obtain ⟨-, hwaiting⟩ := waiting_of_value (prompt_of_accepted? haccepted)
      obtain ⟨x, hwaits⟩ := Option.isSome_iff_exists.1 hwaiting
      exact (h.drive_given hc.safe hwaits value w pace).1

/-! ### Where a number is asked for -/

theorem asks_of_value (h : c.session.Poised) (hsafe : c.session.Safe) {x : Suspended}
    (hwaits : c.session.machine.suspended = some x) (hprompt : c.prompt = .value) : c.Asks x := by
  obtain ⟨hasks, -⟩ := waiting_of_value hprompt
  have hagain : { c with asks := true } = c := by rw [← hasks]
  refine ⟨fun w line value hread => ?_, fun w line hread => ?_, fun w => ?_⟩
  · have hrun : c.run? (.line line) = some (c.session.given value, c.session.pace) := by
      simp only [run?, hprompt, hread]
    have hnames : c.namesShown (.line line) = [] := by
      simp only [namesShown, hprompt]
    cases hturn : c.respond w (.line line) with
    | error fault =>
      by_cases hunfinished : fault = .unfinished
      · exact .inl (by rw [hunfinished])
      · have hfails := (settled_respond hsafe w (.line line)).fails fault hunfinished
        obtain ⟨name, hname, -⟩ := hfails.1 hturn
        rw [hnames] at hname
        cases hname
    | ok turn =>
      obtain ⟨asks, hconsole⟩ := (turned_of_run hrun hturn).console
      obtain ⟨-, hanswered⟩ := h.drive_given hsafe hwaits value w c.session.pace
      exact .inr ⟨_, turn.response, by rw [← hconsole], hanswered⟩
  · cases hfailure : readNumber line.toList with
    | ok value => exact absurd hfailure (hread value)
    | error failure =>
      cases failure with
      | fault f => exact absurd hfailure (faultless_readNumber _ f)
      | problem p =>
        simp only [respond, hprompt, number, hfailure, hagain]
        exact ⟨_, rfl⟩
  · simp only [respond, hprompt]
    exact ⟨_, rfl⟩

/-! ### While the READ goes on waiting -/

/-- What is done to a session whose program waits can change its memory, or load a program. -/
theorem memory_of_edit {s : Session} (h : s.Poised) {x : Suspended}
    (hwaits : s.machine.suspended = some x) (w : Surroundings) (arguments : List (List Char))
    {known : Command} (hload : known = .load → (s.edit w arguments known).answer.isOk = false) :
    ∃ memory, (s.edit w arguments known).state.machine = s.machine.withMemory memory := by
  obtain ⟨hstalled, -, -⟩ := h.stands hwaits
  cases known with
  | undo => exact ⟨s.machine.core.memory, congrArg Reply.state hstalled.undo⟩
  | back => exact ⟨s.machine.core.memory, congrArg Reply.state hstalled.undoStatement⟩
  | reset => exact ⟨s.machine.core.memory, congrArg Reply.state hstalled.reset⟩
  | clear => exact ⟨s.machine.core.memory.cleared, rfl⟩
  | load =>
    cases arguments with
    | nil => exact ⟨s.machine.core.memory, rfl⟩
    | cons file _ =>
      cases hanswer : (s.loadFile w (String.ofList file)).answer with
      | ok _ => simp [Session.edit, hanswer, Except.isOk, Except.toBool] at hload
      | error failure =>
        exact ⟨s.machine.core.memory,
          congrArg Session.machine (Session.state_of_loadFile_error hanswer)⟩
  | step | next | run | regs | mem | vars | list | hist | ops | help | quit =>
    exact ⟨s.machine.core.memory, rfl⟩

theorem memory_of_respond (h : c.session.Poised) {x : Suspended}
    (hwaits : c.session.machine.suspended = some x) {w : Surroundings} {typed : Typed}
    {c' : Console} {response : Response} (hturn : c.respond w typed = .ok ⟨some c', response⟩)
    (haccepted : c.accepted? typed = none)
    (hloads : Exchange.loads ⟨c, w, typed, response⟩ = false) :
    ∃ memory, c'.session.machine = c.session.machine.withMemory memory := by
  cases hrun : c.run? typed with
  | some begun =>
    obtain ⟨s, pace⟩ := begun
    obtain ⟨asks, hconsole⟩ := (turned_of_run hrun hturn).console
    cases hconsole
    rcases accepted?_of_run hrun with ⟨-, rfl⟩ | ⟨value, hvalue, -⟩
    · exact ⟨c.session.machine.core.memory, (h.drive_of_waiting hwaits w pace).2.2⟩
    · rw [haccepted] at hvalue
      cases hvalue
  | none =>
    rw [((turned_of_edit hrun hturn).console c' rfl).1]
    unfold Exchange.loads at hloads
    unfold edit at hloads ⊢
    split
    · rename_i line hprompt
      split
      · rename_i known arguments hrequest
        apply memory_of_edit h hwaits
        rintro rfl
        simpa only [hprompt, hrequest] using hloads
      · exact ⟨c.session.machine.core.memory, rfl⟩
    · exact ⟨c.session.machine.core.memory, rfl⟩

theorem memory_of_played (hc : Reached memorySize file? c) {x : Suspended}
    (hwaits : c.session.machine.suspended = some x) {turns} {es : List Exchange} {d : Console}
    (hplayed : c.played turns = some (es, d)) (haccepted : accepted es = [])
    (hloads : ∀ e ∈ es, e.loads = false) :
    ∃ memory, d.session.machine = c.session.machine.withMemory memory := by
  induction turns generalizing c es with
  | nil =>
    cases hplayed
    exact ⟨d.session.machine.core.memory, rfl⟩
  | cons turn rest ih =>
    obtain ⟨c', response, es', hturn, hrest, rfl⟩ := played_cons hplayed
    obtain ⟨hfirst, hlater⟩ := List.forall_mem_cons.1 hloads
    obtain ⟨hnumber, haccepted'⟩ := List.append_eq_nil_iff.1 haccepted
    have hnone : c.accepted? turn.2 = none := Option.toList_eq_nil_iff.1 hnumber
    obtain ⟨memory, hmemory⟩ := memory_of_respond hc.poised hwaits hturn hnone hfirst
    have hwaits' : c'.session.machine.suspended = some x := by
      rw [hmemory]
      exact hwaits
    obtain ⟨memory', hmemory'⟩ := ih (.respond hc hturn) hwaits' hrest haccepted' hlater
    refine ⟨memory', ?_⟩
    rw [hmemory', hmemory]
    rfl

/-- A run while a READ waits leads to the other prompt. -/
theorem asks_of_run (h : c.session.Poised) {x : Suspended}
    (hwaits : c.session.machine.suspended = some x) (hprompt : c.prompt = .command) {line : String}
    {known : Command} {arguments : List (List Char)}
    (hrequest : Request.ofLine line = .command known arguments)
    (hruns : known.pace?.isSome = true) (w : Surroundings) :
    ∃ c' response, c.respond w (.line line) = .ok ⟨some c', response⟩ ∧ c'.prompt = .value ∧
      c'.session.machine = c.session.machine := by
  have hturn : ∀ {r : Reply Session Event}, r.answer = .ok .input → ∃ response,
      ofOutcome (Session.afterRun r) [line] = .ok ⟨some ⟨r.state.drained, true⟩, response⟩ := by
    intro r hanswer
    unfold ofOutcome Session.afterRun
    rw [hanswer]
    exact ⟨_, rfl⟩
  have hdriven : ∀ pace, ∃ c' response,
      ofOutcome (Session.afterRun (c.session.drive w pace)) [line] = .ok ⟨some c', response⟩ ∧
        c'.prompt = .value ∧ c'.session.machine = c.session.machine := by
    intro pace
    obtain ⟨hanswer, -, hmachine⟩ := h.drive_of_waiting hwaits w pace
    obtain ⟨response, hresponse⟩ := hturn hanswer
    refine ⟨_, response, hresponse, ?_, hmachine⟩
    simp [prompt, hmachine, Engine.isWaiting, hwaits]
  simp only [respond, hprompt, command, hrequest]
  cases known with
  | step => exact hdriven .instruction
  | next => exact hdriven .statement
  | run => exact hdriven .program
  | undo | back | reset | clear | regs | mem | vars | list | hist | ops | load | help | quit =>
    cases hruns

/-- At every prompt nothing stands in the input, nobody asks for a word there but the READ that
waits, and a number is asked for only if one does. A number goes to that READ, which stores it where
X points before the next prompt. What is no number is asked for again, an interrupt changes nothing,
and until a number was accepted or a program loaded the same READ waits and every run asks again. -/
theorem input_prompted (hc : Reached memorySize file? c) :
    c.session.machine.InputSettled ∧
      (c.prompt = .value → c.session.machine.isWaiting = true) ∧
      ∀ x, c.session.machine.suspended = some x →
        (c.prompt = .value → c.Asks x) ∧ c.Insists := by
  have hpoised := hc.poised
  refine ⟨hpoised.quiet.attentive.inputSettled hpoised.dry, fun h => (waiting_of_value h).2, ?_⟩
  intro x hwaits
  refine ⟨asks_of_value hpoised hc.safe hwaits, ?_, ?_⟩
  · intro turns es d hplayed haccepted hloads
    exact memory_of_played hc hwaits hplayed haccepted hloads
  · intro turns es d hplayed haccepted hloads hprompt w line known arguments hrequest hruns
    obtain ⟨memory, hmemory⟩ := memory_of_played hc hwaits hplayed haccepted hloads
    have hwaits' : d.session.machine.suspended = some x := by
      rw [hmemory]
      exact hwaits
    exact asks_of_run (hc.played hplayed).poised hwaits' hprompt hrequest hruns w

/-- A file that reads two numbers and puts out their sum. -/
def sumFile : Surroundings where
  read _ := .ok ("* 1: LOAD_I(8)\n* 1: INTERRUPT(0)\n* 2: LOAD_I(16)\n* 2: INTERRUPT(0)\n"
    ++ "* 3: LOAD(8)\n* 3: ADD(16)\n* 3: INTERRUPT(1)\n")
  patience := 20

/-- The prompt is left, memory is zeroed, and nothing can be undone. -/
def lookingAround : List (Surroundings × Typed) :=
  [(sumFile, .interrupt), (sumFile, .line "clear"), (sumFile, .line "back")]

theorem input_prompted_sum :
    ∃ (c c' d : Console) (x : Suspended) (es : List Exchange),
      Reached 64 (some "a.lst") c ∧ c.prompt = .value ∧
      c.session.machine.suspended = some x ∧ x.execution.index = 1 ∧
      c.session.machine.Answered x 7 c'.session.machine ∧
      c.played lookingAround = some (es, d) ∧
      (∃ memory, d.session.machine = c.session.machine.withMemory memory) ∧
      ∃ d' response, d.respond sumFile (.line "next") = .ok ⟨some d', response⟩ ∧
        d'.prompt = .value := by
  have hsum : (conversation sumFile 64 (some "a.lst") [(sumFile, .line "run")]).map
      (fun (_, _, c) => (c.prompt, c.session.machine.suspended,
        (c.respond sumFile (.line "7")).toOption.isSome))
      = some (.value, some ⟨⟨1, ⟨255, [0]⟩, .x 8⟩, 0⟩, true) := by decide +kernel
  have haround : (conversation sumFile 64 (some "a.lst") [(sumFile, .line "run")]).bind
      (fun start => (start.2.2.played lookingAround).map fun around =>
        (accepted around.1, around.1.all (!·.loads), around.2.prompt))
      = some ([], true, .command) := by
    decide +kernel
  obtain ⟨⟨response, es, c⟩, hconversation, heq⟩ := Option.map_eq_some_iff.1 hsum
  simp only [Prod.mk.injEq] at heq
  obtain ⟨hprompt, hwaits, hturns⟩ := heq
  rw [hconversation] at haround
  obtain ⟨⟨es', d⟩, hplayed, heq⟩ := Option.map_eq_some_iff.1 haround
  simp only [Prod.mk.injEq, List.all_eq_true, Bool.not_eq_true'] at heq
  obtain ⟨haccepted, hloads, hcommand⟩ := heq
  have hc := reached_of_conversation hconversation
  obtain ⟨-, -, hwaiting⟩ := input_prompted hc
  obtain ⟨hasks, hinsists⟩ := hwaiting _ hwaits
  obtain ⟨d', response', hasked, hvalue, -⟩ := hinsists.asks _ es' d hplayed haccepted hloads
    hcommand sumFile "next" .next [] rfl rfl
  rcases (hasks hprompt).number sumFile "7" 7 rfl with hfault | ⟨c', -, -, hanswered⟩
  · rw [hfault] at hturns
    cases hturns
  · exact ⟨c, c', d, _, es', hc, hprompt, hwaits, rfl, hanswered, hplayed,
      hinsists.waits _ es' d hplayed haccepted hloads, d', response', hasked, hvalue⟩

end Console

end Workbench

end Backstep
