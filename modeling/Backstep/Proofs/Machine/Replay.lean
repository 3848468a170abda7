import Backstep.Proofs.Machine.Frame
import Backstep.Proofs.Machine.Undo
/-!
# Running again

A machine whose program reads no input has one way forward. Wherever runs and undoing in any mixture
leave it, it stands where as many single steps from the loading of the program lead, apart from what
it has sent to the output; that cannot be taken back. `Trail` is the way forward and `OnTrail` says
that a machine stands on it: a step leads to the next place of the trail, and taking an execution
back to the one before.
-/

namespace Backstep

/-- Words are sent to the output before anything else. -/
def Core.behind (words : List Word) (c : Core) : Core :=
  { c with output := { c.output with buffer := words ++ c.output.buffer } }

theorem Core.unnoticed_behind (words : List Word) : Core.Unnoticed (Core.behind words) where
  pc _ := rfl
  x _ := rfl
  memory _ := rfl
  setPc _ _ := rfl
  setX _ _ := rfl
  setMemory _ _ := rfl
  send c w := by
    simp only [Core.send, Core.channel, Core.behind, Core.setChannel, Traced.on, Channel.write]
    cases c.output.waiting with
    | cons t ts => rfl
    | nil => simp only [List.append_assoc]

theorem Core.unnoticedByReads_behind (words : List Word) :
    Core.UnnoticedByReads (Core.behind words) := by
  intro c ticket
  cases ticket with
  | none => rfl
  | some ticket =>
    simp only [Core.nextInput, Core.collect, Core.channel, Core.behind]
    cases c.input.collect ticket with
    | mk input word? => cases word? <;> rfl

namespace Execution

theorem Outcome.output {x : Execution} {ticket : Option Ticket} {c c' : Core}
    (h : x.Outcome ticket c c') (houtput : c.output = {}) :
    ∃ words, c'.output = { buffer := words } := by
  cases h with
  | moved | stored | jumped | computed | took => exact ⟨[], houtput⟩
  | sent => exact ⟨[c.x], by rw [houtput]; rfl⟩

end Execution

namespace Machine

def withOutput (m : Machine) (output : Channel) : Machine :=
  { m with core := { m.core with output } }

/-- The machine as if nothing had been sent. -/
def silent (m : Machine) : Machine := m.withOutput {}

/-- The words that were sent, if nobody reads the output. -/
def said (m : Machine) : List Word := m.core.output.buffer

/-- Nobody has read the output or waits for it. -/
def Unread (m : Machine) : Prop := m.core.output = { buffer := m.said }

theorem behind_silent (m : Machine) (words : List Word) :
    m.silent.changed (.behind words) = m.withOutput { buffer := words } := by
  simp only [changed, Core.behind, silent, withOutput, List.append_nil]

theorem Unread.eq_behind {m : Machine} (hm : m.Unread) :
    m = m.silent.changed (.behind m.said) := by
  rw [behind_silent, ← hm]
  rfl

def stepped (m : Machine) : Nat → Machine
  | 0 => m
  | k + 1 => (m.stepped k).step.state

/-- A step depends on what was sent before only in what has been sent afterwards. -/
theorem step_of_silent {s m : Machine} {words : List Word} (hm : m.silent = s) (hunread : m.Unread)
    (hwords : s.step.state.core.output = { buffer := words }) :
    m.step.state.silent = s.step.state.silent ∧ m.step.state.Unread ∧
      m.step.state.said = m.said ++ words := by
  have hstep : m.step.state = s.step.state.changed (.behind m.said) := by
    conv => lhs; rw [hunread.eq_behind, hm]
    rw [step_changed (Core.unnoticed_behind _) _ fun _ => Core.unnoticedByReads_behind _]
    rfl
  have hsaid : m.step.state.said = m.said ++ words := by
    rw [hstep, said, changed, Core.behind, hwords]
  refine ⟨by rw [hstep]; rfl, ?_, hsaid⟩
  rw [Unread, hsaid, hstep, changed, Core.behind, hwords]

/-! ### The way forward -/

/-- So many steps from the start lead to the machine. Each of them has completed an execution that
is no READ, and would have done so in silence. -/
inductive Trail (start : Machine) : Nat → Machine → Prop
  | start : Trail start 0 start
  | next {n : Nat} {t : Machine} {x : Execution} {core : Core} (htrail : Trail start n t)
      (hstep : t.silent.step.state = { t.silent with core, past := x :: t.past })
      (hreads : x.instruction.reads = false) (hprepared : x.Prepared t.silent.core)
      (houtcome : x.Outcome none t.silent.core core) : Trail start (n + 1) t.step.state

/-- A machine before its first step, with nothing sent. -/
structure Unstarted (start : Machine) : Prop where
  past : start.past = []
  suspended : start.suspended = none
  output : start.core.output = {}

namespace Trail

variable {start t : Machine} {n : Nat}

theorem eq_stepped (h : Trail start n t) : t = start.stepped n := by
  induction h with
  | start => rfl
  | next _ _ _ _ _ ih => rw [stepped, ← ih]

theorem output_next {t : Machine} {x : Execution} {core : Core}
    (hstep : t.silent.step.state = { t.silent with core, past := x :: t.past })
    (houtcome : x.Outcome none t.silent.core core) :
    ∃ words, t.silent.step.state.core.output = { buffer := words } := by
  rw [hstep]
  exact houtcome.output rfl

theorem unread (hstart : Unstarted start) (h : Trail start n t) : t.Unread := by
  induction h with
  | start =>
    rw [Unread, said, hstart.output]
  | next _ hstep _ _ houtcome ih =>
    obtain ⟨words, hwords⟩ := output_next hstep houtcome
    exact (step_of_silent rfl ih hwords).2.1

theorem silent_next {t : Machine} {x : Execution} {core : Core} (hunread : t.Unread)
    (hstep : t.silent.step.state = { t.silent with core, past := x :: t.past })
    (houtcome : x.Outcome none t.silent.core core) :
    t.step.state.silent = ({ t.silent with core, past := x :: t.past } : Machine).silent := by
  obtain ⟨words, hwords⟩ := output_next hstep houtcome
  rw [← hstep]
  exact (step_of_silent rfl hunread hwords).1

theorem idle (hstart : Unstarted start) (h : Trail start n t) : t.suspended = none := by
  induction h with
  | start => exact hstart.suspended
  | next htrail hstep _ _ houtcome ih =>
    have hsilent := silent_next (htrail.unread hstart) hstep houtcome
    exact (congrArg (·.suspended) hsilent).trans ih

theorem past_next {t : Machine} {x : Execution} {core : Core} (hunread : t.Unread)
    (hstep : t.silent.step.state = { t.silent with core, past := x :: t.past })
    (houtcome : x.Outcome none t.silent.core core) : t.step.state.past = x :: t.past :=
  congrArg (·.past) (silent_next hunread hstep houtcome)

end Trail

/-- The machine stands on the way forward, whatever it has sent meanwhile. -/
structure OnTrail (start : Machine) (m t : Machine) : Prop where
  trail : Trail start m.past.length t
  silent : m.silent = t.silent
  unread : m.Unread

namespace OnTrail

variable {start m t : Machine}

theorem refl (hstart : Unstarted start) : OnTrail start start start where
  trail := by
    rw [hstart.past]
    exact .start
  silent := rfl
  unread := Trail.unread hstart .start

theorem idle (hstart : Unstarted start) (h : OnTrail start m t) : m.suspended = none :=
  (congrArg (·.suspended) h.silent).trans (h.trail.idle hstart)

theorem after_step (hstart : Unstarted start) (h : OnTrail start m t)
    (hreads : m.awaitsWord = false) : ∃ t', OnTrail start m.step.state t' := by
  have hidle := h.idle hstart
  have hpast : m.past = t.past := congrArg (·.past) h.silent
  have hsilent : m.silent = t.silent := h.silent
  have hstepped := t.silent.stepped_step
  have hnone : t.suspended = none := h.trail.idle hstart
  have hquiet : ∀ {i : Instruction}, t.silent.next? = some i → i.reads = false := by
    intro i hnext
    have hsame : m.next? = t.silent.next? := by rw [← hsilent]; rfl
    simpa only [awaitsWord, hidle, hsame, hnext, Option.any_some] using hreads
  generalize hafter : t.silent.step.state = s at hstepped
  cases hstepped with
  | unchanged =>
    refine ⟨t, ?_⟩
    have hwords : t.silent.step.state.core.output = { buffer := [] } := by
      rw [hafter]
      rfl
    obtain ⟨hsame, hunread, -⟩ := step_of_silent hsilent h.unread hwords
    rw [hafter] at hsame
    have hlength : m.step.state.past = m.past := (congrArg (·.past) hsame).trans hpast.symm
    exact ⟨hlength ▸ h.trail, hsame, hunread⟩
  | @completed x core _ hnext hprepared houtcome =>
    obtain ⟨words, hwords⟩ := Trail.output_next hafter houtcome
    have htrail : Trail start (m.past.length + 1) t.step.state :=
      .next h.trail hafter (hquiet hnext) hprepared houtcome
    obtain ⟨hsame, hunread, -⟩ := step_of_silent hsilent h.unread hwords
    have hnext := Trail.silent_next (h.trail.unread hstart) hafter houtcome
    have hlength : m.step.state.past.length = m.past.length + 1 := by
      rw [hafter] at hsame
      have hnewpast : m.step.state.past = x :: t.past := congrArg (·.past) hsame
      rw [hnewpast, List.length_cons, hpast]
    exact ⟨t.step.state, hlength ▸ htrail, by rw [hsame, hnext, hafter]; rfl, hunread⟩
  | resumed hwaits => simp [Machine.silent, withOutput, hnone] at hwaits
  | parked _ hnext _ hparks => simp [hquiet hnext] at hparks

theorem after_takeBack (hstart : Unstarted start) (h : OnTrail start m t) :
    m.takenBack.past.length ≤ m.past.length ∧ m.takenBack.core.output = m.core.output ∧
      ∃ t', OnTrail start m.takenBack t' := by
  rcases m.takenBack_cases with hsame | ⟨x, past, core, sent, hidle, hpast, hback, hafter⟩
  · rw [hsame]
    exact ⟨Nat.le_refl _, rfl, t, h⟩
  · obtain ⟨htrail, hsilent, hunread⟩ := h
    have hpast' : t.past = x :: past := (congrArg (·.past) hsilent).symm.trans hpast
    rw [hpast, List.length_cons] at htrail
    cases htrail with
    | @next _ t x' core' htrail hstep hreads hprepared houtcome =>
      have hunread' := htrail.unread hstart
      rw [Trail.past_next hunread' hstep houtcome] at hpast'
      obtain ⟨rfl, rfl⟩ := List.cons.inj hpast'
      have hcore : m.silent.core = { core' with output := {} } := by
        rw [hsilent, Trail.silent_next hunread' hstep houtcome]
        rfl
      have hpc : m.core.pc = core'.pc := congrArg (·.pc) hcore
      have hx : m.core.x = core'.x := congrArg (·.x) hcore
      have hmemory : m.core.memory = core'.memory := congrArg (·.memory) hcore
      have hinput : m.core.input = t.core.input :=
        (congrArg (·.input) hcore).trans (houtcome.input hreads)
      have hleft : x'.Left t.silent.core m.core.pc m.core.x := by
        rw [hpc, hx]
        exact houtcome.left
      have hrestore : x'.saved.restore? m.core.memory = some t.core.memory := by
        rw [hmemory]
        exact houtcome.restore? hprepared hreads
      obtain ⟨sent', hback'⟩ := Execution.takeBack_of_left hprepared hleft hrestore
      rw [hback] at hback'
      cases hback'
      have hprogram : m.program = t.program := congrArg (·.program) <|
        hsilent.trans (Trail.silent_next hunread' hstep houtcome)
      have hstarts : m.starts = t.starts := congrArg (·.starts) <|
        hsilent.trans (Trail.silent_next hunread' hstep houtcome)
      rw [hafter]
      refine ⟨by rw [hpast]; exact Nat.le_succ _, rfl, t, htrail, ?_, hunread⟩
      simp only [Machine.silent, withOutput, hinput, hprogram, hstarts, hidle, htrail.idle hstart]

end OnTrail

/-! ### Forward and back in any mixture -/

/-- None of the deeds is a step that asks for a word of input. -/
def avoidsReads (m : Machine) : List Deed → Bool
  | [] => true
  | d :: ds => !(d = .step && m.awaitsWord) && (m.after d).avoidsReads ds

theorem OnTrail.afterDeeds {start m t : Machine} (hstart : Unstarted start) (h : OnTrail start m t)
    {ds : List Deed} (hmoves : ∀ d ∈ ds, d = .step ∨ d = .takeBack)
    (hreads : m.avoidsReads ds = true) : ∃ t', OnTrail start (m.afterDeeds ds) t' := by
  induction ds generalizing m t with
  | nil => exact ⟨t, h⟩
  | cons d ds ih =>
    simp only [avoidsReads, Bool.and_eq_true] at hreads
    obtain ⟨hread, hrest⟩ := hreads
    have hmoves' : ∀ d ∈ ds, d = .step ∨ d = .takeBack := by
      intro d hd
      exact hmoves d (List.mem_cons_of_mem _ hd)
    rcases hmoves d List.mem_cons_self with rfl | rfl
    · obtain ⟨t', h'⟩ := h.after_step hstart (by simpa using hread)
      exact ih h' hmoves' hrest
    · obtain ⟨-, -, t', h'⟩ := h.after_takeBack hstart
      exact ih h' hmoves' hrest

/-- Taking executions back leads to an earlier place, and leaves the output alone. -/
theorem OnTrail.back {start m t : Machine} (hstart : Unstarted start) (h : OnTrail start m t)
    {ds : List Deed} (hback : ∀ d ∈ ds, d = .takeBack) :
    (m.afterDeeds ds).past.length ≤ m.past.length ∧
      (m.afterDeeds ds).core.output = m.core.output ∧ ∃ t', OnTrail start (m.afterDeeds ds) t' := by
  induction ds generalizing m t with
  | nil => exact ⟨Nat.le_refl _, rfl, t, h⟩
  | cons d ds ih =>
    obtain rfl := hback d List.mem_cons_self
    obtain ⟨hlength, houtput, t', h'⟩ := h.after_takeBack hstart
    obtain ⟨hlength', houtput', hon⟩ := ih h' fun d hd => hback d (List.mem_cons_of_mem _ hd)
    exact ⟨Nat.le_trans hlength' hlength, houtput'.trans houtput, hon⟩

/-- As many steps as lie between two places lead from the one to the other, and send what the way
forward sends there. -/
theorem OnTrail.forward {start t₁ t m₁ : Machine} {k n : Nat} (hstart : Unstarted start)
    (hfrom : Trail start k t₁) (hto : Trail start n t) (hle : k ≤ n)
    (hsilent : m₁.silent = t₁.silent) (hunread : m₁.Unread) :
    ∃ words, t.said = t₁.said ++ words ∧ (m₁.stepped (n - k)).silent = t.silent ∧
      (m₁.stepped (n - k)).Unread ∧ (m₁.stepped (n - k)).said = m₁.said ++ words := by
  induction hto with
  | start =>
    obtain rfl := Nat.le_zero.1 hle
    obtain rfl : t₁ = start := hfrom.eq_stepped
    exact ⟨[], by simp, hsilent, hunread, by simp [stepped]⟩
  | @next n t x core htrail hstep hreads hprepared houtcome ih =>
    rcases Nat.lt_or_ge n k with hlt | hge
    · obtain rfl : k = n + 1 := by omega
      have htrail' : Trail start (n + 1) t.step.state :=
        .next htrail hstep hreads hprepared houtcome
      obtain rfl : t₁ = t.step.state := hfrom.eq_stepped.trans htrail'.eq_stepped.symm
      rw [Nat.sub_self]
      exact ⟨[], by simp, hsilent, hunread, by simp [stepped]⟩
    · obtain ⟨words, hsaid, hsilent', hunread', hsaid'⟩ := ih hge
      obtain ⟨more, houtput⟩ := Trail.output_next hstep houtcome
      obtain ⟨-, -, hnext⟩ := step_of_silent rfl (htrail.unread hstart) houtput
      obtain ⟨hlast, hlast', hlast''⟩ := step_of_silent hsilent' hunread' houtput
      rw [Nat.succ_sub hge, stepped]
      refine ⟨words ++ more, by rw [hnext, hsaid, List.append_assoc], ?_, hlast', ?_⟩
      · rw [hlast, ← (step_of_silent rfl (htrail.unread hstart) houtput).1]
      · rw [hlast'', hsaid', List.append_assoc]

/-- From the first machine as many steps as it has fewer executions lead to the second one again,
and send once more what the steps from the start send there. -/
def ReturnsTo (start m₁ m : Machine) : Prop :=
  ∃ words, (start.stepped m.past.length).said = (start.stepped m₁.past.length).said ++ words ∧
    m₁.stepped (m.past.length - m₁.past.length) = m.withOutput { buffer := m₁.said ++ words }

theorem OnTrail.returnsTo {start m₁ t₁ m t : Machine} (hstart : Unstarted start)
    (h : OnTrail start m t) (h₁ : OnTrail start m₁ t₁) (hle : m₁.past.length ≤ m.past.length) :
    ReturnsTo start m₁ m := by
  obtain ⟨words, hsaid, hsilent, hunread, hsaid'⟩ :=
    forward hstart h₁.trail h.trail hle h₁.silent h₁.unread
  refine ⟨words, ?_, ?_⟩
  · rw [← h.trail.eq_stepped, ← h₁.trail.eq_stepped]
    exact hsaid
  · rw [hunread.eq_behind, hsilent, ← h.silent, hsaid', behind_silent]

end Machine

/-- The operation runs the program or undoes some of it. -/
def Operation.moves : Operation → Bool
  | .run _ | .undo | .undoStatement | .reset => true
  | .load _ | .access _ => false

def Operation.goesBack : Operation → Bool
  | .undo | .undoStatement | .reset => true
  | .run _ | .load _ | .access _ => false

namespace Machine

theorem moves_allDeeds {m : Machine} {patience : Nat} {os : List Operation}
    (hos : ∀ o ∈ os, o.moves = true) : ∀ d ∈ m.allDeeds patience os, d = .step ∨ d = .takeBack := by
  intro d hd
  obtain ⟨o, ho, m', hd⟩ := mem_allDeeds hd
  have hmoves := hos o ho
  have hdeed := mem_deeds hd
  cases o with
  | run => exact .inl hdeed
  | undo | undoStatement | reset => exact .inr hdeed
  | load | access => cases hmoves

theorem back_deeds {o : Operation} (ho : o.goesBack = true) (m : Machine) (patience : Nat) :
    ∀ d ∈ m.deeds patience o, d = .takeBack := by
  intro d hd
  have hdeed := mem_deeds hd
  cases o with
  | undo | undoStatement | reset => exact hdeed
  | run | load | access => cases ho

theorem back_allDeeds {m : Machine} {patience : Nat} {os : List Operation}
    (hos : ∀ o ∈ os, o.goesBack = true) : ∀ d ∈ m.allDeeds patience os, d = .takeBack := by
  intro d hd
  obtain ⟨o, ho, m', hd⟩ := mem_allDeeds hd
  exact back_deeds (hos o ho) m' patience d hd

theorem eq_afterAll_of_undoTimes {m m₁ : Machine} {k : Nat} (h : m.undoTimes k = .ok m₁) :
    m₁ = m.afterAll 0 (.replicate k .undo) := by
  induction k generalizing m with
  | zero =>
    cases h
    rfl
  | succ k ih =>
    unfold undoTimes at h
    split at h
    · exact ih h
    · cases h

theorem unstarted_load (memory : Memory) (p : Program) : Unstarted ((fresh memory).load p).state :=
  ⟨rfl, rfl, rfl⟩

/-- A program is loaded into a new machine and then run and undone in any mixture, without a READ.
The machine stands where as many steps from the start lead. As many steps as were undone lead to it
again and send the same words, and after a reset every run is as it was from the start. -/
theorem replays (memory : Memory) (p : Program) (patience : Nat) (os : List Operation)
    (start m : Machine) (hstart : start = ((fresh memory).load p).state)
    (hm : m = start.afterAll patience os) (hmoves : ∀ o ∈ os, o.moves = true)
    (hreads : start.avoidsReads (start.allDeeds patience os) = true) :
    m = (start.stepped m.past.length).withOutput m.core.output ∧
      (∀ k ≤ m.past.length, ∃ m₁, m.undoTimes k = .ok m₁ ∧ m₁.past.length + k = m.past.length ∧
        ReturnsTo start m₁ m) ∧
      (∀ us : List Operation, (∀ o ∈ us, o.goesBack = true) →
        (m.afterAll patience us).past.length ≤ m.past.length ∧
          ReturnsTo start (m.afterAll patience us) m) ∧
      m.reset.answer = .ok () ∧
      ∀ (pace : Pace) (patience : Nat), m.reset.state.run pace patience
        = (start.run pace patience).within (.changed (.behind m.said)) := by
  have hunstarted : Unstarted start := hstart ▸ unstarted_load memory p
  have hfaithful := Chronicle.faithful_ofOperations memory patience (.load p :: os)
  have hmachine : (Chronicle.ofOperations memory patience (.load p :: os)).machine = m := by
    rw [Chronicle.machine_ofOperations, hm, hstart]
    rfl
  generalize Chronicle.ofOperations memory patience (.load p :: os) = r at hfaithful hmachine
  obtain ⟨t, hon⟩ : ∃ t, OnTrail start m t := by
    rw [hm, afterAll_eq_afterDeeds]
    exact (OnTrail.refl hunstarted).afterDeeds hunstarted (moves_allDeeds hmoves) hreads
  have hidle : r.machine.suspended = none := hmachine ▸ hon.idle hunstarted
  have hback : ∀ (patience : Nat) (us : List Operation), (∀ o ∈ us, o.goesBack = true) →
      (m.afterAll patience us).past.length ≤ m.past.length ∧
        (m.afterAll patience us).core.output = m.core.output ∧
        ∃ t', OnTrail start (m.afterAll patience us) t' := by
    intro patience us hus
    rw [afterAll_eq_afterDeeds]
    exact hon.back hunstarted (back_allDeeds hus)
  have hundone : ∀ k, ∀ o ∈ List.replicate k Operation.undo, o.goesBack = true := by
    intro k o ho
    rw [List.eq_of_mem_replicate ho]
    rfl
  obtain ⟨hanswer, -, -, hnopast, htimes⟩ := hfaithful.reset hidle
  rw [hmachine] at hanswer hnopast htimes
  refine ⟨?_, ?_, ?_, hanswer, ?_⟩
  · rw [← hon.trail.eq_stepped]
    exact congrArg (·.withOutput m.core.output) hon.silent
  · intro k hk
    have hk' : k ≤ r.machine.past.length := by
      rw [hmachine]
      exact hk
    obtain ⟨m₁, htimes, hundo⟩ := hfaithful.undoTimes hidle hk'
    rw [hmachine] at htimes
    have hlength : m₁.past.length + k = m.past.length := by
      rw [hundo.rest, hmachine, List.length_drop]
      omega
    obtain ⟨-, -, t₁, hon₁⟩ := hback 0 _ (hundone k)
    rw [← eq_afterAll_of_undoTimes htimes] at hon₁
    exact ⟨m₁, htimes, hlength, hon.returnsTo hunstarted hon₁ (by omega)⟩
  · intro us hus
    obtain ⟨hle, -, t₁, hon₁⟩ := hback patience us hus
    exact ⟨hle, hon.returnsTo hunstarted hon₁ hle⟩
  · intro pace patience
    obtain ⟨-, houtput, t₁, hon₁⟩ := hback 0 _ (hundone m.past.length)
    rw [← eq_afterAll_of_undoTimes htimes] at houtput hon₁
    have htrail := hon₁.trail
    rw [hnopast] at htrail
    obtain rfl : t₁ = start := htrail.eq_stepped
    have hsilent : t₁.withOutput {} = t₁ := by
      rw [← hunstarted.output]
      rfl
    have hreset : m.reset.state = t₁.changed (.behind m.said) := by
      rw [hon₁.unread.eq_behind, hon₁.silent, said, houtput, said, silent, hsilent]
    rw [hreset]
    exact runOn_changed (Core.unnoticed_behind _) (Core.unnoticedByReads_behind _) pace _ t₁ #[]

/-- Counts from two to zero, storing and sending each number, and then divides by zero. -/
def countdown : Program := .eachAlone
  [⟨4, [2]⟩, ⟨2, [8]⟩, ⟨255, [1]⟩, ⟨106, [-1]⟩, ⟨202, [1]⟩, ⟨109, [0]⟩]

theorem replays_countdown :
    let start := ((fresh (.zeroed 16)).load countdown).state
    let os := [.run .program, .undoStatement, .undo, .run .instruction, .reset, .run .program,
      .undo]
    let m := start.afterAll 20 os
    start.avoidsReads (start.allDeeds 20 os) = true ∧ m.past.length = 8 ∧ m.said = [2, 1, 2, 1] ∧
      m = (start.stepped 8).withOutput m.core.output := by
  intro start os m
  have hreads : start.avoidsReads (start.allDeeds 20 os) = true := by decide +kernel
  have hlength : m.past.length = 8 := by decide +kernel
  have hsaid : m.said = [2, 1, 2, 1] := by decide +kernel
  have hreplays := replays (.zeroed 16) countdown 20 os start m rfl rfl (by decide) hreads
  rw [hlength] at hreplays
  exact ⟨hreads, hlength, hsaid, hreplays.1⟩

end Machine

end Backstep
