import Backstep.Proofs.Machine.Deeds
/-!
# What a step does not notice

Executions read the counter, X and memory, send to the output and, if they are READs, look at the
input. A change of a core that respects all this, such as earlier words in the output or, as long as
nothing reads, another input, makes no difference to a step: it can be made before or after, and the
answer and the signals are the same.
-/

namespace Backstep

def Traced.on {α β : Type} (f : α → β) (t : Traced α) : Traced β := ⟨f t.value, t.signals⟩

namespace Core

/-- A change of a core that leaves alone what executions read and write, except for the input. -/
structure Unnoticed (f : Core → Core) : Prop where
  pc (c : Core) : (f c).pc = c.pc
  x (c : Core) : (f c).x = c.x
  memory (c : Core) : (f c).memory = c.memory
  setPc (c : Core) (pc : Address) : { f c with pc } = f { c with pc }
  setX (c : Core) (x : Word) : { f c with x } = f { c with x }
  setMemory (c : Core) (memory : Memory) : { f c with memory } = f { c with memory }
  send (c : Core) (w : Word) : (f c).send .output w = (c.send .output w).on f

/-- READs do not notice the change either. -/
def UnnoticedByReads (f : Core → Core) : Prop :=
  ∀ c ticket, (f c).nextInput ticket = (c.nextInput ticket).on fun r => (f r.1, r.2)

namespace Unnoticed

variable {f : Core → Core} (hf : Unnoticed f)

include hf

theorem advance (c : Core) : (f c).advance = c.advance.on f := by
  simp only [Core.advance, Core.setPc, Traced.on, hf.pc, hf.setPc]

theorem onX (c : Core) (v : Word) : (f c).setX v = (c.setX v).on f := by
  simp only [Core.setX, Traced.on, hf.setX]

theorem store (c : Core) (a : Address) (w : Word) :
    (f c).store a w = (c.store a w).map (.on f) := by
  simp only [Core.store, hf.memory]
  cases c.memory.write? a w with
  | none => rfl
  | some memory => simp only [hf.setMemory, Except.map, Traced.on]

theorem load (c : Core) (a : Address) : (f c).load a = c.load a := by
  simp only [Core.load, hf.memory]

theorem result (c : Core) (i : Instruction) : (f c).result i = c.result i := by
  unfold Core.result
  simp only [hf.x, hf.load, divisionByZero, hf.pc]

theorem target (c : Core) (i : Instruction) : (f c).target i = c.target i := by
  unfold Core.target
  simp only [hf.x, hf.pc]

theorem prepare (c : Core) (i : Instruction) :
    Execution.prepare (f c) i = Execution.prepare c i := by
  unfold Execution.prepare
  simp only [hf.x, hf.pc, hf.load]

theorem interrupt (c : Core) (index : Address) (operand : Word) (ticket : Option Ticket)
    (hinput : Service.ofOperand? operand = some .read → UnnoticedByReads f) :
    (f c).interrupt index operand ticket
      = (c.interrupt index operand ticket).map (.on fun r => (f r.1, r.2)) := by
  unfold Core.interrupt
  cases hservice : Service.ofOperand? operand with
  | none =>
    simp only [hf.advance]
    rfl
  | some service =>
    cases service with
    | write =>
      simp only [hf.x, hf.send]
      simp only [bind, pure, Traced.on, hf.advance, Except.map]
    | read =>
      simp only [hinput hservice c ticket]
      obtain ⟨⟨c', reading⟩, sent⟩ := c.nextInput ticket
      cases reading with
      | pending => rfl
      | ready w =>
        simp only [Traced.on, hf.x, hf.store]
        cases hstore : c'.store c'.x.address w with
        | error failure => rfl
        | ok stored =>
          simp only [Except.map, bind, Except.bind, pure, Except.pure, Traced.on, hf.advance]

theorem perform (x : Execution) (c : Core) (ticket : Option Ticket)
    (hinput : x.instruction.reads = true → UnnoticedByReads f) :
    x.perform (f c) ticket = (x.perform c ticket).map (.on fun r => (f r.1, r.2)) := by
  unfold Execution.perform
  cases x.saved with
  | nothing =>
    simp only [hf.advance]
    rfl
  | word address previous =>
    simp only [hf.x, hf.store]
    cases c.store address c.x with
    | error failure => rfl
    | ok stored =>
      simp only [Except.map, bind, Except.bind, pure, Except.pure, Traced.on, hf.advance]
  | pc previous =>
    simp only [hf.target]
    cases c.target x.instruction with
    | error failure => rfl
    | ok pc =>
      simp only [Core.setPc, hf.setPc]
      rfl
  | x previous =>
    simp only
    split
    · rename_i hop
      exact hf.interrupt c _ _ _ fun hservice => hinput (Instruction.reads_iff.2 ⟨hop, hservice⟩)
    · simp only [hf.result]
      cases c.result x.instruction with
      | error failure => rfl
      | ok v =>
        simp only [hf.onX, Except.map, bind, Except.bind, pure, Except.pure, Traced.on, hf.advance]

end Unnoticed

end Core

namespace Engine

def changed (f : Core → Core) (e : Engine) : Engine := { e with core := f e.core }

variable {f : Core → Core} (hf : Core.Unnoticed f)

include hf

theorem attempt_changed (e : Engine) (x : Execution) (ticket : Option Ticket) (sent : List Signal)
    (hinput : x.instruction.reads = true → Core.UnnoticedByReads f) :
    (e.changed f).attempt x ticket sent = (e.attempt x ticket sent).within (.changed f) := by
  simp only [attempt, changed, hf.perform x e.core ticket hinput]
  cases x.perform e.core ticket with
  | error failure => rfl
  | ok t =>
    obtain ⟨⟨core, waits⟩, signals⟩ := t
    cases waits <;> rfl

theorem execute_changed (e : Engine) (i : Instruction)
    (hinput : i.reads = true → Core.UnnoticedByReads f) :
    (e.changed f).execute i = (e.execute i).within (.changed f) := by
  unfold execute
  by_cases hwaiting : e.isWaiting = true
  · rw [if_pos hwaiting, if_pos (show (e.changed f).isWaiting = true from hwaiting)]
    rfl
  · rw [if_neg hwaiting, if_neg (show ¬ (e.changed f).isWaiting = true from hwaiting)]
    simp only [show (e.changed f).core = f e.core from rfl, hf.prepare]
    cases hprepare : Execution.prepare e.core i with
    | error failure => rfl
    | ok t =>
      obtain ⟨x, signals⟩ := t
      have hsame : x.instruction = i := (Execution.prepared_of_prepare hprepare).1
      exact attempt_changed hf e x none _ (hsame ▸ hinput)

end Engine

namespace Machine

def changed (f : Core → Core) (m : Machine) : Machine := { m with core := f m.core }

/-- The next step asks for a word of input. -/
def awaitsWord (m : Machine) : Bool :=
  match m.suspended with
  | some s => s.execution.instruction.reads
  | none => m.next?.any (·.reads)

theorem following_changed {f : Core → Core} (hf : Core.Unnoticed f) (m : Machine)
    (r : Reply Engine Completion) :
    (m.changed f).following (r.within (.changed f)) = (m.following r).within (.changed f) := by
  have hdone : ({ m with toEngine := r.state.changed f } : Machine).isDone
      = ({ m with toEngine := r.state } : Machine).isDone := by
    unfold isDone
    rw [show ({ m with toEngine := r.state.changed f } : Machine).pc = r.state.core.pc from hf.pc _]
    rfl
  have hevent : ({ m with toEngine := r.state.changed f } : Machine).event
      = ({ m with toEngine := r.state } : Machine).event := by
    funext c
    simp only [event, hdone]
  simp only [following, Reply.within]
  rw [← hevent]
  rfl

variable {f : Core → Core} (hf : Core.Unnoticed f)

include hf

theorem step_changed (m : Machine) (hinput : m.awaitsWord = true → Core.UnnoticedByReads f) :
    (m.changed f).step = m.step.within (.changed f) := by
  unfold step
  cases hprogram : m.program with
  | none =>
    simp only [show (m.changed f).program = none from hprogram]
    rfl
  | some p =>
    simp only [show (m.changed f).program = some p from hprogram]
    cases hsuspended : m.suspended with
    | some s =>
      have hreads : s.execution.instruction.reads = true → Core.UnnoticedByReads f := by
        simpa only [awaitsWord, hsuspended] using hinput
      have hretry : (m.changed f).retry = m.retry.within (.changed f) := by
        have hattempt := Engine.attempt_changed hf m.toEngine s.execution (some s.ticket) [] hreads
        simp only [Engine.retry, hsuspended, show (m.changed f).suspended = some s from hsuspended]
        exact hattempt
      rw [if_pos (by simp [changed, Engine.isWaiting, hsuspended]),
        if_pos (by simp [Engine.isWaiting, hsuspended]), hretry]
      exact following_changed hf m _
    | none =>
      rw [if_neg (by simp [changed, Engine.isWaiting, hsuspended]),
        if_neg (by simp [Engine.isWaiting, hsuspended])]
      simp only [pc, changed, hf.pc]
      cases hinstruction : p.instruction? m.core.pc.toNat with
      | none => rfl
      | some i =>
        have hnext : m.next? = some i := by simp [next?, hprogram, pc, hinstruction]
        have hreads : i.reads = true → Core.UnnoticedByReads f := by
          simpa only [awaitsWord, hsuspended, hnext, Option.any_some] using hinput
        simp only
        have hexecute := Engine.execute_changed hf m.toEngine i hreads
        simp only [Engine.changed] at hexecute
        rw [hexecute]
        exact following_changed hf m _

theorem runOn_changed (hinput : Core.UnnoticedByReads f) (pace : Pace) (patience : Nat)
    (m : Machine) (sent : Array Signal) :
    runOn pace patience (m.changed f) sent = (runOn pace patience m sent).within (.changed f) := by
  induction patience generalizing m sent with
  | zero => rfl
  | succ patience ih =>
    have hstep := step_changed hf m fun _ => hinput
    have hstops : (m.step.state.changed f).startsAt (m.step.state.changed f).pc.toNat
        = m.step.state.startsAt m.step.state.pc.toNat := by
      simp only [startsAt, pc, changed, hf.pc]
    unfold runOn
    simp only [hstep, Reply.within, hstops]
    split
    · split
      · rfl
      · exact ih m.step.state _
    · rfl

end Machine

end Backstep
