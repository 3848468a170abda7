import Backstep.Proofs.Machine.Deeds
import Backstep.Proofs.Program
/-!
# Machines that stay inside memory

Whatever reaches past the end of memory has no answer but a fault. A machine is `Bounded` if what
its program, its past and the READ that waits name as addresses lies inside memory. Nothing that can
be done with such a machine faults, provided that a READ is begun only with an address in X that
lies inside as well: `Sound` says so of a reply, together with what has to hold of the next one.
-/

namespace Backstep

/-- The answer is no fault, though it may be a problem. -/
def Faultless {α : Type} (r : Except Failure α) : Prop := ∀ f, r ≠ .error (.fault f)

namespace Faultless

variable {α β : Type}

theorem ok {a : α} : Faultless (.ok a : Except Failure α) := by
  intro f hf
  cases hf

theorem problem {p : Problem} : Faultless (.error (.problem p) : Except Failure α) := by
  intro f hf
  cases hf

theorem map {r : Except Failure α} (h : Faultless r) (g : α → β) : Faultless (g <$> r) := by
  intro f hf
  cases r with
  | ok a => cases hf
  | error failure =>
    cases hf
    exact h f rfl

theorem bind {r : Except Failure α} (h : Faultless r) {g : α → Except Failure β}
    (hg : ∀ a, r = .ok a → Faultless (g a)) : Faultless (r >>= g) := by
  cases r with
  | ok a => exact hg a rfl
  | error failure =>
    intro f hf
    cases hf
    exact h f rfl

theorem ite {p : Prop} [Decidable p] {r s : Except Failure α} (hr : Faultless r)
    (hs : Faultless s) : Faultless (if p then r else s) := by
  split
  · exact hr
  · exact hs

theorem unfinished {r : Except Failure α} (h : Faultless r) (f : Fault)
    (hf : r = .error (.fault f)) : f = .unfinished :=
  absurd hf (h f)

end Faultless

/-- A word that the signal tells of lies inside a memory of the given size. -/
def Signal.Inside (memorySize : Nat) : Signal → Prop
  | .memory (.word a _) => a.toNat + 8 ≤ memorySize
  | _ => True

namespace Core

variable {c : Core}

theorem load_of_holds {a : Address} (hholds : c.memory.Holds a) : ∃ w, c.load a = .ok w := by
  obtain ⟨w, hread⟩ := hholds.read?
  exact ⟨w, by simp only [load, hread]⟩

theorem store_of_holds {a : Address} (hholds : c.memory.Holds a) (w : Word) :
    ∃ t, c.store a w = .ok t ∧ ∀ σ ∈ t.signals, σ.Inside c.memory.size := by
  obtain ⟨memory, hwrite⟩ := hholds.write? w
  refine ⟨_, by simp only [store, hwrite]; rfl, ?_⟩
  refine List.forall_mem_map.2 ?_
  refine List.forall_mem_append.2 ⟨?_, ?_⟩
  · refine List.forall_mem_map.2 ?_
    intro _ _
    trivial
  · exact List.forall_mem_singleton.2 hholds

theorem faultless_result {i : Instruction}
    (hoperand : i.op?.any (·.takesAddress) = true → c.memory.Holds (i.operand 0).address) :
    Faultless (c.result i) := by
  have hload : ∀ {op : Opcode}, i.op? = some op → op.takesAddress = true →
      Faultless (c.load (i.operand 0).address) := by
    intro op hop haddress
    obtain ⟨w, hload⟩ := load_of_holds (hoperand (by rw [hop]; exact haddress))
    rw [hload]
    exact .ok
  unfold result divisionByZero
  simp only
  split
  all_goals
    rename_i hop
    first
      | exact .ok
      | exact hload hop rfl
      | exact (hload hop rfl).map _
      | exact .ite .problem ((hload hop rfl).map _)
      | exact .ite .problem .ok

theorem faultless_target {i : Instruction} (hpc : c.pc + 1 ≠ 0) : Faultless (c.target i) := by
  unfold target
  rw [if_neg hpc]
  exact .ite .ok .ok

theorem nextInput_signals (c : Core) (ticket : Option Ticket) (memorySize : Nat) :
    ∀ σ ∈ (c.nextInput ticket).signals, σ.Inside memorySize := by
  cases ticket with
  | none =>
    refine List.forall_mem_map.2 ?_
    intro _ _
    trivial
  | some ticket =>
    simp only [nextInput]
    split
    · exact List.forall_mem_nil _
    · exact List.forall_mem_nil _

end Core

namespace Execution

/-- What the execution reaches in memory lies inside, and the counter can be moved on. -/
structure Reaches (x : Execution) (c : Core) : Prop where
  word : ∀ {a old}, x.saved = .word a old → c.memory.Holds a
  operand : x.instruction.op?.any (·.takesAddress) = true →
    c.memory.Holds (x.instruction.operand 0).address
  input : x.instruction.reads = true → c.memory.Holds c.x.address
  counter : ∀ {old}, x.saved = .pc old → c.pc + 1 ≠ 0

/-- The answer is no fault, and the words that its signals tell of lie inside memory. -/
def SoundAt (memorySize : Nat) {α : Type} (r : Except Failure (Traced α)) : Prop :=
  Faultless r ∧ ∀ t, r = .ok t → ∀ σ ∈ t.signals, σ.Inside memorySize

theorem soundAt_ok {memorySize : Nat} {α : Type} {t : Traced α}
    (h : ∀ σ ∈ t.signals, σ.Inside memorySize) : SoundAt memorySize (.ok t) := by
  constructor
  · exact .ok
  · intro t' ht
    cases ht
    exact h

theorem soundAt_error {memorySize : Nat} {α β : Type} {r : Except Failure β} {failure : Failure}
    (h : Faultless r) (hr : r = .error failure) :
    SoundAt memorySize (.error failure : Except Failure (Traced α)) := by
  constructor
  · intro f hf
    cases hf
    exact h f hr
  · intro t ht
    cases ht

theorem inside_moved {memorySize : Nat} (pc : Address) :
    ∀ σ ∈ [Signal.pc pc], σ.Inside memorySize :=
  List.forall_mem_singleton.2 trivial

theorem soundAt_interrupt {c : Core} {operand : Word}
    (hinput : Service.ofOperand? operand = some .read → c.memory.Holds c.x.address)
    (index : Address) (ticket : Option Ticket) :
    SoundAt c.memory.size (c.interrupt index operand ticket) := by
  unfold Core.interrupt
  cases hservice : Service.ofOperand? operand with
  | none =>
    apply soundAt_ok
    exact List.forall_mem_cons.2 ⟨trivial, inside_moved _⟩
  | some service =>
    cases service with
    | write =>
      apply soundAt_ok
      refine List.forall_mem_append.2 ⟨?_, ?_⟩
      · refine List.forall_mem_map.2 ?_
        intro _ _
        trivial
      · exact inside_moved _
    | read =>
      obtain ⟨input, hcore⟩ := nextInput_core c ticket
      have hsignals := c.nextInput_signals ticket c.memory.size
      simp only
      split
      · rename_i hnext
        rw [hnext] at hsignals
        exact soundAt_ok hsignals
      · rename_i c' w sent hnext
        rw [hnext] at hsignals hcore
        simp only at hcore
        subst hcore
        have hholds : ({ c with input } : Core).memory.Holds c.x.address := hinput hservice
        obtain ⟨t, hstore, hinside⟩ := Core.store_of_holds hholds w
        simp only [hstore]
        apply soundAt_ok
        refine List.forall_mem_append.2 ⟨?_, ?_⟩
        · exact List.forall_mem_append.2 ⟨hsignals, hinside⟩
        · exact inside_moved _

theorem Reaches.perform {x : Execution} {c : Core} (h : x.Reaches c) (ticket : Option Ticket) :
    SoundAt c.memory.size (x.perform c ticket) := by
  unfold Execution.perform
  cases hsaved : x.saved with
  | nothing =>
    apply soundAt_ok
    exact inside_moved _
  | word a old =>
    obtain ⟨t, hstore, hinside⟩ := Core.store_of_holds (h.word hsaved) c.x
    simp only [hstore]
    apply soundAt_ok
    exact List.forall_mem_append.2 ⟨hinside, inside_moved _⟩
  | pc old =>
    have htarget := Core.faultless_target (i := x.instruction) (h.counter hsaved)
    simp only
    cases htaken : c.target x.instruction with
    | error failure => exact soundAt_error htarget htaken
    | ok pc =>
      apply soundAt_ok
      exact inside_moved _
  | x old =>
    simp only
    split
    · rename_i hop
      apply soundAt_interrupt
      intro hservice
      exact h.input (Instruction.reads_iff.2 ⟨hop, hservice⟩)
    · have hfaultless := Core.faultless_result h.operand
      cases hresult : c.result x.instruction with
      | error failure => exact soundAt_error hfaultless hresult
      | ok v =>
        apply soundAt_ok
        exact List.forall_mem_append.2 ⟨List.forall_mem_singleton.2 trivial, inside_moved _⟩

theorem soundAt_prepare {c : Core} {i : Instruction}
    (hoperand : i.op?.any (·.takesAddress) = true → c.memory.Holds (i.operand 0).address) :
    SoundAt c.memory.size (prepare c i) := by
  unfold prepare
  split
  case h_1 => exact soundAt_ok (List.forall_mem_singleton.2 trivial)
  case h_8 hop =>
    obtain ⟨w, hload⟩ := Core.load_of_holds (hoperand (by rw [hop]; rfl))
    simp only [hload]
    exact soundAt_ok (List.forall_mem_nil _)
  all_goals exact soundAt_ok (List.forall_mem_nil _)

/-- Taking back succeeds if the word that was noted can be put back. -/
theorem takeBack_of_holds {x : Execution} {c : Core}
    (hword : ∀ {a old}, x.saved = .word a old → c.memory.Holds a) :
    ∃ t, x.takeBack c = .ok t ∧ t.value.memory.size = c.memory.size ∧
      ∀ σ ∈ t.signals, σ.Inside c.memory.size := by
  unfold takeBack
  cases hsaved : x.saved with
  | nothing | pc old => exact ⟨_, rfl, rfl, inside_moved _⟩
  | x old =>
    refine ⟨_, rfl, rfl, ?_⟩
    exact List.forall_mem_append.2 ⟨inside_moved _, List.forall_mem_singleton.2 trivial⟩
  | word a old =>
    have hholds : c.retreat.value.memory.Holds a := hword hsaved
    obtain ⟨t, hstore, hinside⟩ := Core.store_of_holds hholds old
    have hsize : t.value.memory.size = c.memory.size := by
      simp only [Core.store] at hstore
      split at hstore
      · rename_i memory hwrite
        cases hstore
        exact Memory.size_write? hwrite
      · cases hstore
    simp only [hstore]
    refine ⟨_, rfl, hsize, ?_⟩
    exact List.forall_mem_append.2 ⟨inside_moved _, hinside⟩

end Execution

namespace Engine

variable {e : Engine}

theorem attempt_sound {x : Execution} (hx : x.Reaches e.core) (ticket : Option Ticket)
    {sent : List Signal} (hsent : ∀ σ ∈ sent, σ.Inside e.core.memory.size) :
    Faultless (e.attempt x ticket sent).answer ∧
      ∀ σ ∈ (e.attempt x ticket sent).signals, σ.Inside e.core.memory.size := by
  obtain ⟨hfaultless, hsignals⟩ := hx.perform ticket
  unfold attempt
  split
  · rename_i failure hperform
    constructor
    · intro f hf
      cases hf
      exact hfaultless f hperform
    · exact hsent
  · rename_i hperform
    exact ⟨.ok, List.forall_mem_append.2 ⟨hsent, hsignals _ hperform⟩⟩
  · rename_i hperform
    exact ⟨.ok, List.forall_mem_append.2 ⟨hsent, hsignals _ hperform⟩⟩

theorem rewind_sound (stop : Address → Bool) (core : Core) {past : List Execution}
    (hpast : ∀ x ∈ past, ∀ {a old}, x.saved = .word a old → core.memory.Holds a)
    {sent : Array Signal} (hsent : ∀ σ ∈ sent.toList, σ.Inside core.memory.size) :
    let r := rewind stop core past sent
    Faultless r.answer ∧ (∀ x ∈ r.state.past, x ∈ past) ∧ r.state.suspended = none ∧
      r.state.core.memory.size = core.memory.size ∧ ∀ σ ∈ r.signals, σ.Inside core.memory.size := by
  induction past generalizing core sent with
  | nil => exact ⟨.ok, fun _ hx => hx, rfl, rfl, hsent⟩
  | cons x past ih =>
    obtain ⟨⟨core', signals⟩, hback, hsize, hsignals⟩ :=
      Execution.takeBack_of_holds (hpast x List.mem_cons_self)
    have hsent' :
        ∀ σ ∈ (sent.push (.diagnostic (.undoing x.index x.instruction)) ++ signals).toList,
          σ.Inside core.memory.size := by
      simp only [Array.toList_appendList, Array.toList_push, List.append_assoc]
      refine List.forall_mem_append.2 ⟨?_, ?_⟩
      · exact hsent
      · exact List.forall_mem_append.2 ⟨List.forall_mem_singleton.2 trivial, hsignals⟩
    have holder : ∀ {y : Execution}, y ∈ past → y ∈ x :: past := List.mem_cons_of_mem x
    unfold rewind
    simp only [hback]
    split
    · exact ⟨.ok, fun y hy => holder hy, rfl, hsize, hsent'⟩
    · simp only at hsize
      have hrest := ih core' (fun y hy => by
        simp only [Memory.Holds, hsize]
        exact hpast y (holder hy)) (by rw [hsize]; exact hsent')
      rw [hsize] at hrest
      obtain ⟨hanswer, hpast', hidle, hsize', hsignals'⟩ := hrest
      exact ⟨hanswer, fun y hy => holder (hpast' y hy), hidle, hsize', hsignals'⟩

end Engine

namespace Machine

/-- Whatever the machine has kept that names an address names one inside memory. -/
structure Bounded (m : Machine) : Prop where
  program : ∀ p, m.program = some p → p.Bounded m.core.memory.size
  past : ∀ x ∈ m.past, ∀ {a old}, x.saved = .word a old → m.core.memory.Holds a
  parked : ∀ s, m.suspended = some s → s.execution.instruction.reads = true ∧
    (∃ old, s.execution.saved = .x old) ∧ m.core.memory.Holds m.core.x.address

/-- The reply is no fault, and the machine and the words signalled stay inside memory. -/
structure Sound {α : Type} (m : Machine) (r : Reply Machine α) : Prop where
  faultless : Faultless r.answer
  bounded : r.state.Bounded
  size : r.state.core.memory.size = m.core.memory.size
  signals : ∀ σ ∈ r.signals, σ.Inside m.core.memory.size

variable {m : Machine}

theorem Sound.same {α : Type} (h : m.Bounded) {answer : Except Failure α}
    (hanswer : Faultless answer) : Sound m ⟨m, answer, []⟩ :=
  ⟨hanswer, h, rfl, List.forall_mem_nil _⟩

theorem Sound.map {α β : Type} {r : Reply Machine α} (h : Sound m r) (g : α → β) :
    Sound m (r.map g) :=
  ⟨h.faultless.map g, h.bounded, h.size, h.signals⟩

theorem faultless_following {r : Reply Engine Completion} (h : Faultless r.answer) :
    Faultless (m.following r).answer := by
  intro f hf
  simp only [following] at hf
  cases hanswer : r.answer with
  | ok c =>
    rw [hanswer] at hf
    cases hf
  | error failure =>
    rw [hanswer] at hf
    cases failure with
    | problem p => cases hf
    | fault g => exact h g hanswer

namespace Bounded

/-- There is always another address behind that of an instruction. -/
theorem counter (h : m.Bounded) {i : Instruction} (hnext : m.next? = some i) :
    m.core.pc + 1 ≠ 0 := by
  obtain ⟨p, hprogram, hinstruction⟩ := Option.bind_eq_some_iff.1 hnext
  have hshort := (h.program p hprogram).short
  have hindex : m.core.pc.toNat < p.size := (Array.getElem?_eq_some_iff.1 hinstruction).1
  intro hzero
  have hwrap := congrArg UInt64.toNat hzero
  rw [UInt64.size] at hshort
  rw [UInt64.toNat_add, UInt64.toNat_one, UInt64.toNat_zero] at hwrap
  omega

theorem operand (h : m.Bounded) {i : Instruction} (hnext : m.next? = some i)
    (haddress : i.op?.any (·.takesAddress) = true) :
    m.core.memory.Holds (i.operand 0).address := by
  obtain ⟨p, hprogram, hinstruction⟩ := Option.bind_eq_some_iff.1 hnext
  exact (h.program p hprogram).operands hinstruction haddress

theorem holds_of_prepared {x : Execution} {c : Core} (hx : x.Prepared c) {a : Address} {old : Word}
    (hsaved : x.saved = .word a old) : c.memory.Holds a := by
  have hnoted := hx.noted
  rw [hsaved] at hnoted
  cases hnoted with
  | word _ _ hread => exact (Memory.read?_eq_some_iff.1 hread).1

theorem reaches_of_prepared (h : m.Bounded) {x : Execution} (hx : x.Prepared m.core)
    (hnext : m.next? = some x.instruction)
    (hinput : x.instruction.reads = true → m.core.memory.Holds m.core.x.address) :
    x.Reaches m.core :=
  ⟨holds_of_prepared hx, h.operand hnext, hinput, fun _ => h.counter hnext⟩

theorem reaches_of_parked (h : m.Bounded) {s : Suspended} (hwaits : m.suspended = some s) :
    s.execution.Reaches m.core := by
  obtain ⟨hreads, ⟨old, hsaved⟩, hholds⟩ := h.parked s hwaits
  obtain ⟨hop, -⟩ := Instruction.reads_iff.1 hreads
  constructor
  · intro a w hword
    simp [hsaved] at hword
  · intro haddress
    simp [hop, Opcode.takesAddress] at haddress
  · intro _
    exact hholds
  · intro pc hpc
    simp [hsaved] at hpc

theorem of_idle (h : m.Bounded) {m' : Machine} (hprogram : m'.program = m.program)
    (hsize : m'.core.memory.size = m.core.memory.size) (hidle : m'.suspended = none)
    (hpast : ∀ x ∈ m'.past, ∀ {a old}, x.saved = .word a old → m.core.memory.Holds a) :
    m'.Bounded where
  program p hp := by
    rw [hsize]
    exact h.program p (hprogram ▸ hp)
  past x hx a old hsaved := by
    rw [Memory.Holds, hsize]
    exact hpast x hx hsaved
  parked s hs := by
    rw [hidle] at hs
    cases hs

theorem state_step (h : m.Bounded)
    (hinput : ∀ i, m.next? = some i → i.reads = true → m.core.memory.Holds m.core.x.address) :
    m.step.state.Bounded ∧ m.step.state.core.memory.size = m.core.memory.size := by
  have hstepped := m.stepped_step
  generalize m.step.state = m' at hstepped
  cases hstepped with
  | unchanged => exact ⟨h, rfl⟩
  | @completed x core hidle hnext hprepared houtcome =>
    have hsize := houtcome.size_memory
    refine ⟨h.of_idle rfl hsize hidle ?_, hsize⟩
    intro y hy a old hsaved
    rcases List.mem_cons.1 hy with rfl | hy
    · exact holds_of_prepared hprepared hsaved
    · exact h.past y hy hsaved
  | @resumed s core hwaits houtcome =>
    have hsize := houtcome.size_memory
    obtain ⟨-, ⟨old, hx⟩, -⟩ := h.parked s hwaits
    refine ⟨h.of_idle rfl hsize rfl ?_, hsize⟩
    intro y hy a w hsaved
    rcases List.mem_cons.1 hy with rfl | hy
    · simp [hx] at hsaved
    · exact h.past y hy hsaved
  | @parked x input ticket notices _ hnext hprepared hreads _ =>
    refine ⟨⟨h.program, h.past, ?_⟩, rfl⟩
    intro s hs
    cases hs
    exact ⟨hreads, ⟨_, hprepared.saved_of_reads hreads⟩, hinput _ hnext hreads⟩

/-- A step is sound if no READ begins with an address outside memory. -/
theorem step (h : m.Bounded)
    (hinput : ∀ i, m.next? = some i → i.reads = true → m.core.memory.Holds m.core.x.address) :
    Sound m m.step := by
  obtain ⟨hbounded, hsize⟩ := h.state_step hinput
  suffices hanswer : Faultless m.step.answer ∧
      ∀ σ ∈ m.step.signals, σ.Inside m.core.memory.size from
    ⟨hanswer.1, hbounded, hsize, hanswer.2⟩
  unfold Machine.step
  split
  · exact ⟨.problem, List.forall_mem_nil _⟩
  · rename_i p hprogram
    split
    · rename_i hwaiting
      obtain ⟨s, hwaits⟩ := Option.isSome_iff_exists.1 hwaiting
      simp only [Engine.retry, hwaits]
      obtain ⟨hfaultless, hsignals⟩ := Engine.attempt_sound (h.reaches_of_parked hwaits)
        (some s.ticket) (List.forall_mem_nil _)
      exact ⟨faultless_following hfaultless, hsignals⟩
    · rename_i hidle
      split
      · exact ⟨.ok, List.forall_mem_nil _⟩
      · rename_i i hinstruction
        have hnext : m.next? = some i := by simp [next?, hprogram, hinstruction]
        obtain ⟨hfaultless, hsignals⟩ := Execution.soundAt_prepare (h.operand hnext)
        simp only [Engine.execute, if_neg hidle]
        cases hprepare : Execution.prepare m.core i with
        | error failure =>
          refine ⟨faultless_following ?_, List.forall_mem_nil _⟩
          intro f hf
          cases hf
          exact hfaultless f hprepare
        | ok t =>
          obtain ⟨hsame, hprepared⟩ := Execution.prepared_of_prepare hprepare
          have hreaches := h.reaches_of_prepared hprepared (by rw [hnext, hsame])
            fun hreads => hinput i hnext (by rw [← hsame]; exact hreads)
          have hsent : ∀ σ ∈ t.signals ++ [.diagnostic (.doing t.value.index i)],
              σ.Inside m.core.memory.size :=
            List.forall_mem_append.2 ⟨hsignals t hprepare, List.forall_mem_singleton.2 trivial⟩
          obtain ⟨hfaultless, hsignals⟩ := Engine.attempt_sound hreaches none hsent
          exact ⟨faultless_following hfaultless, hsignals⟩

theorem undo (h : m.Bounded) : Sound m m.undo := by
  unfold Machine.undo
  split
  · exact .same h .problem
  · split
    · exact .same h .problem
    · rename_i hwaiting
      split
      · exact .same h .ok
      · rename_i hempty
        have hidle : m.suspended = none := by simpa [Engine.isWaiting] using hwaiting
        obtain ⟨x, past, hpast⟩ := List.exists_cons_of_ne_nil (by simpa using hempty)
        have hword : ∀ {a old}, x.saved = .word a old → m.core.memory.Holds a :=
          h.past x (by rw [hpast]; exact List.mem_cons_self)
        obtain ⟨⟨core, signals⟩, hback, hsize, hsignals⟩ := Execution.takeBack_of_holds hword
        refine Sound.map ?_ _
        simp only [Engine.undo, hidle, hpast, hback]
        refine ⟨.ok, h.of_idle rfl hsize rfl ?_, hsize, ?_⟩
        · intro y hy a old hsaved
          have hold : y ∈ m.past := by
            rw [hpast]
            exact List.mem_cons_of_mem x hy
          exact h.past y hold hsaved
        · exact List.forall_mem_cons.2 ⟨trivial, hsignals⟩

theorem rewind (h : m.Bounded) (stop : Address → Bool) :
    Sound m ((Engine.rewind stop m.core m.past #[]).within ({ m with toEngine := · })) := by
  obtain ⟨hanswer, hpast, hidle, hsize, hsignals⟩ :=
    Engine.rewind_sound stop m.core h.past (List.forall_mem_nil _)
  refine ⟨hanswer, h.of_idle rfl hsize hidle ?_, hsize, hsignals⟩
  intro y hy a old hsaved
  exact h.past y (hpast y hy) hsaved

theorem undoStatement (h : m.Bounded) : Sound m m.undoStatement := by
  unfold Machine.undoStatement
  split
  · exact .same h .problem
  · split
    · exact .same h .problem
    · exact h.rewind _

theorem reset (h : m.Bounded) : Sound m m.reset := by
  unfold Machine.reset
  split
  · exact .same h .problem
  · exact h.rewind _

theorem access (h : m.Bounded) {a : Access}
    (ha : a = .clear ∨ ∃ way w, a = .send way w) : Sound m (m.access a) := by
  rcases ha with rfl | ⟨way, w, rfl⟩
  · have hsize : (m.access .clear).state.core.memory.size = m.core.memory.size :=
      Memory.size_cleared _
    refine ⟨.ok, ⟨?_, ?_, ?_⟩, hsize, List.forall_mem_singleton.2 trivial⟩
    · intro p hp
      rw [hsize]
      exact h.program p hp
    · intro x hx a old hsaved
      rw [Memory.Holds, hsize]
      exact h.past x hx hsaved
    · intro s hs
      rw [Memory.Holds, hsize]
      exact h.parked s hs
  · refine ⟨.ok, ?_, ?_, List.forall_mem_map.2 fun _ _ => trivial⟩
    · cases way <;> exact ⟨h.program, h.past, h.parked⟩
    · cases way <;> rfl

end Bounded

theorem bounded_ofSize (memorySize : Nat) : (ofSize memorySize).Bounded := by
  constructor
  · intro p hp
    cases hp
  · intro x hx
    cases hx
  · intro s hs
    cases hs

/-- A new machine takes any program that names no address outside its memory. -/
theorem load_sound {memorySize : Nat} {p : Program} (hp : p.Bounded memorySize) :
    Sound (ofSize memorySize) ((ofSize memorySize).load p) := by
  have hsize : ((ofSize memorySize).load p).state.core.memory.size = memorySize := by
    rw [show ((ofSize memorySize).load p).state.core.memory
      = (Memory.zeroed memorySize).withImage p.data.toList from rfl, Memory.size_withImage,
      Memory.size_zeroed]
  constructor
  case faultless => exact .ok
  case bounded =>
    constructor
    · intro q hq
      cases hq
      rw [hsize]
      exact hp
    · intro x hx
      cases hx
    · intro s hs
      cases hs
  case size => exact hsize.trans (Memory.size_zeroed _).symm
  case signals =>
    refine List.forall_mem_append.2 ⟨?_, ?_⟩
    · simp only [Core.putImage]
      split
      · exact List.forall_mem_singleton.2 trivial
      · exact List.forall_mem_nil _
    · exact List.forall_mem_cons.2 ⟨trivial, List.forall_mem_singleton.2 trivial⟩

end Machine

end Backstep
