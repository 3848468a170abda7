import Backstep.Proofs.Machine.Deeds
/-!
# Chronicles

A chronicle watches a machine from outside. Beside each execution of the past it keeps the core as
it stood just before that execution was prepared. The machine itself keeps far less: of SET one
word, of a branch the counter, of most instructions X. That this is enough is the invariant
`Faithful`: each execution was prepared in the core of its memo, and leaves the counter and X where
the next memo begins. It survives whatever comes from outside, because nothing outside touches the
registers or the history; what is written to memory from outside only ends the exactness of the
memos.
-/

namespace Backstep

/-- What is remembered of an execution. -/
structure Memo where
  /-- The core just before the execution was prepared. -/
  core : Core
  /-- Since then no READ stored a word, no program was loaded and nothing outside wrote to memory.
  -/
  undisturbed : Bool := true

def Memo.heeding (disturbed : Bool) (memo : Memo) : Memo :=
  { memo with undisturbed := memo.undisturbed && !disturbed }

@[simp] theorem Memo.core_heeding (disturbed : Bool) (memo : Memo) :
    (memo.heeding disturbed).core = memo.core := rfl

@[simp] theorem Memo.heeding_false : Memo.heeding false = id := by
  funext memo
  simp [heeding]

def Access.writesMemory : Access → Bool
  | .store _ _ | .image _ | .clear => true
  | _ => false

/-- Nothing from outside touches the registers. -/
theorem Core.registers_access (c : Core) (a : Access) :
    (c.access a).state.pc = c.pc ∧ (c.access a).state.x = c.x := by
  cases a with
  | store a w =>
    simp only [access, store]
    cases c.memory.write? a w <;> exact ⟨rfl, rfl⟩
  | image bytes | clear => exact ⟨rfl, rfl⟩
  | send way w | receive way | collect way t | take way | drain way =>
    cases way <;> exact ⟨rfl, rfl⟩

namespace Machine

/-- The deed writes to memory, and is neither an execution other than a READ nor its taking back. -/
def disturbs (m : Machine) : Deed → Bool
  | .load _ => !m.isWaiting
  | .step => m.completesRead
  | .takeBack => false
  | .access a => a.writesMemory

/-- The machine after its latest execution was taken back to a memo, with the rest of the past. -/
def backAt (m : Machine) (memo : Memo) (memory : Memory)
    (past : List Execution) : Machine :=
  { m with core := { m.core with pc := memo.core.pc, x := memo.core.x, memory }, past }

end Machine

structure Chronicle where
  machine : Machine
  /-- For each execution of the past, the latest first. -/
  memos : List Memo := []
  /-- For the execution that waits, if one does. -/
  parked : Option Memo := none

namespace Chronicle

/-- The chronicle with one more deed. An execution that completes has its memo from now or, if it
has waited, from when it began; one that is taken back loses it. -/
def after (r : Chronicle) (d : Deed) : Chronicle :=
  let machine := r.machine.after d
  let disturbed := r.machine.disturbs d
  let memos := r.memos.map (.heeding disturbed)
  let current := (r.parked.getD ⟨r.machine.core, true⟩).heeding disturbed
  if r.machine.past.length < machine.past.length then ⟨machine, current :: memos, none⟩
  else if machine.past.length < r.machine.past.length then ⟨machine, memos.drop 1, none⟩
  else ⟨machine, memos, if machine.isWaiting then some current else none⟩

/-- The chronicle of a new machine through operations, each given up after so many instructions. -/
def ofOperations (memory : Memory) (patience : Nat) (os : List Operation) : Chronicle :=
  os.foldl (fun r o => (r.machine.deeds patience o).foldl after r) { machine := .fresh memory }

@[simp] theorem machine_after (r : Chronicle) (d : Deed) :
    (r.after d).machine = r.machine.after d := by
  unfold after
  simp only
  split
  · rfl
  · split <;> rfl

theorem machine_foldl_after (r : Chronicle) (ds : List Deed) :
    (ds.foldl after r).machine = r.machine.afterDeeds ds := by
  induction ds generalizing r with
  | nil => rfl
  | cons d ds ih => rw [List.foldl_cons, ih, machine_after, Machine.afterDeeds_cons]

theorem machine_ofOperations (memory : Memory) (patience : Nat) (os : List Operation) :
    (ofOperations memory patience os).machine = (Machine.fresh memory).afterAll patience os := by
  unfold ofOperations Machine.afterAll
  generalize hr : ({ machine := .fresh memory } : Chronicle) = r
  have hmachine : r.machine = .fresh memory := by rw [← hr]
  rw [← hmachine]
  clear hr hmachine
  induction os generalizing r with
  | nil => rfl
  | cons o os ih =>
    rw [List.foldl_cons, List.foldl_cons, ih, machine_foldl_after, ← Machine.state_perform]

/-! ### The invariant -/

/-- Each execution was prepared in the core of its memo, and completed with the counter and X as the
memo after it has them, or as they are now for the latest one. The first began with both zero. -/
inductive Linked : (pc : Address) → (v : Word) → List Execution → List Memo → Prop
  | start : Linked 0 0 [] []
  | next {pc : Address} {v : Word} {x : Execution} {memo : Memo} {past : List Execution}
      {memos : List Memo} (hprepared : x.Prepared memo.core) (hleft : x.Left memo.core pc v)
      (hrest : Linked memo.core.pc memo.core.x past memos) :
      Linked pc v (x :: past) (memo :: memos)

/-- Putting back what was noted, the latest first, always succeeds, and arrives at the memory of
each memo that is undisturbed. -/
def Restores : Memory → List Execution → List Memo → Prop
  | m, x :: past, memo :: memos =>
    ∃ m', x.saved.restore? m = some m' ∧ (memo.undisturbed = true → m' = memo.core.memory) ∧
      Restores m' past memos
  | _, _, _ => True

/-- The execution that waits is a READ that has changed neither the counter nor X. -/
structure Parked (core : Core) (s : Suspended) (memo : Memo) : Prop where
  prepared : s.execution.Prepared memo.core
  reads : s.execution.instruction.reads = true
  pc : memo.core.pc = core.pc
  x : memo.core.x = core.x
  size : memo.core.memory.size = core.memory.size

/-- What the machine keeps agrees with the chronicle. -/
structure Faithful (r : Chronicle) : Prop where
  unprogrammed : r.machine.program = none → r.machine.past = [] ∧ r.machine.suspended = none
  linked : Linked r.machine.core.pc r.machine.core.x r.machine.past r.memos
  sizes : ∀ memo ∈ r.memos, memo.core.memory.size = r.machine.core.memory.size
  restores : Restores r.machine.core.memory r.machine.past r.memos
  idle : r.machine.suspended = none → r.parked = none
  parked : ∀ s, r.machine.suspended = some s →
    ∃ memo, r.parked = some memo ∧ Parked r.machine.core s memo

theorem Linked.length_eq {pc : Address} {v : Word} {past : List Execution} {memos : List Memo}
    (h : Linked pc v past memos) : memos.length = past.length := by
  induction h with
  | start => rfl
  | next _ _ _ ih => rw [List.length_cons, List.length_cons, ih]

theorem Linked.registers_start {pc : Address} {v : Word} {memos : List Memo}
    (h : Linked pc v [] memos) : pc = 0 ∧ v = 0 := by
  cases h with
  | start => exact ⟨rfl, rfl⟩

theorem Linked.latest {pc : Address} {v : Word} {x : Execution} {past : List Execution}
    {memos : List Memo} (h : Linked pc v (x :: past) memos) :
    ∃ memo older, memos = memo :: older ∧ x.Prepared memo.core ∧ x.Left memo.core pc v ∧
      Linked memo.core.pc memo.core.x past older := by
  cases h with
  | next hprepared hleft hrest => exact ⟨_, _, rfl, hprepared, hleft, hrest⟩

theorem Linked.heeding {pc : Address} {v : Word} {past : List Execution} {memos : List Memo}
    (h : Linked pc v past memos) (disturbed : Bool) :
    Linked pc v past (memos.map (.heeding disturbed)) := by
  induction h with
  | start => exact .start
  | next hprepared hleft _ ih => exact .next hprepared hleft ih

/-- No memo claims anything of a memory that was disturbed. -/
theorem Linked.restores_disturbed {pc : Address} {v : Word} {past : List Execution}
    {memos : List Memo} (h : Linked pc v past memos) {m : Memory}
    (hsizes : ∀ memo ∈ memos, memo.core.memory.size = m.size) :
    Restores m past (memos.map (.heeding true)) := by
  induction h generalizing m with
  | start => trivial
  | @next pc v x memo past memos hprepared hleft hrest ih =>
    obtain ⟨m', hrestore, hsize, -⟩ := hprepared.restore? (hsizes memo List.mem_cons_self).symm
    refine ⟨m', hrestore, by simp [Memo.heeding], ih ?_⟩
    intro memo hmemo
    rw [hsizes memo (List.mem_cons_of_mem _ hmemo), hsize]

theorem Linked.restores_heeding {pc : Address} {v : Word} {past : List Execution}
    {memos : List Memo} (h : Linked pc v past memos) {m : Memory} {disturbed : Bool}
    (hsizes : ∀ memo ∈ memos, memo.core.memory.size = m.size)
    (hrestores : disturbed = false → Restores m past memos) :
    Restores m past (memos.map (.heeding disturbed)) := by
  cases disturbed with
  | true => exact h.restores_disturbed hsizes
  | false => simpa using hrestores rfl

theorem sizes_heeding {memos : List Memo} {size : Nat} {disturbed : Bool}
    (hsizes : ∀ memo ∈ memos, memo.core.memory.size = size) :
    ∀ memo ∈ memos.map (Memo.heeding disturbed), memo.core.memory.size = size := by
  intro memo hmemo
  obtain ⟨old, hold, rfl⟩ := List.mem_map.1 hmemo
  exact hsizes old hold

/-! ### Every deed preserves it -/

/-- The memo of the execution that waits, or will wait or complete with the next step. -/
def current (r : Chronicle) : Memo := r.parked.getD ⟨r.machine.core, true⟩

theorem current_of_idle {r : Chronicle} (hr : r.Faithful) (hidle : r.machine.suspended = none) :
    r.current = ⟨r.machine.core, true⟩ := by
  rw [current, hr.idle hidle, Option.getD_none]

theorem parked_current {r : Chronicle} (hr : r.Faithful) {s : Suspended}
    (hwaits : r.machine.suspended = some s) : Parked r.machine.core s r.current := by
  obtain ⟨memo, hmemo, hparked⟩ := hr.parked s hwaits
  rw [current, hmemo, Option.getD_some]
  exact hparked

theorem Faithful.of_same_past {r : Chronicle} (hr : r.Faithful) {d : Deed} {m : Machine}
    (hafter : r.machine.after d = m) (hpast : m.past = r.machine.past)
    (hpc : m.core.pc = r.machine.core.pc) (hx : m.core.x = r.machine.core.x)
    (hsize : m.core.memory.size = r.machine.core.memory.size)
    (hmemory : r.machine.disturbs d = false → m.core.memory = r.machine.core.memory)
    (hprogram : m.program = none → m.past = [] ∧ m.suspended = none)
    (hparked : ∀ s, m.suspended = some s →
      Parked m.core s (r.current.heeding (r.machine.disturbs d))) : (r.after d).Faithful := by
  have hr' : r.after d = ⟨m, r.memos.map (.heeding (r.machine.disturbs d)),
      if m.isWaiting then some (r.current.heeding (r.machine.disturbs d)) else none⟩ := by
    unfold after
    simp only [hafter, hpast, Nat.lt_irrefl, if_false]
    rfl
  have hsizes : ∀ memo ∈ r.memos, memo.core.memory.size = m.core.memory.size := by
    rw [hsize]
    exact hr.sizes
  rw [hr']
  constructor
  · exact hprogram
  · simp only [hpast, hpc, hx]
    exact hr.linked.heeding _
  · exact sizes_heeding hsizes
  · simp only [hpast]
    apply hr.linked.restores_heeding hsizes
    intro hquiet
    rw [hmemory hquiet]
    exact hr.restores
  · intro hidle
    simp only at hidle
    simp only [Engine.isWaiting, hidle, Option.isSome_none, Bool.false_eq_true, if_false]
  · intro s hwaits
    simp only at hwaits
    refine ⟨_, ?_, hparked s hwaits⟩
    simp only [Engine.isWaiting, hwaits, Option.isSome_some, if_true]

theorem Faithful.of_completed {r : Chronicle} (hr : r.Faithful) {x : Execution} {core : Core}
    {ticket : Option Ticket} {m : Machine} (hafter : r.machine.step.state = m)
    (hcore : m.core = core) (hpast : m.past = x :: r.machine.past) (hidle : m.suspended = none)
    (hprogram : m.program ≠ none) (houtcome : x.Outcome ticket r.machine.core core)
    (hprepared : x.Prepared r.current.core) (hpc : r.current.core.pc = r.machine.core.pc)
    (hx : r.current.core.x = r.machine.core.x)
    (hsize : r.current.core.memory.size = r.machine.core.memory.size)
    (hwaited : x.instruction.reads = false → r.current.core = r.machine.core) :
    (r.after .step).Faithful := by
  have hdisturbs : r.machine.disturbs .step = x.instruction.reads := by
    simp [Machine.disturbs, Machine.completesRead, Machine.completes, hafter, hpast]
  have hr' : r.after .step = ⟨m, r.current.heeding x.instruction.reads ::
      r.memos.map (.heeding x.instruction.reads), none⟩ := by
    unfold after
    simp only [Machine.after, hafter, hdisturbs]
    rw [if_pos (by rw [hpast, List.length_cons]; exact Nat.lt_succ_self _)]
    rfl
  have hsizes : ∀ memo ∈ r.memos, memo.core.memory.size = core.memory.size := by
    rw [houtcome.size_memory]
    exact hr.sizes
  have hleft : x.Left r.current.core core.pc core.x := by
    have := houtcome.left
    unfold Execution.Left at this ⊢
    rw [hpc, hx]
    exact this
  rw [hr']
  constructor
  · intro hnone
    exact absurd hnone hprogram
  · simp only [hcore, hpast]
    refine .next hprepared hleft ?_
    simp only [Memo.core_heeding, hpc, hx]
    exact hr.linked.heeding _
  · intro memo hmemo
    rw [hcore]
    rcases List.mem_cons.1 hmemo with rfl | hmemo
    · rw [Memo.core_heeding, hsize, houtcome.size_memory]
    · exact sizes_heeding hsizes memo hmemo
  · simp only [hcore, hpast]
    cases hreads : x.instruction.reads with
    | true =>
      obtain ⟨m', hrestore, hsize', -⟩ := hprepared.restore? (m := core.memory) (by
        rw [houtcome.size_memory, hsize])
      refine ⟨m', hrestore, by simp [Memo.heeding], hr.linked.restores_disturbed ?_⟩
      intro memo hmemo
      rw [hsizes memo hmemo, hsize']
    | false =>
      have hsame := hwaited hreads
      rw [hsame] at hprepared
      refine ⟨r.machine.core.memory, houtcome.restore? hprepared hreads, ?_, ?_⟩
      · intro _
        rw [Memo.core_heeding, hsame]
      · simpa using hr.restores
  · exact fun _ => rfl
  · intro s hwaits
    simp only [hidle] at hwaits
    cases hwaits

theorem Parked.heeding {core : Core} {s : Suspended} {memo : Memo} (h : Parked core s memo)
    (disturbed : Bool) : Parked core s (memo.heeding disturbed) :=
  ⟨h.prepared, h.reads, h.pc, h.x, h.size⟩

theorem Faithful.of_unchanged {r : Chronicle} (hr : r.Faithful) {d : Deed}
    (hafter : r.machine.after d = r.machine) : (r.after d).Faithful :=
  hr.of_same_past hafter rfl rfl rfl rfl (fun _ => rfl) hr.unprogrammed
    fun _ hwaits => (parked_current hr hwaits).heeding _

theorem Faithful.after_step {r : Chronicle} (hr : r.Faithful) : (r.after .step).Faithful := by
  have hstepped := r.machine.stepped_step
  generalize hafter : r.machine.step.state = m at hstepped
  have hprogrammed : ∀ {i}, r.machine.next? = some i → r.machine.program ≠ none := by
    intro i hnext hprogram
    simp [Machine.next?, hprogram] at hnext
  cases hstepped with
  | unchanged => exact hr.of_unchanged hafter
  | completed hidle hnext hprepared houtcome =>
    have hcurrent := current_of_idle hr hidle
    refine hr.of_completed hafter rfl rfl hidle (hprogrammed hnext) houtcome ?_ ?_ ?_ ?_ ?_
    all_goals rw [hcurrent]
    · exact hprepared
    · exact fun _ => rfl
  | @resumed s core hwaits houtcome =>
    have hparked := parked_current hr hwaits
    have hprogram : r.machine.program ≠ none := by
      intro hnone
      simp [(hr.unprogrammed hnone).2] at hwaits
    apply hr.of_completed hafter rfl rfl rfl hprogram houtcome hparked.prepared hparked.pc
      hparked.x hparked.size
    intro hreads
    simp [hparked.reads] at hreads
  | @parked x input ticket notices hidle hnext hprepared hreads hinput =>
    apply hr.of_same_past (d := .step) hafter rfl rfl rfl rfl (fun _ => rfl)
      (fun hnone => absurd hnone (hprogrammed hnext))
    intro s hwaits
    cases hwaits
    rw [current_of_idle hr hidle]
    exact ⟨hprepared, hreads, rfl, rfl, rfl⟩

theorem Faithful.after_load {r : Chronicle} (hr : r.Faithful) (p : Program) :
    (r.after (.load p)).Faithful := by
  by_cases hwaiting : r.machine.isWaiting = true
  · apply hr.of_unchanged
    simp only [Machine.after, Machine.load, if_pos hwaiting]
    rfl
  · have hafter : r.machine.after (.load p)
        = { r.machine with
            core := (r.machine.core.putImage p.data.toList).value
            program := some p
            starts := p.startMap } := by
      simp only [Machine.after, Machine.load, if_neg hwaiting]
    have hidle : r.machine.suspended = none := by simpa [Engine.isWaiting] using hwaiting
    refine hr.of_same_past hafter rfl rfl rfl (Memory.size_withImage _ _) ?_ (by simp) ?_
    · simp [Machine.disturbs, hwaiting]
    · simp [hidle]

theorem Faithful.after_access {r : Chronicle} (hr : r.Faithful) (a : Access) :
    (r.after (.access a)).Faithful := by
  obtain ⟨hpc, hx⟩ := r.machine.core.registers_access a
  have hkept : (r.machine.core.access a).state.memory.size = r.machine.core.memory.size ∧
      (a.writesMemory = false →
        (r.machine.core.access a).state.memory = r.machine.core.memory) := by
    cases a with
    | store a w =>
      simp only [Core.access, Core.store]
      cases hwrite : r.machine.core.memory.write? a w with
      | none => exact ⟨rfl, fun _ => rfl⟩
      | some memory => exact ⟨Memory.size_write? hwrite, fun h => Bool.noConfusion h⟩
    | image bytes => exact ⟨Memory.size_withImage _ _, fun h => Bool.noConfusion h⟩
    | clear => exact ⟨Memory.size_cleared _, fun h => Bool.noConfusion h⟩
    | send way w | receive way | collect way t | take way | drain way =>
      cases way <;> exact ⟨rfl, fun _ => rfl⟩
  obtain ⟨hsize, hmemory⟩ := hkept
  apply hr.of_same_past (d := .access a) rfl rfl hpc hx hsize hmemory hr.unprogrammed
  intro s hwaits
  have hparked := parked_current hr hwaits
  exact ⟨hparked.prepared, hparked.reads, hparked.pc.trans hpc.symm, hparked.x.trans hx.symm,
    hparked.size.trans hsize.symm⟩

/-- What taking the latest execution back puts into memory. -/
structure Restored (x : Execution) (memo : Memo) (before after : Memory) : Prop where
  byte? : ∀ position, after.byte? position
    = if x.Overwrites position then memo.core.memory.byte? position else before.byte? position
  undisturbed : memo.undisturbed = true → after = memo.core.memory

/-- Taking an execution back leads to the counter and X of its memo, and to the older memos. -/
theorem Faithful.takeBack {r : Chronicle} (hr : r.Faithful) {x : Execution} {past : List Execution}
    (hidle : r.machine.suspended = none) (hpast : r.machine.past = x :: past) :
    ∃ memo memos memory, r.memos = memo :: memos ∧
      Restored x memo r.machine.core.memory memory ∧
      (∃ sent, x.takeBack r.machine.core = .ok ⟨(r.machine.backAt memo memory past).core, sent⟩) ∧
      Faithful ⟨r.machine.backAt memo memory past, memos, none⟩ := by
  have hlinked := hr.linked
  have hrestores := hr.restores
  have hsizes := hr.sizes
  rw [hpast] at hlinked hrestores
  obtain ⟨memo, memos, hmemos, hprepared, hleft, hrest⟩ := hlinked.latest
  rw [hmemos] at hrestores hsizes
  obtain ⟨memory, hrestore, hundisturbed, hrestores⟩ := hrestores
  obtain ⟨m', hm', hsize, hbyte⟩ := hprepared.restore? (hsizes memo List.mem_cons_self).symm
  cases hrestore.symm.trans hm'
  refine ⟨memo, memos, memory, hmemos, ⟨hbyte, hundisturbed⟩,
    Execution.takeBack_of_left hprepared hleft hrestore, ?_⟩
  constructor
  · intro hprogram
    simp [(hr.unprogrammed hprogram).1] at hpast
  · exact hrest
  · intro older holder
    simp only [Machine.backAt, hsize]
    exact hsizes older (List.mem_cons_of_mem _ holder)
  · exact hrestores
  · exact fun _ => rfl
  · intro s hwaits
    simp [Machine.backAt, hidle] at hwaits

theorem Faithful.after_takeBack {r : Chronicle} (hr : r.Faithful) :
    (r.after .takeBack).Faithful := by
  rcases r.machine.takenBack_cases with hsame | ⟨x, past, core, sent, hidle, hpast, hback, hafter⟩
  · exact hr.of_unchanged hsame
  · obtain ⟨memo, memos, memory, hmemos, -, ⟨sent', hback'⟩, hr'⟩ := hr.takeBack hidle hpast
    rw [hback] at hback'
    cases hback'
    have hr'' : r.after .takeBack = ⟨r.machine.backAt memo memory past, memos, none⟩ := by
      unfold Chronicle.after
      simp only [Machine.after, hafter, Machine.disturbs, hmemos]
      rw [if_neg (by simp [hpast]), if_pos (by simp [hpast])]
      simp [Machine.backAt]
    rw [hr'']
    exact hr'

theorem Faithful.after {r : Chronicle} (hr : r.Faithful) (d : Deed) : (r.after d).Faithful := by
  cases d with
  | load p => exact hr.after_load p
  | step => exact hr.after_step
  | takeBack => exact hr.after_takeBack
  | access a => exact hr.after_access a

theorem faithful_ofOperations (memory : Memory) (patience : Nat) (os : List Operation) :
    (ofOperations memory patience os).Faithful := by
  have hstart : Faithful { machine := .fresh memory } := by
    refine ⟨fun _ => ⟨rfl, rfl⟩, .start, List.forall_mem_nil _, trivial, fun _ => rfl, ?_⟩
    intro s hwaits
    cases hwaits
  refine List.foldlRecOn (motive := Faithful) _ _ hstart fun r hr o _ => ?_
  exact List.foldlRecOn (motive := Faithful) _ _ hr fun _ h d _ => h.after d

end Chronicle

end Backstep
