import Backstep.Proofs.Machine.Chronicle
/-!
# Undoing many instructions

Undoing goes through the past the latest first. Each time the registers come back as the memo of the
undone execution has them, and the bytes that it overwrote come back as they were when it was
prepared. An earlier execution over the same bytes, undone later, has the last word on them. After
any operations at all, `Undone` is what holds once so many executions are undone, and `reset` is the
case of all of them.
-/

namespace Backstep

/-- The machine after so many instructions are undone one by one, if each undo has an answer. -/
def Machine.undoTimes (m : Machine) : Nat → Except Failure Machine
  | 0 => .ok m
  | k + 1 =>
    match m.undo.answer with
    | .ok () => m.undo.state.undoTimes k
    | .error failure => .error failure

/-- An undo takes the latest execution back. -/
theorem Machine.undo_of_takeBack {m : Machine} {x : Execution} {past : List Execution} {core : Core}
    {sent : List Signal} (hprogram : m.program.isNone = false) (hidle : m.suspended = none)
    (hpast : m.past = x :: past) (hback : x.takeBack m.core = .ok ⟨core, sent⟩) :
    m.undo.answer = .ok () ∧ m.undo.state = { m with core, past } := by
  have hundo : m.undo = (m.toEngine.undo.within ({ m with toEngine := · })).map fun _ => () := by
    unfold Machine.undo
    rw [if_neg (by simp [hprogram]), if_neg (by simp [Engine.isWaiting, hidle]),
      if_neg (by simp [hpast])]
  rw [hundo]
  constructor
  · simp only [Reply.map, Reply.within, Engine.undo, hidle, hpast, hback]
    rfl
  · simp only [Reply.map, Reply.within, Engine.undo, hidle, hpast, hback]

namespace Chronicle

/-- The machine is the one of the chronicle with the latest `k` executions undone. In a past the
latest execution has the index zero, so an execution of a greater index is an earlier one. -/
structure Undone (r : Chronicle) (k : Nat) (m : Machine) : Prop where
  nothing : k = 0 → m = r.machine
  /-- The registers are those in which the earliest undone execution was prepared. -/
  registers : ∀ {i memo}, k = i + 1 → r.memos[i]? = some memo →
    m.core.pc = memo.core.pc ∧ m.core.x = memo.core.x
  /-- A byte that undone executions overwrote is as it was before the earliest of these. -/
  overwritten : ∀ {i x memo position}, i < k → r.machine.past[i]? = some x →
    r.memos[i]? = some memo → x.Overwrites position →
    (∀ j y, i < j → j < k → r.machine.past[j]? = some y → ¬ y.Overwrites position) →
    m.core.memory.byte? position = memo.core.memory.byte? position
  /-- A byte that no undone execution overwrote is as it was before the undoing. -/
  kept : ∀ {position}, (∀ i x, i < k → r.machine.past[i]? = some x → ¬ x.Overwrites position) →
    m.core.memory.byte? position = r.machine.core.memory.byte? position
  /-- Memory as a whole is as it was, if nothing but other executions has written to it since. -/
  undisturbed : ∀ {i memo}, k = i + 1 → r.memos[i]? = some memo → memo.undisturbed = true →
    m.core.memory = memo.core.memory
  /-- The channels, the older executions and the program are as they were before the undoing. -/
  rest : m = { r.machine with
    core := { r.machine.core with pc := m.core.pc, x := m.core.x, memory := m.core.memory }
    past := r.machine.past.drop k }

theorem undone_zero (r : Chronicle) : r.Undone 0 r.machine where
  nothing _ := rfl
  registers hk := absurd hk.symm (Nat.succ_ne_zero _)
  overwritten hi := absurd hi (Nat.not_lt_zero _)
  kept _ := rfl
  undisturbed hk := absurd hk.symm (Nat.succ_ne_zero _)
  rest := rfl

theorem Undone.succ {r : Chronicle} {x : Execution} {past : List Execution} {memo : Memo}
    {memos : List Memo} {memory : Memory} {k : Nat} {m : Machine}
    (hpast : r.machine.past = x :: past) (hmemos : r.memos = memo :: memos)
    (hrestored : Restored x memo r.machine.core.memory memory)
    (h : Undone ⟨r.machine.backAt memo memory past, memos, none⟩ k m) : r.Undone (k + 1) m where
  nothing hk := absurd hk (Nat.succ_ne_zero k)
  registers {i memo'} hk hmemo := by
    cases hk
    cases k with
    | zero =>
      rw [hmemos] at hmemo
      cases hmemo
      rw [h.nothing rfl]
      exact ⟨rfl, rfl⟩
    | succ k =>
      rw [hmemos, List.getElem?_cons_succ] at hmemo
      exact h.registers rfl hmemo
  overwritten {i y memo' position} hi hy hmemo hoverwrites hearliest := by
    rw [hpast] at hy hearliest
    rw [hmemos] at hmemo
    cases i with
    | zero =>
      cases hy
      cases hmemo
      rw [h.kept fun j y hj hy => hearliest (j + 1) y (Nat.succ_pos j) (by omega) hy]
      simp only [Machine.backAt, hrestored.byte?, if_pos hoverwrites]
    | succ i =>
      apply h.overwritten (Nat.lt_of_succ_lt_succ hi) hy hmemo hoverwrites
      intro j z hij hj hz
      exact hearliest (j + 1) z (Nat.succ_lt_succ hij) (Nat.succ_lt_succ hj) hz
  kept {position} huntouched := by
    rw [hpast] at huntouched
    rw [h.kept fun i y hi hy => huntouched (i + 1) y (by omega) hy]
    simp only [Machine.backAt, hrestored.byte?, if_neg (huntouched 0 x (Nat.succ_pos k) rfl)]
  undisturbed {i memo'} hk hmemo hundisturbed := by
    cases hk
    rw [hmemos] at hmemo
    cases k with
    | zero =>
      cases hmemo
      rw [h.nothing rfl]
      exact hrestored.undisturbed hundisturbed
    | succ k => exact h.undisturbed rfl hmemo hundisturbed
  rest := by
    have hrest := h.rest
    rw [hpast, List.drop_succ_cons]
    exact hrest

theorem Faithful.undo {r : Chronicle} (hr : r.Faithful) {x : Execution} {past : List Execution}
    (hidle : r.machine.suspended = none) (hpast : r.machine.past = x :: past) {core : Core}
    {sent : List Signal} (hback : x.takeBack r.machine.core = .ok ⟨core, sent⟩) :
    r.machine.undo.answer = .ok () ∧ r.machine.undo.state = { r.machine with core, past } := by
  apply Machine.undo_of_takeBack _ hidle hpast hback
  cases hnone : r.machine.program with
  | none => simp [(hr.unprogrammed hnone).1] at hpast
  | some p => rfl

theorem Faithful.undoTimes {r : Chronicle} (hr : r.Faithful) (hidle : r.machine.suspended = none)
    {k : Nat} (hk : k ≤ r.machine.past.length) :
    ∃ m, r.machine.undoTimes k = .ok m ∧ r.Undone k m := by
  induction k generalizing r with
  | zero => exact ⟨_, rfl, r.undone_zero⟩
  | succ k ih =>
    obtain ⟨x, past, hpast⟩ := List.exists_cons_of_length_pos (Nat.lt_of_lt_of_le k.succ_pos hk)
    obtain ⟨memo, memos, memory, hmemos, hrestored, ⟨sent, hback⟩, hr'⟩ := hr.takeBack hidle hpast
    obtain ⟨hanswer, hstate⟩ := hr.undo hidle hpast hback
    obtain ⟨m, htimes, hundone⟩ := ih hr' hidle (by
      rw [hpast] at hk
      exact Nat.le_of_succ_le_succ hk)
    refine ⟨m, ?_, hundone.succ hpast hmemos hrestored⟩
    simp only [Machine.undoTimes, hanswer, hstate]
    exact htimes

/-- A rewind that nothing stops undoes the whole past, back to both registers zero. -/
theorem Faithful.rewind {r : Chronicle} (hr : r.Faithful) (hidle : r.machine.suspended = none)
    (sent : Array Signal) :
    ∃ core signals, Engine.rewind (fun _ => false) r.machine.core r.machine.past sent
        = ⟨⟨core, [], none⟩, .ok (), signals⟩ ∧ core.pc = 0 ∧ core.x = 0 ∧
      r.machine.undoTimes r.machine.past.length = .ok { r.machine with core, past := [] } := by
  generalize hpast : r.machine.past = past
  induction past generalizing r sent with
  | nil =>
    have hlinked := hr.linked
    rw [hpast] at hlinked
    have hsame : ({ r.machine with past := [] } : Machine) = r.machine := by rw [← hpast]
    obtain ⟨hpc, hx⟩ := hlinked.registers_start
    exact ⟨r.machine.core, sent.toList, rfl, hpc, hx, congrArg Except.ok hsame.symm⟩
  | cons x past ih =>
    obtain ⟨memo, memos, memory, -, -, ⟨signals, hback⟩, hr'⟩ := hr.takeBack hidle hpast
    obtain ⟨hanswer, hstate⟩ := hr.undo hidle hpast hback
    obtain ⟨core, signals', hrewind, hpc, hx, htimes⟩ := ih hr' hidle
      (sent.push (.diagnostic (.undoing x.index x.instruction)) ++ signals) rfl
    refine ⟨core, signals', ?_, hpc, hx, ?_⟩
    · simp only [Engine.rewind, hback, Bool.false_eq_true, if_false]
      exact hrewind
    · simp only [List.length_cons, Machine.undoTimes, hanswer, hstate]
      exact htimes

theorem Faithful.reset {r : Chronicle} (hr : r.Faithful) (hidle : r.machine.suspended = none) :
    r.machine.reset.answer = .ok () ∧ r.machine.reset.state.core.pc = 0 ∧
      r.machine.reset.state.core.x = 0 ∧ r.machine.reset.state.past = [] ∧
      r.machine.undoTimes r.machine.past.length = .ok r.machine.reset.state := by
  obtain ⟨core, signals, hrewind, hpc, hx, htimes⟩ := hr.rewind hidle #[]
  have hreset : r.machine.reset = ⟨{ r.machine with core, past := [] }, .ok (), signals⟩ := by
    unfold Machine.reset
    rw [if_neg (by simp [Engine.isWaiting, hidle]), hrewind, ← hidle]
    rfl
  rw [hreset]
  exact ⟨rfl, hpc, hx, rfl, htimes⟩

/-- After any operations, refused and failed ones among them, a machine that does not wait undoes as
many of its executions as it is asked to, exactly. A reset undoes all of them. -/
theorem undo_restores (memorySize patience : Nat) (os : List Operation) (r : Chronicle)
    (hr : r = ofOperations (.zeroed memorySize) patience os) (hidle : r.machine.isWaiting = false) :
    r.machine = (Machine.ofSize memorySize).afterAll patience os ∧
      r.memos.length = r.machine.past.length ∧
      (∀ k ≤ r.machine.past.length, ∃ m, r.machine.undoTimes k = .ok m ∧ r.Undone k m) ∧
      r.machine.reset.answer = .ok () ∧ r.machine.reset.state.core.pc = 0 ∧
      r.machine.reset.state.core.x = 0 ∧ r.machine.reset.state.past = [] ∧
      r.machine.undoTimes r.machine.past.length = .ok r.machine.reset.state := by
  have hfaithful : r.Faithful := hr ▸ faithful_ofOperations _ patience os
  have hidle : r.machine.suspended = none := by simpa [Engine.isWaiting] using hidle
  refine ⟨hr ▸ machine_ofOperations _ patience os, hfaithful.linked.length_eq,
    fun k hk => hfaithful.undoTimes hidle hk, hfaithful.reset hidle⟩

/-- Two SETs over common bytes and a jump back to the first, with a store from outside between. -/
def overlapping : List Operation :=
  [.load (.eachAlone [⟨4, [-1]⟩, ⟨2, [8]⟩, ⟨106, [3]⟩, ⟨2, [12]⟩, ⟨200, [1]⟩]), .run .instruction,
    .run .instruction, .run .statement, .access (.store 10 77), .run .instruction,
    .run .instruction, .run .instruction, .undo, .run .instruction]

theorem undo_restores_overlapping :
    (ofOperations (.zeroed 24) 9 overlapping).machine.isWaiting = false ∧
      (ofOperations (.zeroed 24) 9 overlapping).machine.past.length = 6 ∧
      ∃ m, (ofOperations (.zeroed 24) 9 overlapping).machine.undoTimes 5 = .ok m ∧
        (ofOperations (.zeroed 24) 9 overlapping).Undone 5 m :=
  have hidle : (ofOperations (.zeroed 24) 9 overlapping).machine.isWaiting = false := by
    decide +kernel
  have hlength : (ofOperations (.zeroed 24) 9 overlapping).machine.past.length = 6 := by
    decide +kernel
  ⟨hidle, hlength, (undo_restores 24 9 overlapping _ rfl hidle).2.2.1 5 (by rw [hlength]; decide)⟩

end Chronicle

end Backstep
