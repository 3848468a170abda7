import Backstep.Proofs.Machine.Event
/-!
# Where statements start

A program lists the indices at which its statements start, in any order and as often as it likes,
and perhaps some that lie behind its last instruction. A machine looks them up in a map with an
entry for each instruction, which is made when the program is loaded. That the two say the same is
kept by everything that happens to a machine, because only a load that is not refused changes the
program or the map, and it changes both. Runs and undoing stop by the map, and so by the list.
-/

namespace Backstep

namespace Program

theorem getElem?_foldl_setIfInBounds (starts : List Nat) (map : Array Bool) (i : Nat) :
    (starts.foldl (fun map index => map.setIfInBounds index true) map)[i]?
      = map[i]?.map (· || starts.contains i) := by
  induction starts generalizing map with
  | nil => simp
  | cons k starts ih =>
    rw [List.foldl_cons, ih, List.contains_cons, Array.getElem?_setIfInBounds]
    by_cases hk : k = i
    · subst hk
      by_cases hlt : k < map.size
      · simp [hlt]
      · simp [hlt]
    · have hne : (i == k) = false := by simpa using Ne.symm hk
      simp [hk, hne]

/-- The map has an entry for each instruction, and whatever the list says of other indices is left
out. -/
theorem getElem?_startMap (p : Program) (i : Nat) :
    p.startMap[i]? = if i < p.size then some (p.startsAt i) else none := by
  rw [startMap, ← Array.foldl_toList, getElem?_foldl_setIfInBounds, Array.getElem?_replicate,
    startsAt]
  split
  · simp
  · rfl

end Program

namespace Machine

variable {m : Machine} {p : Program}

/-! ### The program and its map -/

/-- The map of the machine is the one of its program, and empty if it has none. -/
def Mapped (m : Machine) : Prop := m.starts = m.program.elim #[] Program.startMap

theorem Mapped.startsAt_eq (h : m.Mapped) (i : Nat) :
    m.startsAt i = m.program.any fun p => decide (i < p.size) && p.startsAt i := by
  rw [startsAt, h]
  cases m.program with
  | none => rfl
  | some p =>
    rw [Option.elim_some, p.getElem?_startMap, Option.any_some]
    split
    · rename_i hlt
      simp [hlt]
    · rename_i hlt
      simp [hlt]

/-- Only a load changes the program or the map. -/
theorem same_after {d : Deed} (hd : ∀ p, d ≠ .load p) :
    (m.after d).program = m.program ∧ (m.after d).starts = m.starts := by
  cases d with
  | load p => exact absurd rfl (hd p)
  | step =>
    have hstepped := m.stepped_step
    rw [after]
    generalize m.step.state = m' at hstepped
    cases hstepped with
    | unchanged | completed | resumed | parked => exact ⟨rfl, rfl⟩
  | takeBack => exact ⟨rfl, rfl⟩
  | access a => exact ⟨rfl, rfl⟩

theorem same_afterDeeds {ds : List Deed} (hds : ∀ d ∈ ds, ∀ p, d ≠ .load p) :
    (m.afterDeeds ds).program = m.program ∧ (m.afterDeeds ds).starts = m.starts := by
  induction ds generalizing m with
  | nil => exact ⟨rfl, rfl⟩
  | cons d ds ih =>
    obtain ⟨hd, hds⟩ := List.forall_mem_cons.1 hds
    obtain ⟨hprogram, hstarts⟩ := same_after (m := m) hd
    obtain ⟨hprogram', hstarts'⟩ := ih (m := m.after d) hds
    exact ⟨hprogram'.trans hprogram, hstarts'.trans hstarts⟩

theorem same_perform (patience : Nat) {o : Operation} (ho : ∀ p, o ≠ .load p) :
    (m.perform patience o).state.program = m.program ∧
      (m.perform patience o).state.starts = m.starts := by
  rw [state_perform]
  refine same_afterDeeds fun d hd p hload => ?_
  have hdeed := mem_deeds hd
  subst hload
  cases o with
  | load q => exact ho q rfl
  | run | undo | undoStatement | reset | access => cases hdeed

theorem load_of_waiting (hwaiting : m.isWaiting = true) (p : Program) :
    (m.load p).answer.isOk = false ∧ (m.load p).state = m := by
  rw [load, if_pos hwaiting]
  exact ⟨rfl, rfl⟩

theorem load_of_idle (hidle : m.isWaiting = false) (p : Program) :
    (m.load p).answer.isOk = true ∧ (m.load p).state.program = some p ∧
      (m.load p).state.starts = p.startMap := by
  rw [load, if_neg (by simp [hidle])]
  exact ⟨rfl, rfl, rfl⟩

theorem isOk_load (m : Machine) (p : Program) : (m.load p).answer.isOk = !m.isWaiting := by
  cases hwaiting : m.isWaiting with
  | true => exact (load_of_waiting hwaiting p).1
  | false => exact (load_of_idle hwaiting p).1

theorem Mapped.perform (h : m.Mapped) (patience : Nat) (o : Operation) :
    (m.perform patience o).state.Mapped := by
  by_cases hload : ∃ p, o = .load p
  · obtain ⟨p, rfl⟩ := hload
    show (m.load p).state.Mapped
    cases hwaiting : m.isWaiting with
    | true =>
      rw [(load_of_waiting hwaiting p).2]
      exact h
    | false =>
      obtain ⟨-, hprogram, hstarts⟩ := load_of_idle hwaiting p
      rw [Mapped, hprogram, hstarts, Option.elim_some]
  · obtain ⟨hprogram, hstarts⟩ := same_perform (m := m) patience
      fun p ho => hload ⟨p, ho⟩
    rw [Mapped, hprogram, hstarts]
    exact h

theorem mapped_afterAll (memory : Memory) (patience : Nat) (os : List Operation) :
    ((fresh memory).afterAll patience os).Mapped :=
  List.foldlRecOn (motive := Mapped) _ _ rfl fun _ h o _ => h.perform patience o

/-- The program that an operation loads, unless it is refused. -/
def loaded? (m : Machine) : Operation → Option Program
  | .load p => if (m.load p).answer.isOk then some p else none
  | _ => none

/-- The program of the latest load that is not refused. -/
def latestLoaded? (m : Machine) (patience : Nat) : List Operation → Option Program
  | [] => none
  | o :: os => ((m.perform patience o).state.latestLoaded? patience os).or (m.loaded? o)

theorem program_perform (m : Machine) (patience : Nat) (o : Operation) :
    (m.perform patience o).state.program = (m.loaded? o).or m.program := by
  by_cases hload : ∃ p, o = .load p
  · obtain ⟨p, rfl⟩ := hload
    show (m.load p).state.program = _
    cases hwaiting : m.isWaiting with
    | true =>
      obtain ⟨hrefused, hstate⟩ := load_of_waiting hwaiting p
      simp [loaded?, hrefused, hstate]
    | false =>
      obtain ⟨haccepted, hprogram, -⟩ := load_of_idle hwaiting p
      simp [loaded?, haccepted, hprogram]
  · have hnone : m.loaded? o = none := by
      cases o with
      | load p => exact absurd ⟨p, rfl⟩ hload
      | run | undo | undoStatement | reset | access => rfl
    rw [(same_perform patience fun p ho => hload ⟨p, ho⟩).1, hnone, Option.none_or]

theorem program_afterAll (m : Machine) (patience : Nat) (os : List Operation) :
    (m.afterAll patience os).program = (m.latestLoaded? patience os).or m.program := by
  induction os generalizing m with
  | nil => rfl
  | cons o os ih =>
    rw [latestLoaded?, Option.or_assoc, ← program_perform]
    exact ih _

/-! ### Where runs and undoing stop -/

theorem same_stepped (m : Machine) (k : Nat) :
    (m.stepped k).program = m.program ∧ (m.stepped k).starts = m.starts := by
  induction k with
  | zero => exact ⟨rfl, rfl⟩
  | succ k ih =>
    obtain ⟨hprogram, hstarts⟩ := same_after (m := m.stepped k) (d := .step) nofun
    exact ⟨hprogram.trans ih.1, hstarts.trans ih.2⟩

theorem startsAt_stepped (m : Machine) (k i : Nat) : (m.stepped k).startsAt i = m.startsAt i := by
  rw [startsAt, (m.same_stepped k).2, startsAt]

/-- The reply comes after so many steps. None but the last of them comes to a mark, and the reply is
that the machine has stopped exactly if each of them completes an instruction and the last one comes
to a mark. -/
structure RunsTo (marked : Nat → Prop) (m : Machine) (n : Nat) (r : Reply Machine Event) :
    Prop where
  begun : 0 < n
  state : r.state = m.stepped n
  within : ∀ j, 0 < j → j < n → ¬ marked (m.stepped j).pc.toNat
  stopped : r.answer = .ok .stopped ↔
    (∀ j < n, (m.stepped j).completes = true) ∧ marked r.state.pc.toNat

theorem answer_of_completes (hcompletes : m.completes = true) :
    m.step.answer = .ok (if m.step.state.isDone then .ended else .stopped) := by
  have hreplied := m.replied_step
  rw [completes, decide_eq_true_eq] at hcompletes
  generalize m.step = r at hcompletes hreplied
  cases hreplied with
  | completed => rfl
  | unprogrammed | ended | unprepared | failed | waits => exact absurd hcompletes (Nat.lt_irrefl _)

/-- The end of a program is not the start of a statement. -/
theorem Mapped.going_of_startsAt (h : m.Mapped) (hstart : m.startsAt m.pc.toNat = true) :
    m.isDone = false := by
  rw [h.startsAt_eq] at hstart
  rw [isDone]
  cases hprogram : m.program with
  | none => rfl
  | some p =>
    rw [hprogram, Option.any_some, Bool.and_eq_true, decide_eq_true_eq] at hstart
    rw [Option.any_some, decide_eq_false_iff_not]
    exact Nat.not_le.2 hstart.1

theorem Mapped.stepped (h : m.Mapped) (k : Nat) : (m.stepped k).Mapped := by
  obtain ⟨hprogram, hstarts⟩ := m.same_stepped k
  rw [Mapped, hprogram, hstarts]
  exact h

/-- A step that comes to the start of a statement stops there if it completes anything. -/
theorem Mapped.stopped_iff (h : m.Mapped)
    (hstart : m.step.state.startsAt m.step.state.pc.toNat = true) :
    m.step.answer = .ok .stopped ↔ m.completes = true := by
  refine ⟨completes_of_stopped, fun hcompletes => ?_⟩
  have hgoing : m.step.state.isDone = false := (h.stepped 1).going_of_startsAt hstart
  rw [answer_of_completes hcompletes, hgoing]
  rfl

theorem Mapped.runsTo (h : m.Mapped) (patience : Nat) :
    ∃ n, m.RunsTo (m.startsAt · = true) n (m.run .statement patience) := by
  obtain ⟨k, htaken, hlast, hrun⟩ := m.run_last .statement patience
  have htakes : k < m.stepsTaken .statement (patience + 1) := htaken ▸ Nat.lt_succ_self k
  obtain ⟨-, hbefore⟩ := lt_stepsTaken_iff.1 htakes
  have hcompleted : ∀ j < k, (m.stepped j).completes = true :=
    fun j hj => completes_of_stopped (hbefore j hj).1
  have hbetween : ∀ j, 0 < j → j < k + 1 → ¬ m.startsAt (m.stepped j).pc.toNat = true := by
    intro j hpositive hj
    rw [← startsAt_stepped m j, between_of_goesOn hbefore j hpositive (Nat.le_of_lt_succ hj)]
    exact Bool.false_ne_true
  refine ⟨k + 1, ?_⟩
  rw [hrun]
  by_cases hgoesOn : (m.stepped k).GoesOn .statement
  · -- The run was given up where no statement starts.
    have hover : patience - k = 0 := hlast.resolve_right fun hstops => hstops hgoesOn
    have hnone : (m.stepped (k + 1)).startsAt (m.stepped (k + 1)).pc.toNat = false := hgoesOn.2
    rw [hover, runOn_of_goesOn hgoesOn]
    refine ⟨Nat.succ_pos k, rfl, hbetween, iff_of_false nofun ?_⟩
    rintro ⟨-, hmarked⟩
    rw [startsAt_stepped] at hnone
    cases hmarked.symm.trans hnone
  · rw [runOn_of_not_goesOn hgoesOn]
    refine ⟨Nat.succ_pos k, rfl, hbetween, ?_⟩
    rw [Nat.forall_lt_succ_right, ← startsAt_stepped m (k + 1)]
    constructor
    · intro hstopped
      refine ⟨⟨hcompleted, completes_of_stopped hstopped⟩, ?_⟩
      exact eq_true_of_ne_false fun hgoes => hgoesOn ⟨hstopped, hgoes⟩
    · rintro ⟨⟨-, hcompletes⟩, hstart⟩
      exact ((h.stepped k).stopped_iff hstart).2 hcompletes

/-- So many instructions were undone, from the one machine to the other: back to a mark or as far as
there is anything to undo, and over no mark in between. -/
structure UndoesTo (marked : Nat → Prop) (m : Machine) (n : Nat) (m' : Machine) : Prop where
  begun : m.past ≠ [] → 0 < n
  undone : m.undoTimes n = .ok m'
  within : ∀ j d, 0 < j → j < n → m.undoTimes j = .ok d → ¬ marked d.pc.toNat
  stopped : marked m'.pc.toNat ∨ m'.past = []

end Machine

namespace Chronicle

/-- A rewind to the start of a statement undoes one instruction after the other, by induction on the
past. -/
theorem Faithful.rewindStatement {r : Chronicle} (hr : r.Faithful)
    (hidle : r.machine.suspended = none) (sent : Array Signal) :
    ∃ n core past signals,
      Engine.rewind (fun pc => r.machine.startsAt pc.toNat) r.machine.core r.machine.past sent
        = ⟨⟨core, past, none⟩, .ok (), signals⟩ ∧
      r.machine.UndoesTo (r.machine.startsAt · = true) n { r.machine with core, past } := by
  generalize hpast : r.machine.past = past
  induction past generalizing r sent with
  | nil =>
    have hsame : ({ r.machine with past := [] } : Machine) = r.machine := by rw [← hpast]
    refine ⟨0, r.machine.core, [], sent.toList, rfl, ?_⟩
    exact ⟨fun hsome => absurd hpast hsome, congrArg Except.ok hsame.symm,
      fun _ _ hpositive hlt => absurd hlt (Nat.not_lt.2 (Nat.zero_le _)), .inr rfl⟩
  | cons x past ih =>
    obtain ⟨memo, memos, memory, -, -, ⟨signals, hback⟩, hr'⟩ := hr.takeBack hidle hpast
    obtain ⟨hanswer, hstate⟩ := hr.undo hidle hpast hback
    have hfirst : ∀ k, r.machine.undoTimes (k + 1)
        = (r.machine.backAt memo memory past).undoTimes k := fun k => by
      simp only [Machine.undoTimes, hanswer, hstate]
      rfl
    simp only [Engine.rewind, hback]
    cases hstart : r.machine.startsAt (r.machine.backAt memo memory past).pc.toNat with
    | true =>
      refine ⟨1, _, past, _, if_pos hstart, fun _ => Nat.one_pos, hfirst 0, ?_, .inl hstart⟩
      intro j d hpositive hlt
      omega
    | false =>
      obtain ⟨n, core, past', signals', hrewind, hundid⟩ := ih hr' hidle
        (sent.push (.diagnostic (.undoing x.index x.instruction)) ++ signals) rfl
      refine ⟨n + 1, core, past', signals', (if_neg (Bool.eq_false_iff.1 hstart)).trans hrewind,
        fun _ => Nat.succ_pos n, (hfirst n).trans hundid.undone, ?_, hundid.stopped⟩
      intro j d hpositive hlt htimes
      obtain ⟨k, rfl⟩ := Nat.exists_eq_add_one.2 hpositive
      rw [hfirst] at htimes
      cases k with
      | zero =>
        cases htimes
        exact Bool.eq_false_iff.1 hstart
      | succ k => exact hundid.within (k + 1) d (Nat.succ_pos k) (by omega) htimes

end Chronicle

namespace Machine

variable {m : Machine} {memory : Memory} {patience : Nat} {os : List Operation}

/-- Undoing a statement never fails where it is not refused. -/
theorem undoesTo (hm : m = (fresh memory).afterAll patience os)
    (hprogram : m.program.isNone = false) (hidle : m.isWaiting = false) :
    m.undoStatement.answer = .ok () ∧
      ∃ n, m.UndoesTo (m.startsAt · = true) n m.undoStatement.state := by
  have hfaithful := Chronicle.faithful_ofOperations memory patience os
  have hmachine : (Chronicle.ofOperations memory patience os).machine = m := by
    rw [Chronicle.machine_ofOperations, hm]
  have hsuspended : m.suspended = none := by simpa [Engine.isWaiting] using hidle
  obtain ⟨n, core, past, signals, hrewind, hundid⟩ :=
    hfaithful.rewindStatement (hmachine ▸ hsuspended) #[]
  rw [hmachine] at hrewind hundid
  have hundo : m.undoStatement = ⟨{ m with core, past }, .ok (), signals⟩ := by
    unfold undoStatement
    rw [if_neg (by simp [hprogram]), if_neg (by simp [hidle])]
    simp only [hrewind, Reply.within, hsuspended]
  rw [hundo]
  exact ⟨rfl, n, hundid⟩

end Machine

end Backstep
