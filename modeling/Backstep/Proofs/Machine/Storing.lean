import Backstep.Proofs.AddressMap
import Backstep.Proofs.Machine.Progress
/-!
# What is stored

Words of memory change in three ways: a SET stores to its operand, a READ that gets its word stores
where X points, and a SET that is taken back stores what stood at its operand before. `Core.Stores`
says which addresses are stored to between two cores: the signals tell of just these words, in this
order, and no byte outside them changes. What a step, steps one after another, and going back store
is said here of the instructions alone, and then found in the signals.
-/

namespace Backstep

namespace Signal

/-- The address of the word that was stored, if the signal tells of one. -/
def stored? : Signal → Option Address
  | .memory (.word a _) => some a
  | _ => none

/-- The signal tells of a change of memory. -/
def ofMemory : Signal → Bool
  | .memory _ => true
  | _ => false

/-- A session that hears the signals notes the addresses of the words that they tell of. -/
theorem mem_keys_noted {sent : List Signal} (huncleared : .memory .cleared ∉ sent)
    (written : AddressSet) (a : Address) :
    a ∈ (sent.foldl noteWritten written).keys ↔
      a ∈ written.keys ∨ a ∈ sent.filterMap stored? := by
  induction sent generalizing written with
  | nil => simp
  | cons σ sent ih =>
    obtain ⟨hσ, hsent⟩ := List.ne_and_not_mem_of_not_mem_cons huncleared
    rw [List.foldl_cons, ih hsent]
    cases σ with
    | memory notice =>
      cases notice with
      | word b w =>
        have hstored : (Signal.memory (.word b w)).stored? = some b := rfl
        have hnoted : noteWritten written (.memory (.word b w)) = written.insert b () := rfl
        rw [hnoted, AddressMap.mem_keys_insert, List.filterMap_cons_some hstored, List.mem_cons,
          or_assoc, or_left_comm]
      | byte => rfl
      | cleared => exact absurd rfl hσ
    | loaded | pc | x | channel | diagnostic => rfl

theorem foldl_noteWritten_of_silent {sent : List Signal}
    (hsilent : ∀ σ ∈ sent, σ.ofMemory = false) (written : AddressSet) :
    sent.foldl noteWritten written = written := by
  induction sent with
  | nil => rfl
  | cons σ sent ih =>
    obtain ⟨hσ, hsent⟩ := List.forall_mem_cons.1 hsilent
    cases σ with
    | memory => cases hσ
    | loaded | pc | x | channel | diagnostic => exact ih hsent

end Signal

namespace Instruction

/-- The address that the instruction stores to if it is a SET. -/
def setTo? (i : Instruction) : Option Address :=
  if i.op? = some .set then some (i.operand 0).address else none

/-- The address that the instruction stores to, whatever it is, if X holds this word. -/
def storesTo? (i : Instruction) (x : Word) : Option Address :=
  i.setTo?.or (if i.reads = true then some x.address else none)

variable {i : Instruction} {x : Word}

theorem storesTo?_of_set (hset : i.op? = some .set) :
    i.storesTo? x = some (i.operand 0).address := by
  rw [storesTo?, setTo?, if_pos hset, Option.some_or]

theorem storesTo?_of_reads (hreads : i.reads = true) : i.storesTo? x = some x.address := by
  have hset : i.op? ≠ some .set := by
    rw [(Instruction.reads_iff.1 hreads).1]
    decide
  rw [storesTo?, setTo?, if_neg hset, if_pos hreads, Option.none_or]

theorem storesTo?_of_neither (hset : i.op? ≠ some .set) (hreads : i.reads = false) :
    i.storesTo? x = none := by
  rw [storesTo?, setTo?, if_neg hset, hreads]
  rfl

end Instruction

namespace Core

/-- The signals tell of words stored to the addresses, and of nothing else in memory; outside of
these words memory is as it was. -/
structure Stores (c : Core) (addresses : List Address) (sent : List Signal) (c' : Core) : Prop where
  heard : sent.filterMap Signal.stored? = addresses
  uncleared : .memory .cleared ∉ sent
  elsewhere : ∀ position, (∀ a ∈ addresses, ¬ Memory.Covers a position) →
    c'.memory.byte? position = c.memory.byte? position

namespace Stores

variable {c d e : Core} {addresses later : List Address} {sent signals : List Signal}

theorem trans (h : Stores c addresses sent d) (h' : Stores d later signals e) :
    Stores c (addresses ++ later) (sent ++ signals) e where
  heard := by rw [List.filterMap_append, h.heard, h'.heard]
  uncleared hmem := (List.mem_append.1 hmem).elim h.uncleared h'.uncleared
  elsewhere position houtside := by
    rw [h'.elsewhere position fun a ha => houtside a (List.mem_append_right _ ha),
      h.elsewhere position fun a ha => houtside a (List.mem_append_left _ ha)]

theorem nothing (hsilent : ∀ σ ∈ sent, σ.ofMemory = false) (hmemory : d.memory = c.memory) :
    Stores c [] sent d where
  heard := by
    refine List.filterMap_eq_nil_iff.2 fun σ hσ => ?_
    have hσ' := hsilent σ hσ
    cases σ with
    | memory => cases hσ'
    | loaded | pc | x | channel | diagnostic => rfl
  uncleared hmem := absurd (hsilent _ hmem) (by decide)
  elsewhere position _ := by rw [hmemory]

theorem same (hmemory : d.memory = c.memory) : Stores c [] [] d :=
  nothing (List.forall_mem_nil _) hmemory

theorem quiet (hquiet : ∀ σ ∈ sent, σ.quiet = true) (hmemory : d.memory = c.memory) :
    Stores c [] sent d := by
  refine nothing (fun σ hσ => ?_) hmemory
  have hσ' := hquiet σ hσ
  cases σ with
  | channel | diagnostic => rfl
  | loaded | pc | x | memory => cases hσ'

/-- Something more is told of, but nothing of memory. -/
theorem onward (h : Stores c addresses sent d) (hsilent : ∀ σ ∈ signals, σ.ofMemory = false)
    (hmemory : e.memory = d.memory) : Stores c addresses (sent ++ signals) e := by
  have hboth := h.trans (nothing hsilent hmemory)
  rwa [List.append_nil] at hboth

theorem setPc (c : Core) (pc : Address) : Stores c [] (c.setPc pc).signals (c.setPc pc).value :=
  nothing (List.forall_mem_singleton.2 rfl) rfl

theorem store {a : Address} {w : Word} {t : Traced Core} (h : c.store a w = .ok t) :
    Stores c [a] t.signals t.value := by
  simp only [Core.store] at h
  split at h
  · rename_i memory hwrite
    cases h
    refine ⟨?_, ?_, fun position houtside => ?_⟩
    · simp only [Memory.storeNotices, List.map_append, List.filterMap_append, List.filterMap_map]
      exact congrArg (· ++ [a]) (List.filterMap_eq_nil_iff.2 fun _ _ => rfl)
    · simp [Memory.storeNotices]
    · rw [Memory.byte?_write? hwrite, if_neg (houtside a List.mem_cons_self)]
  · cases h

theorem nextInput (c : Core) (ticket : Option Ticket) :
    Stores c [] (c.nextInput ticket).signals (c.nextInput ticket).value.1 := by
  obtain ⟨input, hcore⟩ := Execution.nextInput_core c ticket
  refine nothing (fun σ hσ => ?_) (by rw [hcore])
  cases ticket with
  | none =>
    obtain ⟨_, -, rfl⟩ := List.mem_map.1 hσ
    rfl
  | some ticket =>
    simp only [Core.nextInput] at hσ
    split at hσ
    · cases hσ
    · cases hσ

end Stores

end Core

/-! ### Executions -/

/-- What the execution keeps was noted for its instruction. -/
def Execution.Recalls (x : Execution) : Prop := ∃ c, Noted c x.instruction x.saved

namespace Core.Stores

variable {c : Core}

theorem interrupt {index : Address} {operand : Word} {ticket : Option Ticket}
    {t : Traced (Core × Option Ticket)} (h : c.interrupt index operand ticket = .ok t) :
    Stores c
      (if t.value.2 = none ∧ Service.ofOperand? operand = some .read then [c.x.address] else [])
      t.signals t.value.1 := by
  unfold Core.interrupt at h
  split at h
  · rename_i hservice
    obtain ⟨input, hcore⟩ := Execution.nextInput_core c ticket
    have hnext := nextInput c ticket
    split at h
    · rename_i hinput
      rw [hinput] at hnext
      cases h
      exact hnext
    · rename_i core w sent hinput
      rw [hinput] at hnext hcore
      simp only at hcore
      cases hstore : core.store core.x.address w with
      | error failure =>
        rw [hstore] at h
        cases h
      | ok stored =>
        rw [hstore] at h
        cases h
        have hx : core.x = c.x := by rw [hcore]
        rw [if_pos ⟨rfl, hservice⟩, ← hx]
        exact (hnext.trans (store hstore)).onward (List.forall_mem_singleton.2 rfl) rfl
  · rename_i hservice
    cases h
    rw [if_neg (by simp [hservice])]
    refine nothing (List.forall_mem_append.2 ⟨?_, List.forall_mem_singleton.2 rfl⟩) rfl
    exact List.forall_mem_map.2 fun _ _ => rfl
  · rename_i hservice
    cases h
    rw [if_neg (by simp [hservice])]
    exact nothing (List.forall_mem_cons.2 ⟨rfl, List.forall_mem_singleton.2 rfl⟩) rfl

variable {x : Execution}

/-- An execution that is complete has stored what its instruction stores; one that waits has stored
nothing. -/
theorem perform (hx : x.Recalls) {ticket : Option Ticket} {t : Traced (Core × Option Ticket)}
    (h : x.perform c ticket = .ok t) :
    Stores c (if t.value.2 = none then (x.instruction.storesTo? c.x).toList else [])
      t.signals t.value.1 := by
  obtain ⟨d, hnoted⟩ := hx
  unfold Execution.perform at h
  generalize x.saved = saved at h hnoted
  cases hnoted with
  | nothing hset hreads =>
    cases h
    rw [Instruction.storesTo?_of_neither hset hreads]
    exact setPc c _
  | word hset =>
    simp only at h
    cases hstore : c.store (x.instruction.operand 0).address c.x with
    | error failure =>
      rw [hstore] at h
      cases h
    | ok stored =>
      rw [hstore] at h
      cases h
      rw [Instruction.storesTo?_of_set hset]
      exact (store hstore).onward (List.forall_mem_singleton.2 rfl) rfl
  | pc hset hreads =>
    rw [Instruction.storesTo?_of_neither hset hreads]
    simp only at h
    cases htarget : c.target x.instruction with
    | error failure =>
      rw [htarget] at h
      cases h
    | ok pc =>
      rw [htarget] at h
      cases h
      exact setPc c pc
  | x hset =>
    simp only at h
    split at h
    · rename_i hop
      have hstores := interrupt h
      by_cases hreads : x.instruction.reads = true
      · simp only [(Instruction.reads_iff.1 hreads).2, and_true] at hstores
        rw [Instruction.storesTo?_of_reads hreads]
        exact hstores
      · have hservice : Service.ofOperand? (x.instruction.operand 0) ≠ some .read :=
          fun hservice => hreads (Instruction.reads_iff.2 ⟨hop, hservice⟩)
        rw [if_neg fun hboth => hservice hboth.2] at hstores
        rw [Instruction.storesTo?_of_neither hset (Bool.eq_false_iff.2 hreads), Option.toList_none,
          ite_self]
        exact hstores
    · rename_i hop
      have hreads : x.instruction.reads = false :=
        Bool.eq_false_iff.2 fun hreads => hop (Instruction.reads_iff.1 hreads).1
      rw [Instruction.storesTo?_of_neither hset hreads, Option.toList_none, ite_self]
      cases hresult : c.result x.instruction with
      | error failure =>
        rw [hresult] at h
        cases h
      | ok v =>
        rw [hresult] at h
        cases h
        exact nothing (List.forall_mem_cons.2 ⟨rfl, List.forall_mem_singleton.2 rfl⟩) rfl

/-- What is taken back stores if it is a SET, and then to the same address. -/
theorem takeBack (hx : x.Recalls) {t : Traced Core} (h : x.takeBack c = .ok t) :
    Stores c x.instruction.setTo?.toList t.signals t.value := by
  obtain ⟨d, hnoted⟩ := hx
  unfold Execution.takeBack at h
  unfold Instruction.setTo?
  generalize x.saved = saved at h hnoted
  cases hnoted with
  | nothing hset =>
    cases h
    rw [if_neg hset]
    exact setPc c _
  | x hset =>
    cases h
    rw [if_neg hset]
    exact nothing (List.forall_mem_cons.2 ⟨rfl, List.forall_mem_singleton.2 rfl⟩) rfl
  | pc hset =>
    cases h
    rw [if_neg hset]
    exact setPc c _
  | word hset =>
    rw [if_pos hset]
    simp only at h
    cases hstore : c.retreat.value.store (x.instruction.operand 0).address _ with
    | error failure =>
      rw [hstore] at h
      cases h
    | ok stored =>
      rw [hstore] at h
      cases h
      exact (setPc c _).trans (store hstore)

end Core.Stores

/-! ### Machines -/

namespace Machine

variable {m : Machine}

/-- What the machine's executions keep was noted for them. -/
structure Recalls (m : Machine) : Prop where
  past : ∀ x ∈ m.past, x.Recalls
  parked : ∀ s, m.suspended = some s → s.execution.Recalls

/-- The machine has come to another with the same program. In its memory the words at the addresses
were stored to, and the signals tell so. -/
structure Stores (m : Machine) (addresses : List Address) (sent : List Signal) (m' : Machine) :
    Prop where
  recalls : m'.Recalls
  program : m'.program = m.program
  core : m.core.Stores addresses sent m'.core

/-- The addresses that a step stores to: what the instruction that it completes stores. -/
def storedByStep (m : Machine) : List Address :=
  if m.completes then (m.step.state.past.head?.bind (·.instruction.storesTo? m.core.x)).toList
  else []

/-- The addresses that so many steps store to, one after another. -/
def storedBy (m : Machine) : Nat → List Address
  | 0 => []
  | k + 1 => m.storedBy k ++ (m.stepped k).storedByStep

theorem storedByStep_of_past {x : Execution} (hpast : m.step.state.past = x :: m.past) :
    m.storedByStep = (x.instruction.storesTo? m.core.x).toList := by
  have hcompletes : m.completes = true := by
    rw [completes, hpast, decide_eq_true_eq]
    exact Nat.lt_succ_self _
  rw [storedByStep, if_pos hcompletes, hpast]
  rfl

theorem storedByStep_of_still (hpast : m.step.state.past = m.past) : m.storedByStep = [] := by
  have hcompletes : ¬ m.completes = true := by
    rw [completes, hpast, decide_eq_true_eq]
    exact Nat.lt_irrefl _
  rw [storedByStep, if_neg hcompletes]

theorem Recalls.of_tries (h : m.Recalls) {x : Execution} {ticket : Option Ticket}
    {sent : List Signal} (htries : m.Tries x ticket sent) : x.Recalls := by
  cases htries with
  | begun _ _ hprepare => exact ⟨m.core, (Execution.prepared_of_prepare hprepare).2.noted⟩
  | again hwaits => exact h.parked _ hwaits

theorem Recalls.filed (h : m.Recalls) {x : Execution} (hx : x.Recalls) (core : Core) :
    (m.filed x core).Recalls :=
  ⟨List.forall_mem_cons.2 ⟨hx, h.past⟩, fun _ hwaits => by cases hwaits⟩

theorem Recalls.step (h : m.Recalls) : m.Stores m.storedByStep m.step.signals m.step.state := by
  have hreplied := m.replied_step
  generalize hstep : m.step = r at hreplied
  have hpast := congrArg (·.state.past) hstep
  cases hreplied with
  | unprogrammed | ended | unprepared =>
    rw [storedByStep_of_still hpast]
    exact ⟨h, rfl, .same rfl⟩
  | failed htries =>
    rw [storedByStep_of_still hpast]
    exact ⟨h, rfl, .quiet htries.quiet rfl⟩
  | completed htries hperform =>
    rw [storedByStep_of_past hpast]
    have hx := h.of_tries htries
    exact ⟨h.filed hx _, rfl, (Core.Stores.quiet htries.quiet rfl).trans (.perform hx hperform)⟩
  | waits htries hperform =>
    rw [storedByStep_of_still hpast]
    have hx := h.of_tries htries
    refine ⟨⟨h.past, ?_⟩, rfl, (Core.Stores.quiet htries.quiet rfl).trans (.perform hx hperform)⟩
    rintro s ⟨⟩
    exact hx

theorem Recalls.stepped (h : m.Recalls) (k : Nat) :
    m.Stores (m.storedBy k) (m.sentBy k) (m.stepped k) := by
  induction k with
  | zero => exact ⟨h, rfl, .same rfl⟩
  | succ k ih =>
    have hstep := ih.recalls.step
    exact ⟨hstep.recalls, hstep.program.trans ih.program, ih.core.trans hstep.core⟩

theorem past_step (m : Machine) :
    m.step.state.past = m.past ∨ ∃ x, m.step.state.past = x :: m.past := by
  have hreplied := m.replied_step
  generalize m.step = r at hreplied
  cases hreplied with
  | unprogrammed | ended | unprepared | failed | waits => exact .inl rfl
  | completed => exact .inr ⟨_, rfl⟩

/-- A last step that completes nothing stores nothing. -/
theorem storedBy_completed {pace : Pace} {k : Nat}
    (hgoesOn : ∀ j, j + 1 < k → (m.stepped j).GoesOn pace) :
    m.storedBy ((m.stepped k).past.length - m.past.length) = m.storedBy k := by
  cases k with
  | zero => rw [stepped, Nat.sub_self]
  | succ k =>
    have hlength := past_stepped fun j hj => hgoesOn j (Nat.succ_lt_succ hj)
    rw [stepped]
    obtain hpast | ⟨x, hpast⟩ := (m.stepped k).past_step
    · rw [hpast, hlength, Nat.add_sub_cancel_left, storedBy, storedByStep_of_still hpast,
        List.append_nil]
    · rw [hpast, List.length_cons, hlength, Nat.add_assoc, Nat.add_sub_cancel_left]

/-! ### Going back -/

/-- The addresses of the SETs that are in the past of the one machine and no more in that of the
other, the latest first. -/
def restored (m m' : Machine) : List Address :=
  (m.past.take (m.past.length - m'.past.length)).filterMap (·.instruction.setTo?)

theorem restored_of_append {m' : Machine} (undone : List Execution)
    (hpast : m.past = undone ++ m'.past) :
    m.restored m' = undone.filterMap (·.instruction.setTo?) := by
  rw [restored, hpast, List.length_append, Nat.add_sub_cancel, List.take_left]

theorem filterMap_setTo?_cons (x : Execution) (past : List Execution) :
    (x :: past).filterMap (·.instruction.setTo?)
      = x.instruction.setTo?.toList ++ past.filterMap (·.instruction.setTo?) := by
  cases hset : x.instruction.setTo? <;> simp [hset]

theorem Recalls.stays {α : Type} (h : m.Recalls) {answer : Except Failure α} {sent : List Signal}
    (hquiet : ∀ σ ∈ sent, σ.quiet = true) :
    let r : Reply Machine α := ⟨m, answer, sent⟩
    m.Stores (m.restored r.state) r.signals r.state := by
  refine ⟨h, rfl, ?_⟩
  rw [restored_of_append [] rfl]
  exact .quiet hquiet rfl

/-- Going back stores what the SETs that are taken back had overwritten. -/
theorem stores_rewind (stop : Address → Bool) {c d : Core} {past : List Execution}
    (hpast : ∀ x ∈ past, x.Recalls) {addresses : List Address} {sent : Array Signal}
    (hsent : c.Stores addresses sent.toList d) :
    let r := Engine.rewind stop d past sent
    r.state.suspended = none ∧ ∃ undone, past = undone ++ r.state.past ∧
      c.Stores (addresses ++ undone.filterMap (·.instruction.setTo?)) r.signals r.state.core := by
  induction past generalizing d addresses sent with
  | nil => exact ⟨rfl, [], rfl, by rwa [List.filterMap_nil, List.append_nil]⟩
  | cons x past ih =>
    have hundoing : c.Stores addresses
        (sent.push (.diagnostic (.undoing x.index x.instruction))).toList d := by
      rw [Array.toList_push]
      exact hsent.onward (List.forall_mem_singleton.2 rfl) rfl
    unfold Engine.rewind
    simp only
    split
    · exact ⟨rfl, [], rfl, by rwa [List.filterMap_nil, List.append_nil]⟩
    · rename_i core signals hback
      have hback' : c.Stores (addresses ++ x.instruction.setTo?.toList)
          (sent.push (.diagnostic (.undoing x.index x.instruction)) ++ signals).toList core := by
        rw [Array.toList_appendList]
        exact hundoing.trans (.takeBack (hpast x List.mem_cons_self) hback)
      split
      · refine ⟨rfl, [x], rfl, ?_⟩
        rw [filterMap_setTo?_cons, List.filterMap_nil, List.append_nil]
        exact hback'
      · obtain ⟨hidle, undone, hsplit, hstores⟩ :=
          ih (fun y hy => hpast y (List.mem_cons_of_mem _ hy)) hback'
        refine ⟨hidle, x :: undone, congrArg (x :: ·) hsplit, ?_⟩
        rw [filterMap_setTo?_cons, ← List.append_assoc]
        exact hstores

namespace Recalls

theorem rewind (h : m.Recalls) (stop : Address → Bool) :
    let r : Reply Machine Unit :=
      (Engine.rewind stop m.core m.past #[]).within ({ m with toEngine := · })
    m.Stores (m.restored r.state) r.signals r.state := by
  have hnone : m.core.Stores [] (#[] : Array Signal).toList m.core := .same rfl
  obtain ⟨hidle, undone, hsplit, hstores⟩ := stores_rewind stop h.past hnone
  refine ⟨⟨fun x hx => h.past x ?_, fun s hs => ?_⟩, rfl, ?_⟩
  · rw [hsplit]
    exact List.mem_append_right _ hx
  · exact absurd (hs.symm.trans hidle) (Option.some_ne_none _)
  · rw [restored_of_append undone hsplit]
    exact hstores

theorem undo (h : m.Recalls) :
    m.Stores (m.restored m.undo.state) m.undo.signals m.undo.state := by
  unfold Machine.undo
  split
  · exact h.stays (List.forall_mem_nil _)
  · split
    · exact h.stays (List.forall_mem_nil _)
    · rename_i hwaiting
      split
      · exact h.stays (List.forall_mem_nil _)
      · rename_i hempty
        have hidle : m.suspended = none := by simpa [Engine.isWaiting] using hwaiting
        obtain ⟨x, past, hpast⟩ := List.exists_cons_of_ne_nil (by simpa using hempty)
        simp only [Engine.undo, hidle, hpast]
        cases hback : x.takeBack m.core with
        | error failure => exact h.stays (List.forall_mem_singleton.2 rfl)
        | ok t =>
          obtain ⟨core, signals⟩ := t
          have hx : x.Recalls := h.past x (hpast ▸ List.mem_cons_self)
          have hundoing : m.core.Stores [] [.diagnostic (.undoing x.index x.instruction)] m.core :=
            .quiet (List.forall_mem_singleton.2 rfl) rfl
          refine ⟨⟨fun y hy => h.past y ?_, fun s hs => by cases hs⟩, rfl, ?_⟩
          · rw [hpast]
            exact List.mem_cons_of_mem _ hy
          · rw [restored_of_append [x] hpast]
            rw [filterMap_setTo?_cons, List.filterMap_nil, List.append_nil]
            exact hundoing.trans (.takeBack hx hback)

theorem undoStatement (h : m.Recalls) :
    m.Stores (m.restored m.undoStatement.state) m.undoStatement.signals
      m.undoStatement.state := by
  unfold Machine.undoStatement
  split
  · exact h.stays (List.forall_mem_nil _)
  · split
    · exact h.stays (List.forall_mem_nil _)
    · exact h.rewind _

theorem reset (h : m.Recalls) :
    m.Stores (m.restored m.reset.state) m.reset.signals m.reset.state := by
  unfold Machine.reset
  split
  · exact h.stays (List.forall_mem_nil _)
  · exact h.rewind _

end Recalls

end Machine

end Backstep
