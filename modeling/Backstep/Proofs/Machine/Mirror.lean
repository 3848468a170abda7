import Backstep.Proofs.Machine.Step
/-!
# Mirrors

Whoever hears everything that a machine signals can keep a copy of its registers and of its memory
without ever looking at them, whether by the single bytes or by the whole words that a store tells
of. `Told` says that signals tell of all that has changed between two cores. It holds of the setters
and so of whatever is done to a machine, done, refused or failed; the one silent change is an image
that is copied from outside.
-/

namespace Backstep

/-- What can be known of a machine by its signals. -/
structure Mirror where
  pc : Address := 0
  x : Word := 0
  cells : Array UInt8
deriving DecidableEq

namespace Mirror

/-- By which of the two notices of a store a mirror goes. -/
inductive Grain
  | bytes
  | words
deriving DecidableEq

def blank (memorySize : Nat) : Mirror := { cells := .replicate memorySize 0 }

/-- Puts bytes one after another from a position on; what does not fit is dropped. -/
def put (cells : Array UInt8) (position : Nat) : List UInt8 → Array UInt8
  | [] => cells
  | b :: bs => put (cells.setIfInBounds position b) (position + 1) bs

def hear (grain : Grain) (m : Mirror) : Signal → Mirror
  | .pc pc => { m with pc }
  | .x x => { m with x }
  | .memory (.byte a b) =>
    match grain with
    | .bytes => { m with cells := m.cells.setIfInBounds a.toNat b }
    | .words => m
  | .memory (.word a w) =>
    match grain with
    | .bytes => m
    | .words => { m with cells := put m.cells a.toNat w.bytes }
  | .memory .cleared => { m with cells := .replicate m.cells.size 0 }
  | .loaded p => { m with cells := put m.cells 0 p.data.toList }
  | .channel _ _ | .diagnostic _ => m

def after (m : Mirror) (grain : Grain) (sent : List Signal) : Mirror := sent.foldl (hear grain) m

theorem after_append (m : Mirror) (grain : Grain) (sent signals : List Signal) :
    m.after grain (sent ++ signals) = (m.after grain sent).after grain signals := List.foldl_append

theorem put_data (cells : ByteArray) (position : Nat) (bs : List UInt8) :
    put cells.data position bs = (Memory.splice cells position bs).data := by
  induction bs generalizing cells position with
  | nil => rfl
  | cons b bs ih => rw [put, Memory.splice, ← ih, Memory.data_put]

/-- What a store tells of its bytes. -/
def byteNotices (a : Address) (bs : List UInt8) (k : Nat) : List Signal :=
  ((bs.zipIdx k).map fun (b, i) => Memory.Notice.byte (a + UInt64.ofNat i) b).map .memory

/-- Bytes that are told one after another come to stand one after another. -/
theorem after_bytes (m : Mirror) (a : Address) (bs : List UInt8) (k : Nat)
    (hfit : a.toNat + k + bs.length ≤ UInt64.size) :
    m.after .bytes (byteNotices a bs k) = { m with cells := put m.cells (a.toNat + k) bs } := by
  induction bs generalizing m k with
  | nil => rfl
  | cons b bs ih =>
    rw [List.length_cons] at hfit
    have hposition : (a + UInt64.ofNat k).toNat = a.toNat + k := by
      rw [UInt64.size] at hfit
      rw [UInt64.toNat_add, UInt64.toNat_ofNat', Nat.mod_eq_of_lt, Nat.mod_eq_of_lt] <;> omega
    have hhead : m.hear .bytes (.memory (.byte (a + UInt64.ofNat k) b))
        = { m with cells := m.cells.setIfInBounds (a.toNat + k) b } := by
      rw [← hposition]
      rfl
    calc m.after .bytes (byteNotices a (b :: bs) k)
        = (m.hear .bytes (.memory (.byte (a + UInt64.ofNat k) b))).after .bytes
            (byteNotices a bs (k + 1)) := rfl
      _ = { m with cells := put m.cells (a.toNat + k) (b :: bs) } := by
        rw [hhead, ih _ _ (by omega)]
        rfl

theorem after_bytes_of_words (m : Mirror) (a : Address) (bs : List UInt8) (k : Nat) :
    m.after .words (byteNotices a bs k) = m := by
  induction bs generalizing k with
  | nil => rfl
  | cons b bs ih => exact ih (k + 1)

/-- Both kinds of mirror learn of a store. -/
theorem after_store (m : Mirror) (grain : Grain) {a : Address} (w : Word)
    (hfit : a.toNat + 8 ≤ UInt64.size) :
    m.after grain ((Memory.storeNotices a w).map .memory)
      = { m with cells := put m.cells a.toNat w.bytes } := by
  have hsplit : (Memory.storeNotices a w).map Signal.memory
      = byteNotices a w.bytes 0 ++ [.memory (.word a w)] := List.map_append
  have hlength := w.length_bytes
  rw [hsplit, after_append]
  cases grain with
  | bytes =>
    rw [after_bytes _ _ _ _ (by omega)]
    rfl
  | words =>
    rw [after_bytes_of_words]
    rfl

end Mirror

/-- What is done to a memory that tells of it. -/
inductive Memory.Change
  | store (a : Address) (w : Word)
  | clear
deriving DecidableEq

def Memory.Change.notices : Memory.Change → List Memory.Notice
  | .store a w => Memory.storeNotices a w
  | .clear => [.cleared]

def Signal.notice? : Signal → Option Memory.Notice
  | .memory notice => some notice
  | _ => none

namespace Core

def mirror (c : Core) : Mirror := ⟨c.pc, c.x, c.memory.bytes.data⟩

/-- The signals tell of all that has changed in the registers and in memory. -/
structure Told (c : Core) (sent : List Signal) (c' : Core) : Prop where
  size : c'.memory.size = c.memory.size
  mirrored : c.memory.size ≤ UInt64.size → ∀ grain, c.mirror.after grain sent = c'.mirror
  changes : ∃ changes : List Memory.Change,
    sent.filterMap Signal.notice? = changes.flatMap Memory.Change.notices

namespace Told

variable {c d e : Core} {sent signals : List Signal}

theorem trans (h : Told c sent d) (h' : Told d signals e) : Told c (sent ++ signals) e where
  size := h'.size.trans h.size
  mirrored hsmall grain := by
    rw [Mirror.after_append, h.mirrored hsmall, h'.mirrored (h.size ▸ hsmall)]
  changes := by
    obtain ⟨changes, hsent⟩ := h.changes
    obtain ⟨changes', hsignals⟩ := h'.changes
    exact ⟨changes ++ changes', by rw [List.filterMap_append, List.flatMap_append, hsent, hsignals]⟩

theorem quiet (hquiet : ∀ σ ∈ sent, σ.quiet = true) (hsame : d.mirror = c.mirror) :
    Told c sent d := by
  have hdeaf : ∀ σ ∈ sent, ∀ grain (m : Mirror), m.hear grain σ = m ∧ σ.notice? = none := by
    intro σ hσ grain m
    have hq := hquiet σ hσ
    cases σ with
    | channel | diagnostic => exact ⟨rfl, rfl⟩
    | loaded | pc | x | memory => cases hq
  refine ⟨congrArg (·.cells.size) hsame, fun _ grain => ?_, [], ?_⟩
  · rw [hsame, Mirror.after]
    exact List.foldlRecOn (motive := fun m => m = c.mirror) sent _ rfl
      fun m hm σ hσ => (hdeaf σ hσ grain m).1.trans hm
  · exact List.filterMap_eq_nil_iff.2 fun σ hσ => (hdeaf σ hσ .bytes c.mirror).2

theorem same (hsame : d.mirror = c.mirror) : Told c [] d := quiet (List.forall_mem_nil _) hsame

theorem setPc (c : Core) (pc : Address) : Told c (c.setPc pc).signals (c.setPc pc).value :=
  ⟨rfl, fun _ _ => rfl, [], rfl⟩

theorem setX (c : Core) (x : Word) : Told c (c.setX x).signals (c.setX x).value :=
  ⟨rfl, fun _ _ => rfl, [], rfl⟩

theorem store {a : Address} {w : Word} {t : Traced Core} (h : c.store a w = .ok t) :
    Told c t.signals t.value := by
  simp only [Core.store] at h
  split at h
  · rename_i memory hwrite
    cases h
    obtain ⟨hholds, rfl⟩ := Memory.write?_eq_some_iff.1 hwrite
    refine ⟨Memory.size_write? hwrite, fun hsmall grain => ?_, [.store a w], ?_⟩
    · rw [Mirror.after_store _ _ _ (Nat.le_trans hholds hsmall)]
      simp only [mirror, Mirror.put_data]
    · rw [List.filterMap_map, List.flatMap_singleton]
      exact List.filterMap_some
  · cases h

theorem clear (c : Core) : Told c c.clearMemory.signals c.clearMemory.value := by
  refine ⟨Memory.size_cleared _, fun _ _ => ?_, [.clear], rfl⟩
  rfl

theorem channel (c : Core) (direction : Direction) (channel : Channel)
    (notices : List Channel.Notice) :
    Told c (notices.map (.channel direction)) (c.setChannel channel direction) := by
  apply quiet (List.forall_mem_map.2 fun _ _ => rfl)
  cases direction <;> rfl

/-- The image of a program is told of with the program. -/
theorem loaded (c : Core) (p : Program) :
    Told c [.loaded p] (c.putImage p.data.toList).value := by
  refine ⟨Memory.size_withImage _ _, fun _ _ => ?_, [], rfl⟩
  simp only [mirror, Core.putImage, Memory.withImage, ← Mirror.put_data]
  rfl

/-! ### Executions -/

theorem nextInput (c : Core) (ticket : Option Ticket) :
    Told c (c.nextInput ticket).signals (c.nextInput ticket).value.1 := by
  cases ticket with
  | none => exact channel c .input _ _
  | some ticket =>
    have hcollect : Told c [] (c.collect .input ticket).1 := channel c .input _ []
    simp only [Core.nextInput]
    split <;> rename_i heq <;> rw [heq] at hcollect <;> exact hcollect

theorem interrupt {index : Address} {operand : Word} {ticket : Option Ticket}
    {t : Traced (Core × Option Ticket)} (h : c.interrupt index operand ticket = .ok t) :
    Told c t.signals t.value.1 := by
  unfold Core.interrupt at h
  split at h
  · have hnext := nextInput c ticket
    split at h
    · rename_i hinput
      rw [hinput] at hnext
      cases h
      exact hnext
    · rename_i core w sent hinput
      rw [hinput] at hnext
      cases hstore : core.store core.x.address w with
      | error failure =>
        rw [hstore] at h
        cases h
      | ok stored =>
        rw [hstore] at h
        cases h
        exact (hnext.trans (store hstore)).trans (setPc _ _)
  · cases h
    exact (channel c .output _ _).trans ((setPc _ _).trans (same rfl))
  · cases h
    exact (quiet (List.forall_mem_singleton.2 rfl) rfl).trans (setPc _ _)

theorem perform {x : Execution} {ticket : Option Ticket} {t : Traced (Core × Option Ticket)}
    (h : x.perform c ticket = .ok t) : Told c t.signals t.value.1 := by
  unfold Execution.perform at h
  split at h
  · cases h
    exact setPc c _
  · rename_i a old hsaved
    cases hstore : c.store a c.x with
    | error failure =>
      rw [hstore] at h
      cases h
    | ok stored =>
      rw [hstore] at h
      cases h
      exact (store hstore).trans (setPc _ _)
  · cases htarget : c.target x.instruction with
    | error failure =>
      rw [htarget] at h
      cases h
    | ok pc =>
      rw [htarget] at h
      cases h
      exact setPc c pc
  · split at h
    · exact interrupt h
    · cases hresult : c.result x.instruction with
      | error failure =>
        rw [hresult] at h
        cases h
      | ok v =>
        rw [hresult] at h
        cases h
        exact (setX c v).trans (setPc _ _)

theorem takeBack {x : Execution} {t : Traced Core} (h : x.takeBack c = .ok t) :
    Told c t.signals t.value := by
  unfold Execution.takeBack at h
  split at h
  · cases h
    exact setPc c _
  · cases h
    exact (setPc c _).trans (setX _ _)
  · cases h
    exact setPc c _
  · rename_i a old hsaved
    cases hstore : c.retreat.value.store a old with
    | error failure =>
      simp only [hstore] at h
      cases h
    | ok stored =>
      simp only [hstore] at h
      cases h
      exact (setPc c _).trans (store hstore)

end Told

end Core

/-- Whatever came of an operation on a machine, it was told. -/
def Machine.Tells {α : Type} (m : Machine) (r : Reply Machine α) : Prop :=
  m.core.Told r.signals r.state.core

namespace Machine

variable {m : Machine}

theorem tells_step (m : Machine) : m.Tells m.step := by
  have hreplied := m.replied_step
  unfold Tells
  generalize m.step = r at hreplied
  cases hreplied with
  | unprogrammed | ended | unprepared => exact .same rfl
  | failed htries => exact .quiet htries.quiet rfl
  | completed htries hperform | waits htries hperform =>
    exact (Core.Told.quiet htries.quiet rfl).trans (Core.Told.perform hperform)

/-- A run that was told so far is told to its end. -/
theorem told_runOn {c : Core} (pace : Pace) (patience : Nat) {sent : Array Signal}
    (hsent : c.Told sent.toList m.core) :
    c.Told (runOn pace patience m sent).signals (runOn pace patience m sent).state.core := by
  induction patience generalizing m sent with
  | zero => exact hsent
  | succ patience ih =>
    have hstep : c.Told (sent ++ m.step.signals).toList m.step.state.core := by
      rw [Array.toList_appendList]
      exact hsent.trans m.tells_step
    unfold runOn
    simp only
    split
    · split
      · exact hstep
      · exact ih hstep
    · exact hstep

theorem told_rewind {c d : Core} (stop : Address → Bool) (past : List Execution)
    {sent : Array Signal} (hsent : c.Told sent.toList d) :
    let r := Engine.rewind stop d past sent
    c.Told r.signals r.state.core := by
  induction past generalizing d sent with
  | nil => exact hsent
  | cons x past ih =>
    have hundoing : c.Told (sent.push (.diagnostic (.undoing x.index x.instruction))).toList d := by
      rw [Array.toList_push]
      exact hsent.trans (.quiet (List.forall_mem_singleton.2 rfl) rfl)
    unfold Engine.rewind
    simp only
    split
    · exact hundoing
    · rename_i core signals hback
      have hback' : c.Told
          (sent.push (.diagnostic (.undoing x.index x.instruction)) ++ signals).toList core := by
        rw [Array.toList_appendList]
        exact hundoing.trans (Core.Told.takeBack hback)
      split
      · exact hback'
      · exact ih hback'

theorem tells_load (m : Machine) (p : Program) : m.Tells (m.load p) := by
  unfold Tells load
  split
  · exact .same rfl
  · -- The image is copied in silence, so a mirror copies it when it hears of the program.
    have hquiet : ∀ σ ∈ (m.core.putImage p.data.toList).signals ++ [.diagnostic (.loaded p)],
        σ.quiet = true := by
      refine List.forall_mem_append.2 ⟨?_, List.forall_mem_singleton.2 rfl⟩
      simp only [Core.putImage]
      split
      · exact List.forall_mem_singleton.2 rfl
      · exact List.forall_mem_nil _
    have htold := (Core.Told.quiet hquiet rfl).trans (Core.Told.loaded m.core p)
    rw [List.append_assoc] at htold
    exact htold

theorem tells_undo (m : Machine) : m.Tells m.undo := by
  unfold Tells undo
  split
  · exact .same rfl
  · split
    · exact .same rfl
    · split
      · exact .same rfl
      · simp only [Reply.map, Reply.within, Engine.undo]
        split
        · exact .same rfl
        · exact .same rfl
        · split
          · exact .quiet (List.forall_mem_singleton.2 rfl) rfl
          · rename_i hback
            exact (Core.Told.quiet (List.forall_mem_singleton.2 rfl) rfl).trans
              (Core.Told.takeBack hback)

theorem tells_undoStatement (m : Machine) : m.Tells m.undoStatement := by
  unfold Tells undoStatement
  split
  · exact .same rfl
  · split
    · exact .same rfl
    · exact told_rewind _ _ (.same rfl)

theorem tells_reset (m : Machine) : m.Tells m.reset := by
  unfold Tells reset
  split
  · exact .same rfl
  · exact told_rewind _ _ (.same rfl)

theorem tells_access (m : Machine) {a : Access} (ha : ∀ bytes, a ≠ .image bytes) :
    m.Tells (m.access a) := by
  unfold Tells
  cases a with
  | store a w =>
    simp only [access, Core.access, Reply.within]
    cases hstore : m.core.store a w with
    | error failure => exact .same rfl
    | ok t => exact .store hstore
  | image bytes => exact absurd rfl (ha bytes)
  | clear => exact .clear _
  | send way w => exact .channel m.core way _ _
  | receive way => exact .channel m.core way _ _
  | collect way ticket => exact .channel m.core way _ []
  | take way => exact .channel m.core way _ []
  | drain way => exact .channel m.core way _ []

theorem tells_perform (m : Machine) (patience : Nat) {o : Operation}
    (ho : ∀ bytes, o ≠ .access (.image bytes)) : m.Tells (m.perform patience o) := by
  cases o with
  | load p => exact m.tells_load p
  | run pace => exact told_runOn pace (patience + 1) (.same rfl)
  | undo => exact m.tells_undo
  | undoStatement => exact m.tells_undoStatement
  | reset => exact m.tells_reset
  | access a => exact m.tells_access fun bytes h => ho bytes (congrArg Operation.access h)

/-- Everything that is signalled on the way through operations. -/
def sentAlong (m : Machine) (patience : Nat) : List Operation → List Signal
  | [] => []
  | o :: os =>
    (m.perform patience o).signals ++ (m.perform patience o).state.sentAlong patience os

theorem told_afterAll (m : Machine) (patience : Nat) {os : List Operation}
    (hos : ∀ bytes, .access (.image bytes) ∉ os) :
    m.core.Told (m.sentAlong patience os) (m.afterAll patience os).core := by
  induction os generalizing m with
  | nil => exact .same rfl
  | cons o os ih =>
    have hfirst : m.Tells (m.perform patience o) :=
      m.tells_perform patience fun bytes h => hos bytes (h ▸ List.mem_cons_self)
    exact hfirst.trans (ih _ fun bytes h => hos bytes (List.mem_cons_of_mem _ h))

/-- A mirror of a new machine that hears all that operations signal is like the machine after them,
be they done, refused or failed, if no image is copied from outside. It does not matter whether it
goes by bytes or by words: each store tells of its bytes upward and then of its word, with nothing
of another change between. -/
theorem mirrors_agree (memorySize patience : Nat) (os : List Operation)
    (hsize : memorySize ≤ UInt64.size) (hos : ∀ bytes, .access (.image bytes) ∉ os) :
    let m := (ofSize memorySize).afterAll patience os
    let sent := (ofSize memorySize).sentAlong patience os
    (∀ grain, (Mirror.blank memorySize).after grain sent
        = { pc := m.core.pc, x := m.core.x, cells := m.core.memory.bytes.data }) ∧
      ∃ changes : List Memory.Change,
        sent.filterMap Signal.notice? = changes.flatMap Memory.Change.notices := by
  intro m sent
  have htold := (ofSize memorySize).told_afterAll patience hos
  have hsmall : (ofSize memorySize).core.memory.size ≤ UInt64.size := by
    rw [show (ofSize memorySize).core.memory.size = memorySize from Memory.size_zeroed memorySize]
    exact hsize
  exact ⟨htold.mirrored hsmall, htold.changes⟩

/-- Divides by a word that is read to where its own SET stores. -/
def dividing : Program :=
  { Program.eachAlone [⟨4, [9]⟩, ⟨2, [8]⟩, ⟨255, [0]⟩, ⟨1, [9]⟩, ⟨104, [0]⟩] with data := #[1, 2] }

/-- Waits, is refused a program and undoing, goes on to a division by zero, has its memory cleared
and written, and goes back. -/
def watched : List Operation :=
  [.load dividing, .run .program, .load dividing, .undo, .access (.send .input 0), .run .program,
    .undo, .undo, .access .clear, .access (.store 15 (-2)), .access (.send .input 7),
    .run .statement, .reset, .run .instruction, .load dividing]

theorem mirrors_agree_dividing :
    let mirror : Mirror :=
      { pc := 1, x := 9,
        cells := #[1, 2, 0, 0, 0, 0, 0, 0, 0, 0, 0, 0, 0, 0, 0, 0, 0, 255, 255, 255, 255, 255, 255,
          0] }
    (24 ≤ UInt64.size ∧ ∀ bytes, .access (.image bytes) ∉ watched) ∧
      ∀ grain, (Mirror.blank 24).after grain ((ofSize 24).sentAlong 9 watched) = mirror := by
  intro mirror
  have hos : ∀ bytes, .access (.image bytes) ∉ watched := by simp [watched]
  have hmachine : ((ofSize 24).afterAll 9 watched).core.mirror = mirror := by decide +kernel
  refine ⟨⟨by decide, hos⟩, fun grain => ?_⟩
  rw [← hmachine]
  exact (mirrors_agree 24 9 watched (by decide) hos).1 grain

end Machine

end Backstep
