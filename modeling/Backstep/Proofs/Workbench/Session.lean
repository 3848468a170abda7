import Backstep.Proofs.AddressMap
import Backstep.Proofs.Machine.Safety
import Backstep.Workbench.Session
/-!
# Sessions that stay inside memory

A session checks a program when it is loaded and the address in X before each instruction of a run.
`Safe` is what these two checks keep up: the machine is bounded, and so are the addresses that are
remembered for showing. Whatever a session does keeps it safe, and ends in a fault only if a run is
given up.
-/

namespace Backstep.Workbench.Session

/-- No address that the session has kept lies outside memory. -/
structure Safe (s : Session) : Prop where
  machine : s.machine.Bounded
  size : s.machine.core.memory.size = s.memorySize
  written : ∀ a ∈ s.written.keys, a.toNat + 8 ≤ s.memorySize
  named : ∀ a ∈ s.named.keys, a.toNat + 8 ≤ s.memorySize

theorem inside_noteWritten {memorySize : Nat} {σ : Signal} {written : AddressSet}
    (hwritten : ∀ a ∈ written.keys, a.toNat + 8 ≤ memorySize) (hinside : σ.Inside memorySize) :
    ∀ a ∈ (σ.noteWritten written).keys, a.toNat + 8 ≤ memorySize := by
  intro a ha
  cases σ with
  | memory notice =>
    cases notice with
    | word address _ =>
      rcases AddressMap.mem_keys_insert.1 ha with rfl | hold
      · exact hinside
      · exact hwritten a hold
    | byte _ _ => exact hwritten a ha
    | cleared => exact absurd ha List.not_mem_nil
  | loaded _ | pc _ | x _ | channel _ _ | diagnostic _ => exact hwritten a ha

theorem inside_foldl_noteWritten {memorySize : Nat} (sent : List Signal) {written : AddressSet}
    (hwritten : ∀ a ∈ written.keys, a.toNat + 8 ≤ memorySize)
    (hsent : ∀ σ ∈ sent, σ.Inside memorySize) :
    ∀ a ∈ (sent.foldl Signal.noteWritten written).keys, a.toNat + 8 ≤ memorySize := by
  induction sent generalizing written with
  | nil => exact hwritten
  | cons σ sent ih =>
    refine ih ?_ fun τ hτ => hsent τ (List.mem_cons_of_mem _ hτ)
    exact inside_noteWritten hwritten (hsent σ List.mem_cons_self)

/-! ### Loading that fails -/

theorem state_of_load_error {s : Session} {listing : String} {failure : Failure}
    (h : (s.load listing).answer = .error failure) : (s.load listing).state = s := by
  cases hread : Program.read listing with
  | error p => simp only [load, hread]
  | ok program =>
    cases hplaced : program.misplaced? s.memorySize with
    | some p => simp only [load, hread, hplaced]
    | none =>
      simp only [load, hread, hplaced] at h
      cases h

theorem state_of_loadFile_error {s : Session} {w : Surroundings} {file : String} {failure : Failure}
    (h : (s.loadFile w file).answer = .error failure) : (s.loadFile w file).state = s := by
  cases htext : w.text file with
  | error trouble => simp only [loadFile, htext]
  | ok listing =>
    simp only [loadFile, htext] at h ⊢
    exact state_of_load_error h

/-! ### Whatever a session does -/

namespace Safe

variable {s : Session}

theorem ofSize (memorySize : Nat) : (ofSize memorySize).Safe where
  machine := Machine.bounded_ofSize memorySize
  size := Memory.size_zeroed memorySize
  written := List.forall_mem_nil _
  named := List.forall_mem_nil _

theorem notable (h : s.Safe) : ∀ a ∈ s.notable.keys, a.toNat + 8 ≤ s.memorySize := by
  intro a ha
  rcases AddressMap.mem_keys_union.1 ha with ha | ha
  · exact h.written a ha
  · exact h.named a ha

theorem following {α : Type} (h : s.Safe) {r : Reply Machine α} (hr : Machine.Sound s.machine r) :
    (s.following r).state.Safe ∧ Faultless (s.following r).answer := by
  refine ⟨⟨hr.bounded, hr.size.trans h.size, ?_, h.named⟩, hr.faultless⟩
  exact inside_foldl_noteWritten r.signals h.written (h.size ▸ hr.signals)

theorem load (h : s.Safe) {listing : String} (hlength : listing.utf8ByteSize < UInt64.size / 2) :
    (s.load listing).state.Safe ∧ Faultless (s.load listing).answer := by
  unfold Session.load
  split
  · exact ⟨h, .problem⟩
  · rename_i program hread
    split
    · exact ⟨h, .problem⟩
    · rename_i hplaced
      have hbounded := Program.bounded_of_misplaced? hlength hread hplaced
      have hsound := Machine.load_sound hbounded
      have hempty : (Machine.ofSize s.memorySize).core.memory.size = s.memorySize :=
        Memory.size_zeroed s.memorySize
      have hsignals := hsound.signals
      rw [hempty] at hsignals
      refine ⟨⟨hsound.bounded, hsound.size.trans hempty, ?_, ?_⟩, hsound.faultless⟩
      · exact inside_foldl_noteWritten _ (List.forall_mem_nil _) hsignals
      · intro a ha
        obtain ⟨e, he, rfl⟩ := List.mem_map.1 ha
        obtain ⟨v, hv, rfl⟩ := List.mem_map.1 he
        rw [hbounded.keyed v hv]
        exact hbounded.declared v hv

theorem loadFile (h : s.Safe) (w : Surroundings) (file : String) :
    (s.loadFile w file).state.Safe ∧ Faultless (s.loadFile w file).answer := by
  unfold Session.loadFile
  split
  · exact ⟨h, .problem⟩
  · rename_i listing htext
    apply h.load
    unfold Surroundings.text at htext
    split at htext
    · cases htext
    · split at htext
      · cases htext
      · split at htext
        · rename_i hlength
          cases htext
          exact hlength
        · cases htext

/-- No READ that would store outside memory passes the check before each instruction. -/
theorem input (h : s.Safe) (hplaced : s.misplacedInput? = none) :
    ∀ i, s.machine.next? = some i → i.reads = true →
      s.machine.core.memory.Holds s.machine.core.x.address := by
  intro i hnext hreads
  have hnext' : (s.machine.program.bind (·.instruction? s.machine.pc.toNat)).any
      (fun i => i.op? = some .interrupt ∧ Service.ofOperand? (i.operand 0) = some .read)
      = true := by
    rw [show s.machine.program.bind (·.instruction? s.machine.pc.toNat) = some i from hnext,
      Option.any_some, decide_eq_true_eq]
    exact Instruction.reads_iff.1 hreads
  by_cases hfits : Word.Fits s.machine.core.x s.memorySize
  · rw [Memory.Holds, h.size]
    exact Word.address_le_of_fits hfits
  · unfold misplacedInput? at hplaced
    simp only [hnext', hfits, not_false_eq_true, and_self, if_true] at hplaced
    cases hplaced

/-- A run keeps the session safe at every instruction, and only its length can be a fault. -/
theorem driveOn (h : s.Safe) (w : Surroundings) (pace : Pace) (patience : Nat)
    (interrupted : Bool) (sent : Array Signal) :
    let r := Session.driveOn w pace patience s interrupted sent
    r.state.Safe ∧ ∀ f, r.answer = .error (.fault f) → f = .unfinished := by
  induction patience generalizing s interrupted sent with
  | zero =>
    refine ⟨h, ?_⟩
    intro f hf
    cases hf
    rfl
  | succ patience ih =>
    unfold Session.driveOn
    simp only
    split
    · exact ⟨h, Faultless.ok.unfinished⟩
    · split
      · exact ⟨h, Faultless.problem.unfinished⟩
      · rename_i hplaced
        obtain ⟨hsafe, hfaultless⟩ := h.following (h.machine.step (h.input hplaced))
        split
        · split
          · exact ⟨hsafe, Faultless.ok.unfinished⟩
          · exact ih hsafe _ _
        · exact ⟨hsafe, hfaultless.unfinished⟩

theorem drive (h : s.Safe) (w : Surroundings) (pace : Pace) :
    (s.drive w pace).state.Safe ∧
      ∀ f, (s.drive w pace).answer = .error (.fault f) → f = .unfinished :=
  have hpace : { s with pace }.Safe := ⟨h.machine, h.size, h.written, h.named⟩
  hpace.driveOn w pace _ false #[]

end Safe

end Backstep.Workbench.Session
