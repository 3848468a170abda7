import Backstep.Machine.Engine
import Backstep.Proofs.WordMemory
/-!
# What an execution does

Three facts say everything that later proofs need of `prepare`, `perform` and `takeBack`: what is
noted before an execution runs (`Noted`), what it may do to the core (`Outcome`), and that taking it
back restores the counter and X of the core it was prepared in, whatever happened to memory and to
the channels meanwhile. No proof outside this module looks at a single operation.
-/

namespace Backstep

def Instruction.reads (i : Instruction) : Bool :=
  i.op? = some .interrupt && Service.ofOperand? (i.operand 0) = some .read

theorem Instruction.reads_iff {i : Instruction} :
    i.reads = true ↔ i.op? = some .interrupt ∧ Service.ofOperand? (i.operand 0) = some .read := by
  simp [reads]

/-- The memory after what was noted is put back. -/
def Saved.restore? (saved : Saved) (m : Memory) : Option Memory :=
  match saved with
  | .word a old => m.write? a old
  | _ => some m

namespace Execution

/-- What is noted of a core for an instruction that is about to run in it. -/
inductive Noted (c : Core) (i : Instruction) : Saved → Prop
  | nothing (hset : i.op? ≠ some .set) (hreads : i.reads = false) : Noted c i .nothing
  | x (hset : i.op? ≠ some .set) : Noted c i (.x c.x)
  | pc (hset : i.op? ≠ some .set) (hreads : i.reads = false) : Noted c i (.pc c.pc)
  | word {w : Word} (hset : i.op? = some .set) (hreads : i.reads = false)
      (hread : c.memory.read? (i.operand 0).address = some w) :
      Noted c i (.word (i.operand 0).address w)

/-- The execution is the one prepared in the core for its instruction. -/
structure Prepared (x : Execution) (c : Core) : Prop where
  index : x.index = c.pc
  noted : Noted c x.instruction x.saved

theorem Prepared.saved_of_reads {x : Execution} {c : Core} (hprepared : x.Prepared c)
    (hreads : x.instruction.reads = true) : x.saved = .x c.x := by
  have hnoted := hprepared.noted
  generalize x.saved = saved at hnoted
  cases hnoted with
  | x => rfl
  | nothing _ hno | pc _ hno | word _ hno => simp [hreads] at hno

private theorem reads_eq_false {i : Instruction} {op : Option Opcode} (hop : i.op? = op)
    (hne : op ≠ some .interrupt) : i.reads = false := by
  simp [Instruction.reads, hop, hne]

/-- Preparing notes what the instruction is about to overwrite, and has an answer unless the word at
an address cannot be read. -/
theorem prepared_of_prepare {c : Core} {i : Instruction} {t : Traced Execution}
    (h : prepare c i = .ok t) : t.value.instruction = i ∧ t.value.Prepared c := by
  unfold prepare at h
  split at h
  case h_1 hop =>
    cases h
    exact ⟨rfl, rfl, .nothing (by simp [hop]) (reads_eq_false hop (by decide))⟩
  case h_8 hop =>
    simp only [Core.load] at h
    split at h
    · rename_i w hread
      cases h
      exact ⟨rfl, rfl, .word hop (reads_eq_false hop (by decide)) hread⟩
    · cases h
  case h_9 hop | h_10 hop | h_11 hop =>
    cases h
    exact ⟨rfl, rfl, .pc (by simp [hop]) (reads_eq_false hop (by decide))⟩
  case h_12 op _ _ _ _ _ _ hset _ _ _ hop =>
    cases h
    exact ⟨rfl, rfl, .x (by simpa [hop] using hset)⟩
  all_goals
    rename_i hop
    cases h
    exact ⟨rfl, rfl, .nothing (by simp [hop]) (reads_eq_false hop (by decide))⟩

/-- What a complete execution has done to a core. A READ is the only one that looks at the input,
for a new reader or for one with a ticket. -/
inductive Outcome (x : Execution) (ticket : Option Ticket) (c : Core) : Core → Prop
  | moved (hsaved : x.saved = .nothing) : Outcome x ticket c { c with pc := c.pc + 1 }
  | stored {a : Address} {old : Word} {memory : Memory} (hsaved : x.saved = .word a old)
      (hwrite : c.memory.write? a c.x = some memory) :
      Outcome x ticket c { c with memory, pc := c.pc + 1 }
  | jumped {old pc : Address} (hsaved : x.saved = .pc old) : Outcome x ticket c { c with pc }
  | computed {old v : Word} (hsaved : x.saved = .x old) (hreads : x.instruction.reads = false) :
      Outcome x ticket c { c with x := v, pc := c.pc + 1 }
  | sent {old : Word} (hsaved : x.saved = .x old) (hreads : x.instruction.reads = false) :
      Outcome x ticket c { c with output := (c.output.write c.x).1, pc := c.pc + 1 }
  | took {old w : Word} {input : Channel} {memory : Memory} {notices : List Signal}
      (hsaved : x.saved = .x old) (hreads : x.instruction.reads = true)
      (hinput : c.nextInput ticket = ⟨({ c with input }, .ready w), notices⟩)
      (hwrite : c.memory.write? c.x.address w = some memory) :
      Outcome x ticket c { c with input, memory, pc := c.pc + 1 }

theorem nextInput_core (c : Core) (ticket : Option Ticket) :
    ∃ input, (c.nextInput ticket).value.1 = { c with input } := by
  cases ticket with
  | none =>
    simp only [Core.nextInput, Core.receive, Core.setChannel]
    exact ⟨_, rfl⟩
  | some ticket =>
    simp only [Core.nextInput, Core.collect, Core.setChannel]
    split <;> rename_i heq <;> obtain ⟨rfl, -⟩ := Prod.mk.inj heq <;> exact ⟨_, rfl⟩

/-- An execution that is not complete is a READ whose word has not come, and has done nothing but
look at the input. -/
theorem of_perform_waiting {x : Execution} {c c' : Core} {ticket : Option Ticket} {waits : Ticket}
    {sent : List Signal} (h : x.perform c ticket = .ok ⟨(c', some waits), sent⟩) :
    x.instruction.reads = true ∧ (∃ old, x.saved = .x old) ∧
      ∃ notices, c.nextInput ticket = ⟨(c', .pending waits), notices⟩ := by
  unfold perform at h
  split at h
  case h_1 => cases h
  case h_2 =>
    simp only [Core.store] at h
    split at h <;> cases h
  case h_3 =>
    cases htarget : c.target x.instruction <;> simp only [htarget] at h <;> cases h
  case h_4 old hsaved =>
    split at h
    · rename_i hop
      unfold Core.interrupt at h
      split at h
      · rename_i hservice
        refine ⟨Instruction.reads_iff.2 ⟨hop, hservice⟩, ⟨old, hsaved⟩, ?_⟩
        split at h
        · rename_i hnext
          cases h
          exact ⟨_, hnext⟩
        · simp only [Core.store] at h
          split at h <;> cases h
      · cases h
      · cases h
    · cases hresult : c.result x.instruction <;> simp only [hresult] at h <;> cases h

theorem outcome_of_perform {x : Execution} {c c' : Core} {ticket : Option Ticket}
    {sent : List Signal} (h : x.perform c ticket = .ok ⟨(c', none), sent⟩) :
    x.Outcome ticket c c' := by
  unfold perform at h
  split at h
  case h_1 hsaved =>
    cases h
    exact .moved hsaved
  case h_2 hsaved =>
    simp only [Core.store] at h
    split at h
    · rename_i hwrite
      cases h
      exact .stored hsaved hwrite
    · cases h
  case h_3 hsaved =>
    cases htarget : c.target x.instruction <;> simp only [htarget] at h <;> cases h
    exact .jumped hsaved
  case h_4 old hsaved =>
    split at h
    · rename_i hop
      unfold Core.interrupt at h
      split at h
      · rename_i hservice
        split at h
        · cases h
        · rename_i core w notices hnext
          have hinput : core = { c with input := core.input } := by
            obtain ⟨input, hcore⟩ := nextInput_core c ticket
            rw [hnext] at hcore
            simp only at hcore
            rw [hcore]
          simp only [Core.store] at h
          split at h
          · rename_i hwrite
            cases h
            rw [hinput] at hnext hwrite ⊢
            exact .took hsaved (Instruction.reads_iff.2 ⟨hop, hservice⟩) hnext hwrite
          · cases h
      · rename_i hservice
        cases h
        exact .sent hsaved (by simp [Instruction.reads, hservice])
      · rename_i hservice
        cases h
        exact .computed hsaved (by simp [Instruction.reads, hservice])
    · rename_i hop
      cases hresult : c.result x.instruction <;> simp only [hresult] at h <;> cases h
      exact .computed hsaved (by simp [Instruction.reads, hop])

theorem Outcome.size_memory {x : Execution} {ticket : Option Ticket} {c c' : Core}
    (h : x.Outcome ticket c c') : c'.memory.size = c.memory.size := by
  cases h with
  | moved | jumped | computed | sent => rfl
  | stored _ hwrite | took _ _ _ hwrite => exact Memory.size_write? hwrite

theorem Outcome.input {x : Execution} {ticket : Option Ticket} {c c' : Core}
    (h : x.Outcome ticket c c') (hreads : x.instruction.reads = false) : c'.input = c.input := by
  cases h with
  | moved | stored | jumped | computed | sent => rfl
  | took _ htook => simp [htook] at hreads

/-! ### Taking back -/

/-- How the counter and X stand once an execution prepared in the core is complete, as far as what
was noted tells. -/
def Left (x : Execution) (c : Core) (pc : Address) (v : Word) : Prop :=
  match x.saved with
  | .nothing | .word _ _ => pc = c.pc + 1 ∧ v = c.x
  | .x _ => pc = c.pc + 1
  | .pc _ => v = c.x

theorem Outcome.left {x : Execution} {ticket : Option Ticket} {c c' : Core}
    (h : x.Outcome ticket c c') : x.Left c c'.pc c'.x := by
  cases h with
  | moved hsaved | stored hsaved _ => simp [Left, hsaved]
  | jumped hsaved | computed hsaved _ | sent hsaved _ | took hsaved _ _ _ => simp [Left, hsaved]

/-- Taking back restores the counter and X as they were in the core in which the execution was
prepared, puts the noted word back and changes nothing else. -/
theorem takeBack_of_left {x : Execution} {c d : Core} {memory : Memory} (hprepared : x.Prepared c)
    (hleft : x.Left c d.pc d.x) (hrestore : x.saved.restore? d.memory = some memory) :
    ∃ sent, x.takeBack d = .ok ⟨{ d with pc := c.pc, x := c.x, memory }, sent⟩ := by
  have hback : c.pc + 1 - 1 = c.pc := UInt64.add_sub_cancel c.pc 1
  have hnoted := hprepared.noted
  unfold takeBack
  unfold Left at hleft
  generalize x.saved = saved at hnoted hleft hrestore
  cases hnoted with
  | nothing =>
    obtain ⟨hpc, hx⟩ := hleft
    cases hrestore
    refine ⟨[.pc c.pc], ?_⟩
    simp only [Core.retreat, Core.setPc, hpc, hback, ← hx]
  | x =>
    cases hrestore
    have hpc : d.pc = c.pc + 1 := hleft
    refine ⟨[.pc c.pc, .x c.x], ?_⟩
    simp only [Core.retreat, Core.setPc, hpc, hback]
    rfl
  | pc =>
    cases hrestore
    have hx : d.x = c.x := hleft
    refine ⟨[.pc c.pc], ?_⟩
    simp only [Core.setPc, ← hx]
  | word hset hreads hread =>
    obtain ⟨hpc, hx⟩ := hleft
    simp only [Saved.restore?] at hrestore
    simp only [Core.retreat, Core.setPc, Core.store, hpc, hback, hrestore, ← hx]
    exact ⟨_, rfl⟩

/-- The execution is a SET whose word has a byte at the position. -/
def Overwrites (x : Execution) (position : Nat) : Prop :=
  x.instruction.op? = some .set ∧ Memory.Covers (x.instruction.operand 0).address position

instance (x : Execution) (position : Nat) : Decidable (x.Overwrites position) :=
  inferInstanceAs (Decidable (_ ∧ _))

/-- What was noted can be put back into any memory of the same size. It brings back the bytes that
the execution overwrote, as they were when it was prepared, and leaves all others. -/
theorem Prepared.restore? {x : Execution} {c : Core} {m : Memory} (hprepared : x.Prepared c)
    (hsize : m.size = c.memory.size) :
    ∃ memory, x.saved.restore? m = some memory ∧ memory.size = m.size ∧
      ∀ position, memory.byte? position
        = if x.Overwrites position then c.memory.byte? position else m.byte? position := by
  have hnoted := hprepared.noted
  generalize x.saved = saved at hnoted
  cases hnoted with
  | nothing hset | x hset | pc hset =>
    refine ⟨m, rfl, rfl, fun position => ?_⟩
    rw [if_neg fun h => hset h.1]
  | word hset hreads hread =>
    have hholds : m.Holds (x.instruction.operand 0).address := by
      rw [Memory.Holds, hsize]
      exact (Memory.read?_eq_some_iff.1 hread).1
    obtain ⟨memory, hwrite⟩ := hholds.write? _
    refine ⟨memory, hwrite, Memory.size_write? hwrite, fun position => ?_⟩
    rw [Memory.byte?_write? hwrite]
    by_cases hcovers : Memory.Covers (x.instruction.operand 0).address position
    · rw [if_pos hcovers, if_pos ⟨hset, hcovers⟩]
      exact Memory.byte?_of_read? hread hcovers
    · rw [if_neg hcovers, if_neg fun h => hcovers h.2]

/-- A complete execution that is no READ is undone exactly: what was noted brings back the memory in
which it was prepared. -/
theorem Outcome.restore? {x : Execution} {ticket : Option Ticket} {c c' : Core}
    (h : x.Outcome ticket c c') (hprepared : x.Prepared c) (hreads : x.instruction.reads = false) :
    x.saved.restore? c'.memory = some c.memory := by
  have hnoted := hprepared.noted
  cases h with
  | moved hsaved | jumped hsaved | computed hsaved _ | sent hsaved _ =>
    simp only [hsaved, Saved.restore?]
  | took _ htook => simp [htook] at hreads
  | stored hsaved hwrite =>
    rw [hsaved] at hnoted ⊢
    cases hnoted with
    | word _ _ hread => exact Memory.write?_read? hread hwrite

end Execution

end Backstep
