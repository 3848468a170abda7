import Backstep.Proofs.Machine.Safety
import Mathlib.Algebra.Group.Nat.Defs
/-!
# Where a program may reach

Before a program is taken, each variable's address and each operand that names a word of memory are
looked at. Which operands do name one is a table; here it is compared with what executions do. An
instruction whose preparation or result depends on memory at all is in the table, and no other; what
it depends on is the word at its first operand. The look is then exact: a program passes if over the
integers everything lies inside, and one that does not is told its first offender.
-/

namespace Backstep

/-- As long as no size needs the highest bit, signed and unsigned words of memory are the same. -/
theorem Word.fits_iff_address {a : Word} {n : Nat} (hsize : n < 2 ^ 63) :
    Fits a n ↔ a.address.toNat + 8 ≤ n := by
  have haddress := toNat_address a
  have hlow := a.le_toInt
  have hhigh := a.toInt_lt
  rw [UInt64.size] at haddress
  unfold Fits
  omega

/-! ### Which instructions depend on memory -/

namespace Instruction

/-- What the instruction notes before it runs, or what it leaves in X, depends on memory. -/
def DependsOnMemory (i : Instruction) : Prop :=
  ∃ (c : Core) (memory : Memory), Execution.prepare { c with memory } i ≠ Execution.prepare c i ∨
    ({ c with memory } : Core).result i ≠ c.result i

variable {i : Instruction} {c : Core}

/-- Nothing but the word at the first operand is looked at. -/
theorem prepare_result_congr {memory : Memory}
    (hword : memory.read? (i.operand 0).address = c.memory.read? (i.operand 0).address) :
    Execution.prepare { c with memory } i = Execution.prepare c i ∧
      ({ c with memory } : Core).result i = c.result i := by
  have hload : ({ c with memory } : Core).load (i.operand 0).address
      = c.load (i.operand 0).address := by
    simp only [Core.load, hword]
  constructor
  · simp only [Execution.prepare, hload]
  · simp only [Core.result, Core.divisionByZero, hload]

theorem prepare_result_of_not_takesAddress (hnot : ¬ i.op?.any (·.takesAddress) = true)
    (memory : Memory) : Execution.prepare { c with memory } i = Execution.prepare c i ∧
      ({ c with memory } : Core).result i = c.result i := by
  cases hop : i.op? with
  | none => simp only [Execution.prepare, Core.result, hop, and_self]
  | some op =>
    rw [hop] at hnot
    cases op <;>
      first
        | exact absurd rfl hnot
        | simp only [Execution.prepare, Core.result, Core.divisionByZero, hop, and_self]

/-- The instruction cannot be run where its operand reaches past the end of memory. A division by
zero is noticed first, so X must not be zero. -/
theorem pastEnd_of_takesAddress (htakes : i.op?.any (·.takesAddress) = true)
    (hnone : c.memory.read? (i.operand 0).address = none) (hx : c.x ≠ 0) :
    Execution.prepare c i = .error (.fault (.pastEnd (i.operand 0).address)) ∨
      c.result i = .error (.fault (.pastEnd (i.operand 0).address)) := by
  have hload : c.load (i.operand 0).address = .error (.fault (.pastEnd (i.operand 0).address)) := by
    simp only [Core.load, hnone]
  cases hop : i.op? with
  | none =>
    rw [hop] at htakes
    cases htakes
  | some op =>
    rw [hop] at htakes
    cases op <;>
      first
        | exact absurd htakes Bool.false_ne_true
        | exact .inl (by simp only [Execution.prepare, hop, hload]; rfl)
        | exact .inr (by simp only [Core.result, hop, hload, if_neg hx, Functor.map, Except.map])

theorem faultless_of_holds
    (hholds : i.op?.any (·.takesAddress) = true → c.memory.Holds (i.operand 0).address) :
    Faultless (Execution.prepare c i) ∧ Faultless (c.result i) :=
  ⟨(Execution.soundAt_prepare hholds).1, Core.faultless_result hholds⟩

/-- The table lists the instructions that depend on memory. -/
theorem dependsOnMemory_iff : i.DependsOnMemory ↔ i.op?.any (·.takesAddress) = true := by
  constructor
  · rintro ⟨c, memory, hdiffers⟩
    refine Decidable.byContradiction fun hnot => ?_
    obtain ⟨hprepare, hresult⟩ := prepare_result_of_not_takesAddress (c := c) hnot memory
    exact hdiffers.elim (fun h => h hprepare) fun h => h hresult
  · intro htakes
    -- no memory at all against one that reaches far enough
    let far : Core :=
      { x := 1, memory := .zeroed ((i.operand 0).address.toNat + 8) }
    have hholds : far.memory.Holds (i.operand 0).address :=
      Nat.le_of_eq (Memory.size_zeroed _).symm
    obtain ⟨hprepare, hresult⟩ := faultless_of_holds fun _ => hholds
    have hnone : (Memory.zeroed 0).read? (i.operand 0).address = none := by
      refine if_neg ?_
      rw [Memory.Holds, Memory.size_zeroed]
      omega
    refine ⟨far, .zeroed 0, ?_⟩
    have hx : (1 : Word) ≠ 0 := by decide
    refine (pastEnd_of_takesAddress (c := { far with memory := .zeroed 0 }) htakes hnone
      hx).imp (fun hpast hsame => ?_) fun hpast hsame => ?_
    · exact hprepare _ (hsame ▸ hpast)
    · exact hresult _ (hsame ▸ hpast)

/-- The first operand, which is 2989 where there is none, is the address of a word inside. -/
def OperandFits (n : Nat) (i : Instruction) : Prop :=
  0 ≤ (i.operands.head?.getD 2989).toInt ∧ (i.operands.head?.getD 2989).toInt + 8 ≤ n

instance (n : Nat) (i : Instruction) : Decidable (OperandFits n i) :=
  inferInstanceAs (Decidable (_ ∧ _))

theorem fits_operand_iff {n : Nat} : Word.Fits (i.operand 0) n ↔ OperandFits n i := by
  rw [operand, ← List.head?_eq_getElem?]
  rfl

/-- In a memory of a size that needs no highest bit, the operand fits if the word can be read. -/
theorem operandFits_iff_holds (hsize : c.memory.size < 2 ^ 63) :
    OperandFits c.memory.size i ↔ c.memory.Holds (i.operand 0).address := by
  rw [← fits_operand_iff, Word.fits_iff_address hsize]
  rfl

end Instruction

/-! ### The check -/

namespace Program

open Instruction (OperandFits)

variable {p : Program} {n : Nat}

/-- Variables are found in the order of their addresses. -/
theorem Keyed.pairwise_address (h : p.Keyed) : p.vars.values.Pairwise (·.address < ·.address) := by
  refine List.pairwise_map.2 (p.vars.increasing.imp_of_mem fun {e f} he hf hlt => ?_)
  rw [← h e he, ← h f hf]
  exact hlt

theorem fits_variable_iff (hsize : n < 2 ^ 63) {v : Variable} :
    Word.Fits v.address.toInt64 n ↔ v.address.toNat + 8 ≤ n := by
  rw [Word.fits_iff_address hsize, Word.address, UInt64.toUInt64_toInt64]

/-- The test of one variable finds nothing if its word lies inside. -/
theorem variableTest_eq_none_iff (hsize : n < 2 ^ 63) {v : Variable} {problem : Problem} :
    (if Word.Fits v.address.toInt64 n then none else some problem) = none ↔
      v.address.toNat + 8 ≤ n := by
  rw [← fits_variable_iff hsize, ite_eq_left_iff]
  simp only [reduceCtorEq, imp_false, Decidable.not_not]

theorem misplacedVariable?_eq_none_iff (hsize : n < 2 ^ 63) :
    p.misplacedVariable? n = none ↔ ∀ v ∈ p.vars.values, v.address.toNat + 8 ≤ n := by
  simp only [misplacedVariable?, List.findSome?_eq_none_iff, variableTest_eq_none_iff hsize]

theorem misplacedVariable?_eq_some_iff (hsize : n < 2 ^ 63) {problem : Problem} :
    p.misplacedVariable? n = some problem ↔ ∃ before v after,
      p.vars.values = before ++ v :: after ∧ (∀ u ∈ before, u.address.toNat + 8 ≤ n) ∧
      n < v.address.toNat + 8 ∧ problem =
        { cause := .variableAddress v.name v.address, line := some v.start.line.toNat } := by
  simp only [misplacedVariable?, List.findSome?_eq_some_iff, variableTest_eq_none_iff hsize,
    Option.ite_none_left_eq_some, Option.some.injEq]
  constructor
  · rintro ⟨before, v, after, hvars, ⟨hout, rfl⟩, hbefore⟩
    exact ⟨before, v, after, hvars, hbefore,
      Nat.not_le.1 (mt (fits_variable_iff hsize).2 hout), rfl⟩
  · rintro ⟨before, v, after, hvars, hbefore, hout, rfl⟩
    exact ⟨before, v, after, hvars,
      ⟨mt (fits_variable_iff hsize).1 (Nat.not_le.2 hout), rfl⟩, hbefore⟩

/-- The test of one instruction finds nothing if its operand is no address or lies inside. -/
theorem operandTest_eq_none_iff {i : Instruction} {problem : Problem} :
    (if i.op?.any (·.takesAddress) ∧ ¬ Word.Fits (i.operand 0) n then some problem else none)
      = none ↔ (i.DependsOnMemory → OperandFits n i) := by
  rw [Instruction.dependsOnMemory_iff, ← Instruction.fits_operand_iff, ite_eq_right_iff]
  simp only [reduceCtorEq, imp_false, not_and, Decidable.not_not]

theorem misplacedOperand?_eq_none_iff :
    p.misplacedOperand? n = none ↔ ∀ i ∈ p.code.toList, i.DependsOnMemory → OperandFits n i := by
  simp only [misplacedOperand?, List.findSome?_eq_none_iff, operandTest_eq_none_iff]
  constructor
  · intro h i hi
    obtain ⟨k, hk⟩ := List.getElem?_of_mem hi
    exact h (i, k) (List.mem_zipIdx_iff_getElem?.2 hk)
  · rintro h ⟨i, k⟩ hi
    exact h i (List.mem_of_getElem? (List.mem_zipIdx_iff_getElem?.1 hi))

theorem misplacedOperand?_eq_some_iff {problem : Problem} :
    p.misplacedOperand? n = some problem ↔ ∃ before i after,
      p.code.toList = before ++ i :: after ∧ (∀ j ∈ before, j.DependsOnMemory → OperandFits n j) ∧
      i.DependsOnMemory ∧ ¬ OperandFits n i ∧
      problem = { cause := .operandAddress i, line := (p.line? before.length).map (·.toNat)
                  index := some before.length } := by
  simp only [misplacedOperand?, List.findSome?_eq_some_iff, operandTest_eq_none_iff,
    Option.ite_none_right_eq_some, ← Instruction.dependsOnMemory_iff, Instruction.fits_operand_iff]
  constructor
  · rintro ⟨earlier, ⟨i, k⟩, later, hcode, ⟨⟨hdepends, hout⟩, hproblem⟩, hbefore⟩
    obtain ⟨before, rest, hsplit, rfl, hrest⟩ := List.zipIdx_eq_append_iff.1 hcode
    obtain ⟨_, after, rfl, ⟨⟩, -⟩ := List.zipIdx_eq_cons_iff.1 hrest.symm
    rw [Nat.zero_add] at hproblem
    refine ⟨before, i, after, hsplit, fun j hj => ?_, hdepends, hout, ?_⟩
    · obtain ⟨k, hk⟩ := List.getElem?_of_mem hj
      exact hbefore (j, k) (List.mem_zipIdx_iff_getElem?.2 hk)
    · exact (Option.some.inj hproblem).symm
  · rintro ⟨before, i, after, hsplit, hbefore, hdepends, hout, rfl⟩
    refine ⟨before.zipIdx, (i, before.length), after.zipIdx (before.length + 1), ?_,
      ⟨⟨hdepends, hout⟩, rfl⟩, ?_⟩
    · rw [hsplit, List.zipIdx_append, List.zipIdx_cons, Nat.zero_add]
    · rintro ⟨j, k⟩ hj
      exact hbefore j (List.mem_of_getElem? (List.mem_zipIdx_iff_getElem?.1 hj))

/-- No instruction of a program that passed can reach past the end of a memory of this size. -/
theorem faultless_of_misplaced? (hplaced : p.misplaced? n = none) {i : Instruction}
    (hi : i ∈ p.code.toList) {c : Core} (hmemory : c.memory.size = n) (hsize : n < 2 ^ 63) :
    Faultless (Execution.prepare c i) ∧ Faultless (c.result i) := by
  have hinside := misplacedOperand?_eq_none_iff.1 (Option.or_eq_none_iff.1 hplaced).2 i hi
  subst hmemory
  exact Instruction.faultless_of_holds fun htakes =>
    (Instruction.operandFits_iff_holds hsize).1
      (hinside (Instruction.dependsOnMemory_iff.2 htakes))

/-- The check on loading is exact. A program passes if each variable, and the operand of each
instruction that depends on memory, is the address of a word inside; otherwise the first that is
not is told, variables by address before instructions by index. The instructions that are looked at
are those that depend on memory, and they do so at their first operand alone: of a program that
passed none can reach past the end, and one that was refused would. -/
theorem misplaced?_exact (hsize : n < 2 ^ 63) (p : Program) :
    (p.misplaced? n = none ↔ (∀ v ∈ p.vars.values, v.address.toNat + 8 ≤ n) ∧
      ∀ i ∈ p.code.toList, i.DependsOnMemory → OperandFits n i) ∧
    (∀ problem, p.misplaced? n = some problem ↔
      (∃ before v after, p.vars.values = before ++ v :: after ∧
        (∀ u ∈ before, u.address.toNat + 8 ≤ n) ∧ n < v.address.toNat + 8 ∧ problem =
          { cause := .variableAddress v.name v.address, line := some v.start.line.toNat }) ∨
      (∀ v ∈ p.vars.values, v.address.toNat + 8 ≤ n) ∧
      ∃ before i after, p.code.toList = before ++ i :: after ∧
        (∀ j ∈ before, j.DependsOnMemory → OperandFits n j) ∧
        i.DependsOnMemory ∧ ¬ OperandFits n i ∧ problem =
          { cause := .operandAddress i, line := (p.line? before.length).map (·.toNat)
            index := some before.length }) ∧
    (∀ problem, p.misplaced? n = some problem → problem.kind = .addressOutOfRange) ∧
    (p.Keyed → p.vars.values.Pairwise (·.address < ·.address)) ∧
    (∀ i : Instruction, i.DependsOnMemory ↔ i.op?.any (·.takesAddress) = true) ∧
    (∀ (i : Instruction) (c : Core) (memory : Memory),
      memory.read? (i.operand 0).address = c.memory.read? (i.operand 0).address →
      Execution.prepare { c with memory } i = Execution.prepare c i ∧
        ({ c with memory } : Core).result i = c.result i) ∧
    ∀ i ∈ p.code.toList, ∀ c : Core, c.memory.size = n →
      (p.misplaced? n = none → Faultless (Execution.prepare c i) ∧ Faultless (c.result i)) ∧
      (i.DependsOnMemory → ¬ OperandFits n i → c.x ≠ 0 →
        Execution.prepare c i = .error (.fault (.pastEnd (i.operand 0).address)) ∨
          c.result i = .error (.fault (.pastEnd (i.operand 0).address))) := by
  have hfirst : ∀ problem, p.misplaced? n = some problem ↔ _ := fun problem => by
    rw [misplaced?, Option.or_eq_some_iff, misplacedVariable?_eq_some_iff hsize,
      misplacedVariable?_eq_none_iff hsize, misplacedOperand?_eq_some_iff]
  refine ⟨?_, hfirst, ?_, Keyed.pairwise_address, fun i => Instruction.dependsOnMemory_iff,
    fun i c memory hword => Instruction.prepare_result_congr hword,
    fun i hi c hmemory => ⟨fun hplaced => faultless_of_misplaced? hplaced hi hmemory hsize, ?_⟩⟩
  · rw [misplaced?, Option.or_eq_none_iff, misplacedVariable?_eq_none_iff hsize,
      misplacedOperand?_eq_none_iff]
  · intro problem hproblem
    obtain ⟨_, _, _, -, -, -, rfl⟩ | ⟨-, _, _, _, -, -, -, -, rfl⟩ := (hfirst problem).1 hproblem
    · rfl
    · rfl
  · intro hdepends hout hx
    subst hmemory
    have hnone : c.memory.read? (i.operand 0).address = none :=
      if_neg (mt (Instruction.operandFits_iff_holds hsize).2 hout)
    exact Instruction.pastEnd_of_takesAddress (Instruction.dependsOnMemory_iff.1 hdepends) hnone hx

/-- Of four instructions the third lacks the operand that it needs, and has no line; the last one
strays too, but later, and the first only looks as if it did. -/
def straying : Program where
  code := #[⟨Opcode.loadI.code, [99]⟩, ⟨Opcode.load.code, [16]⟩, ⟨Opcode.add.code, []⟩,
    ⟨Opcode.set.code, [-8]⟩]
  lines := #[3, 5]
  vars := AddressMap.empty.insert 8 { name := "count", address := 8, size := 8 }

theorem misplaced?_exact_straying :
    24 < 2 ^ 63 ∧ straying.misplaced? 24
      = some { cause := .operandAddress ⟨Opcode.add.code, []⟩, index := some 2 } := by
  have hbefore : ∀ j ∈ straying.code.toList.take 2, j.op?.any (·.takesAddress) = true →
      OperandFits 24 j := by decide +kernel
  refine ⟨by decide, ((misplaced?_exact (by decide) straying).2.1 _).2 (.inr ⟨by decide +kernel,
    straying.code.toList.take 2, ⟨Opcode.add.code, []⟩, [⟨Opcode.set.code, [-8]⟩], rfl,
    fun j hj hdepends => hbefore j hj (Instruction.dependsOnMemory_iff.1 hdepends),
    Instruction.dependsOnMemory_iff.2 (by decide +kernel), by decide +kernel, rfl⟩)⟩

end Program

end Backstep
