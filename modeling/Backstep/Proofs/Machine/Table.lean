import Backstep.Proofs.Machine.Read
/-!
# The instruction table

The table of the instruction set says what an instruction does in whole numbers: what becomes of the
counter and of X, which word is stored, sent or taken. It is stated here by the number of the
operation and without machine words (`Rule.ofNumber`). `step_follows_table` says that a machine that
executes an instruction completes it exactly if the table has an answer, and that its next state is
that answer, reduced to 64 bits only in the end, with nothing else changed.
-/

namespace Backstep

/-! ### Numbers -/

namespace Table

/-- The lowest `width` binary digits of two numbers, combined digit by digit. -/
def bitwise (f : Bool → Bool → Bool) : (width : Nat) → Int → Int → Int
  | 0, _, _ => 0
  | width + 1, m, n =>
    (if f (m % 2 = 1) (n % 2 = 1) then 1 else 0) + 2 * bitwise f width (m / 2) (n / 2)

/-- The quotient, cut off towards zero. -/
def quotient? (m n : Int) : Option Int := if n = 0 then none else some (m.tdiv n)

/-- The remainder, which has the sign of the dividend. -/
def remainder? (m n : Int) : Option Int := if n = 0 then none else some (m.tmod n)

def truth (b : Bool) : Int := if b then 1 else 0

end Table

open Table

/-- What an instruction does, with the function it computes. A function without a value is a
division by zero. -/
inductive Rule
  /-- Only the counter moves on. -/
  | move
  /-- X is computed from the word at the address and X. -/
  | memory (f : Int → Int → Option Int)
  /-- X is computed from X and the operand. -/
  | value (f : Int → Int → Option Int)
  /-- X is stored at the address. -/
  | store
  /-- The operand is the next counter if the condition holds of X. -/
  | branch (taken : Int → Bool)
  | interrupt

namespace Rule

/-- The rule of an operation by its number. Reserved and unknown numbers have the rule of `NOOP`. -/
def ofNumber : Nat → Rule
  | 1 => .memory fun w _ => some w
  | 2 => .store
  | 4 => .value fun _ v => some v
  | 100 => .value fun x _ => some (-x)
  | 101 => .memory fun w x => some (w + x)
  | 102 => .memory fun w x => some (w - x)
  | 103 => .memory fun w x => some (w * x)
  | 104 => .memory quotient?
  | 105 => .memory remainder?
  | 106 => .value fun x v => some (x + v)
  | 107 => .value fun x v => some (x - v)
  | 108 => .value fun x v => some (x * v)
  | 109 => .value quotient?
  | 110 => .value remainder?
  | 111 | 112 | 113 | 114 | 115 | 116 | 117 | 118 | 119 => .value fun _ _ => some 2989
  | 160 => .memory fun w x => some (bitwise (· || ·) 64 w x)
  | 161 => .memory fun w x => some (bitwise (· && ·) 64 w x)
  | 162 => .memory fun w x => some (bitwise Bool.xor 64 w x)
  | 163 => .value fun x _ => some (bitwise (fun digit _ => !digit) 64 x 0)
  | 164 => .memory fun w x => some (truth (w > x))
  | 165 => .memory fun w x => some (truth (w < x))
  | 166 => .memory fun w x => some (truth (w ≥ x))
  | 167 => .memory fun w x => some (truth (w ≤ x))
  | 168 => .memory fun w x => some (truth (w = x))
  | 169 => .value fun x _ => some (truth (x = 0))
  | 170 => .value fun x v => some (bitwise (· || ·) 64 x v)
  | 171 => .value fun x v => some (bitwise (· && ·) 64 x v)
  | 172 => .value fun x v => some (bitwise Bool.xor 64 x v)
  | 200 => .branch fun _ => true
  | 201 => .branch fun x => x = 0
  | 202 => .branch fun x => x ≠ 0
  | 255 => .interrupt
  | _ => .move

/-- What a complete instruction makes of the machine, in numbers of any size. -/
structure Effect where
  pc : Int
  x : Int
  /-- The address and the word of a store. -/
  stored? : Option (Int × Int) := none
  sent? : Option Int := none
  /-- A word is taken from the input. -/
  takes : Bool := false
deriving DecidableEq

/-- The number in a word of memory, if memory has one at the address modulo 2^64. -/
def number? (m : Memory) (a : Int) : Option Int := (m.read? (.ofInt a)).map (·.toInt)

/-- The first operand as a number, and 2989 where there is none. -/
def operand (i : Instruction) : Int :=
  match i.operands with
  | [] => 2989
  | w :: _ => w.toInt

/-- The effect of an instruction, unless it divides by zero, names a word past the end of memory,
waits for input or goes on behind the last address of all. -/
def effect? (rule : Rule) (c : Core) (i : Instruction) : Option Effect :=
  let pc : Int := c.pc.toNat
  let x := c.x.toInt
  let v := operand i
  match rule with
  | .move => some { pc := pc + 1, x }
  | .memory f => ((number? c.memory v).bind (f · x)).map ({ pc := pc + 1, x := · })
  | .value f => (f x v).map ({ pc := pc + 1, x := · })
  | .store => (number? c.memory v).map fun _ => { pc := pc + 1, x, stored? := some (v, x) }
  | .branch taken =>
    if taken x then some { pc := v, x }
    else if pc + 1 < UInt64.size then some { pc := pc + 1, x }
    else none
  | .interrupt =>
    if v = 0 then
      c.input.buffer.head?.bind fun w => (number? c.memory x).map fun _ =>
        { pc := pc + 1, x, stored? := some (x, w.toInt), takes := true }
    else if v = 1 then some { pc := pc + 1, x, sent? := some x }
    else some { pc := pc + 1, x }

/-- The second memory is the first with one word stored, and differs in no byte of another word. -/
structure Stored (m m' : Memory) (a v : Int) : Prop where
  size : m'.size = m.size
  word : number? m' a = some (v.bmod UInt64.size)
  rest (position : Nat) (hcovers : ¬ Memory.Covers (.ofInt a) position) :
    m'.byte? position = m.byte? position

/-- The second core is the first with the effect made, its numbers reduced modulo 2^64: the counter
to an address and the others to signed words. -/
structure Effect.Made (e : Effect) (c c' : Core) : Prop where
  pc : (c'.pc.toNat : Int) = e.pc % UInt64.size
  x : c'.x.toInt = e.x.bmod UInt64.size
  unstored (hnone : e.stored? = none) : c'.memory = c.memory
  stored (a v : Int) (hsome : e.stored? = some (a, v)) : Stored c.memory c'.memory a v
  input : c'.input = if e.takes then { c.input with buffer := c.input.buffer.tail } else c.input
  unsent (hnone : e.sent? = none) : c'.output = c.output
  sent (v : Int) (hsome : e.sent? = some v) :
    ∃ w : Word, w.toInt = v.bmod UInt64.size ∧ c'.output = (c.output.write w).1

end Rule

/-! ### Words compute like numbers -/

namespace Table

theorem ofInt_toInt_address (w : Word) : UInt64.ofInt w.toInt = w.address := by
  have haddress := Word.toNat_address w
  rw [UInt64.size] at haddress
  rw [UInt64.ofInt, ← UInt64.ofNat_toNat (x := w.address)]
  refine congrArg UInt64.ofNat ?_
  omega

/-- A number stands for the word that has the same address. -/
theorem ofInt_eq_of_emod {n : Int} {w : Word} (h : n % UInt64.size = w.address.toNat) :
    Int64.ofInt n = w := by
  rw [Word.toNat_address, UInt64.size] at h
  rw [Int64.ofInt_eq_iff_bmod_eq_toInt, ← Int.emod_bmod, h, Int.emod_bmod, w.toInt_bmod]

/-- How many numbers have so many binary digits. -/
def span : (width : Nat) → Nat
  | 0 => 1
  | width + 1 => 2 * span width

/-- Both numbers agree in their lowest `width` digits, and the second has no other. -/
def Truncates (width : Nat) (m : Int) (a : Nat) : Prop :=
  a < span width ∧ (span width : Int) ∣ m - a

theorem Truncates.half {width : Nat} {m : Int} {a : Nat} (h : Truncates (width + 1) m a) :
    Truncates width (m / 2) (a / 2) ∧ (m % 2 = 1 ↔ a % 2 = 1) := by
  obtain ⟨hlt, k, hk⟩ := h
  rw [span] at hlt hk
  rw [Int.natCast_mul, Int.mul_assoc] at hk
  refine ⟨⟨by omega, k, ?_⟩, ?_⟩ <;> omega

theorem truncates_address (w : Word) : Truncates 64 w.toInt w.address.toNat := by
  refine ⟨w.address.toNat_lt, ?_⟩
  rw [Word.toNat_address]
  exact Int.dvd_self_sub_emod

/-- An operation on numbers that works digit by digit does so in any width. By induction on the
width: the lowest digits are combined, and the halves are combined in one digit less. -/
theorem bitwise_eq {f : Bool → Bool → Bool} {g : Nat → Nat → Nat} (hzero : g 0 0 = 0)
    (hlow : ∀ a b, g a b % 2 = if f (a % 2 = 1) (b % 2 = 1) then 1 else 0)
    (hhalf : ∀ a b, g a b / 2 = g (a / 2) (b / 2)) {width : Nat} {m n : Int} {a b : Nat}
    (hm : Truncates width m a) (hn : Truncates width n b) : bitwise f width m n = g a b := by
  induction width generalizing m n a b with
  | zero =>
    have ha : a = 0 := Nat.lt_one_iff.1 hm.1
    have hb : b = 0 := Nat.lt_one_iff.1 hn.1
    rw [ha, hb, hzero]
    rfl
  | succ width ih =>
    obtain ⟨hm, hmlow⟩ := hm.half
    obtain ⟨hn, hnlow⟩ := hn.half
    have hdigit := hlow a b
    have hrest := hhalf a b
    simp only [bitwise, ih hm hn, hmlow, hnlow]
    cases hf : f (a % 2 = 1) (b % 2 = 1) <;>
      simp only [hf, Bool.false_eq_true, if_true, if_false] at hdigit ⊢ <;> omega

theorem ofInt_bitwise {f : Bool → Bool → Bool} {g : Nat → Nat → Nat} (hzero : g 0 0 = 0)
    (hlow : ∀ a b, g a b % 2 = if f (a % 2 = 1) (b % 2 = 1) then 1 else 0)
    (hhalf : ∀ a b, g a b / 2 = g (a / 2) (b / 2)) {v w r : Word}
    (hr : r.address.toNat = g v.address.toNat w.address.toNat) :
    Int64.ofInt (bitwise f 64 v.toInt w.toInt) = r := by
  have hlt : (r.address.toNat : Int) < UInt64.size := Int.ofNat_lt.2 r.address.toNat_lt
  refine ofInt_eq_of_emod ?_
  rw [bitwise_eq hzero hlow hhalf (truncates_address v) (truncates_address w), ← hr]
  exact Int.emod_eq_of_lt (Int.natCast_nonneg _) hlt

theorem ofInt_bitwise_or (v w : Word) :
    Int64.ofInt (bitwise (· || ·) 64 v.toInt w.toInt) = v ||| w := by
  refine ofInt_bitwise (g := (· ||| ·)) rfl (fun a b => ?_) (fun a b => Nat.or_div_two) ?_
  · have hiff := Nat.or_mod_two_eq_one (a := a) (b := b)
    simp only [Bool.or_eq_true, decide_eq_true_eq]
    split <;> omega
  · rw [Word.address, Int64.toUInt64_or, UInt64.toNat_or]
    rfl

theorem ofInt_bitwise_and (v w : Word) :
    Int64.ofInt (bitwise (· && ·) 64 v.toInt w.toInt) = v &&& w := by
  refine ofInt_bitwise (g := (· &&& ·)) rfl (fun a b => ?_) (fun a b => Nat.and_div_two) ?_
  · have hiff := Nat.and_mod_two_eq_one (a := a) (b := b)
    simp only [Bool.and_eq_true, decide_eq_true_eq]
    split <;> omega
  · rw [Word.address, Int64.toUInt64_and, UInt64.toNat_and]
    rfl

theorem ofInt_bitwise_xor (v w : Word) :
    Int64.ofInt (bitwise Bool.xor 64 v.toInt w.toInt) = v ^^^ w := by
  refine ofInt_bitwise (g := (· ^^^ ·)) rfl (fun a b => ?_) (fun a b => Nat.xor_div_two) ?_
  · have hiff := Nat.xor_mod_two_eq_one (a := a) (b := b)
    simp only [Bool.xor, bne_iff_ne, ne_eq, decide_eq_decide]
    split <;> omega
  · rw [Word.address, Int64.toUInt64_xor, UInt64.toNat_xor]
    rfl

theorem bitwise_not {width : Nat} {m : Int} {a : Nat} (h : Truncates width m a) (n : Int) :
    bitwise (fun digit _ => !digit) width m n = (span width - 1 - a : Nat) := by
  induction width generalizing m n a with
  | zero =>
    have ha : a = 0 := Nat.lt_one_iff.1 h.1
    rw [ha]
    rfl
  | succ width ih =>
    obtain ⟨hhalf, hlow⟩ := h.half
    have hlt := h.1
    rw [span] at hlt ⊢
    simp only [bitwise, ih hhalf, hlow, Bool.not_eq_true', decide_eq_false_iff_not]
    split <;> omega

theorem ofInt_bitwise_not (w : Word) (n : Int) :
    Int64.ofInt (bitwise (fun digit _ => !digit) 64 w.toInt n) = ~~~w := by
  have hlt : ((~~~w).address.toNat : Int) < UInt64.size := Int.ofNat_lt.2 (~~~w).address.toNat_lt
  have hnot : (~~~w).address.toNat = span 64 - 1 - w.address.toNat := by
    rw [Word.address, Int64.toUInt64_not, UInt64.toNat_not]
    rfl
  refine ofInt_eq_of_emod ?_
  rw [bitwise_not (truncates_address w), ← hnot]
  exact Int.emod_eq_of_lt (Int.natCast_nonneg _) hlt

theorem ofInt_truth (b : Bool) : Int64.ofInt (truth b) = Word.ofBool b := by
  cases b <;> rfl

theorem map_quotient? (v w : Word) :
    (quotient? v.toInt w.toInt).map Int64.ofInt = if w = 0 then none else some (v / w) := by
  rw [quotient?]
  simp only [Word.toInt_eq_zero_iff]
  split
  · rfl
  · rw [Option.map_some, (Int64.ofInt_eq_iff_bmod_eq_toInt _ _).2 (Int64.toInt_div v w).symm]

theorem map_remainder? (v w : Word) :
    (remainder? v.toInt w.toInt).map Int64.ofInt = if w = 0 then none else some (v % w) := by
  rw [remainder?]
  simp only [Word.toInt_eq_zero_iff]
  split
  · rfl
  · rw [Option.map_some, ← Int64.toInt_mod, Int64.ofInt_toInt]

end Table

/-! ### The word left in X -/

namespace Rule

variable {c : Core} {i : Instruction}

theorem ofInt_operand (i : Instruction) : UInt64.ofInt (operand i) = (i.operand 0).address := by
  obtain ⟨code, operands⟩ := i
  cases operands with
  | nil => rfl
  | cons w ws => exact Table.ofInt_toInt_address w

theorem toInt_operand (i : Instruction) : operand i = (i.operand 0).toInt := by
  obtain ⟨code, operands⟩ := i
  cases operands <;> rfl

theorem bind_number? (c : Core) (i : Instruction) (g : Int → Option Int) :
    (number? c.memory (operand i)).bind g
      = (c.memory.read? (i.operand 0).address).bind fun w => g w.toInt := by
  rw [number?, ofInt_operand, Option.bind_map]
  rfl

theorem toOption_map_load {f : Word → Word} {g : Int → Option Int}
    (h : ∀ w : Word, (g w.toInt).map Int64.ofInt = some (f w)) :
    (f <$> c.load (i.operand 0).address).toOption
      = ((number? c.memory (operand i)).bind g).map Int64.ofInt := by
  rw [bind_number?, Core.load]
  cases c.memory.read? (i.operand 0).address with
  | none => rfl
  | some w => exact (h w).symm

theorem toOption_map_load_of_ne {f : Word → Word} {g : Int → Option Int} {failure : Failure}
    (h : ∀ w : Word, (g w.toInt).map Int64.ofInt = if c.x = 0 then none else some (f w)) :
    (if c.x = 0 then .error failure else f <$> c.load (i.operand 0).address).toOption
      = ((number? c.memory (operand i)).bind g).map Int64.ofInt := by
  by_cases hzero : c.x = 0
  · simp only [if_pos hzero] at h ⊢
    rw [bind_number?]
    cases c.memory.read? (i.operand 0).address with
    | none => rfl
    | some w => exact (h w).symm
  · simp only [if_neg hzero] at h ⊢
    exact toOption_map_load h

/-- What an operation on memory and X leaves in X. -/
theorem toOption_result_memory {op : Opcode} {f : Int → Int → Option Int}
    (hop : i.op? = some op) (hrule : ofNumber op.code.toNat = .memory f) :
    (c.result i).toOption
      = ((number? c.memory (operand i)).bind (f · c.x.toInt)).map Int64.ofInt := by
  -- Operations with another kind of rule go, the others bring the function of the table.
  cases op <;> cases hrule <;> simp only [Core.result, hop]
  case divide.refl => exact toOption_map_load_of_ne fun w => map_quotient? w c.x
  case remainder.refl => exact toOption_map_load_of_ne fun w => map_remainder? w c.x
  case load.refl =>
    rw [← id_map (c.load _)]
    exact toOption_map_load fun w => congrArg some (Int64.ofInt_toInt w)
  all_goals refine toOption_map_load fun w => congrArg some ?_
  case or.refl => exact ofInt_bitwise_or w c.x
  case and.refl => exact ofInt_bitwise_and w c.x
  case xor.refl => exact ofInt_bitwise_xor w c.x
  case gt.refl | lt.refl => simp only [ofInt_truth, gt_iff_lt, Int64.lt_iff_toInt_lt]
  case gteq.refl | lteq.refl => simp only [ofInt_truth, ge_iff_le, Int64.le_iff_toInt_le]
  case equals.refl => simp only [ofInt_truth, Int64.toInt_inj]
  case add.refl | subtract.refl | multiply.refl => simp

/-- What an operation on X and the operand leaves in X. -/
theorem toOption_result_value {op : Opcode} {f : Int → Int → Option Int}
    (hop : i.op? = some op) (hrule : ofNumber op.code.toNat = .value f) :
    (c.result i).toOption = (f c.x.toInt (operand i)).map Int64.ofInt := by
  rw [toInt_operand]
  cases op <;> cases hrule <;> simp only [Core.result, hop]
  case divideI.refl =>
    rw [map_quotient?]
    split <;> rfl
  case remainderI.refl =>
    rw [map_remainder?]
    split <;> rfl
  all_goals refine congrArg some (Eq.symm ?_)
  case invert.refl => exact ofInt_bitwise_not c.x 0
  case orI.refl => exact ofInt_bitwise_or c.x (i.operand 0)
  case andI.refl => exact ofInt_bitwise_and c.x (i.operand 0)
  case xorI.refl => exact ofInt_bitwise_xor c.x (i.operand 0)
  case not.refl => simp only [ofInt_truth, Word.toInt_eq_zero_iff]
  case loadI.refl => exact Int64.ofInt_toInt _
  case negate.refl | addI.refl | subtractI.refl | multiplyI.refl => simp
  all_goals rfl

end Rule

/-! ### One instruction -/

/-- The core that an instruction begun in this one leaves behind if it completes at once. -/
def Core.completed? (c : Core) (i : Instruction) : Option Core :=
  match Execution.prepare c i with
  | .error _ => none
  | .ok t =>
    match t.value.perform c none with
    | .ok ⟨(c', none), _⟩ => some c'
    | _ => none

namespace Rule

variable {c : Core} {i : Instruction}

/-- Table and machine both give no answer, or the machine has made the effect of the table. -/
inductive Agrees (c : Core) : Option Effect → Option Core → Prop
  | neither : Agrees c none none
  | both {e : Effect} {c' : Core} (hmade : e.Made c c') : Agrees c (some e) (some c')

theorem toNat_succ (a : Address) : ((a + 1).toNat : Int) = ((a.toNat : Int) + 1) % UInt64.size := by
  have hone : (1 : UInt64).toNat = 1 := rfl
  rw [UInt64.toNat_add, hone, UInt64.size]
  omega

theorem made_assigned (c : Core) (n : Int) :
    Effect.Made { pc := c.pc.toNat + 1, x := n } c { c with x := .ofInt n, pc := c.pc + 1 } where
  pc := toNat_succ c.pc
  x := Int64.toInt_ofInt
  unstored _ := rfl
  stored _ _ hsome := by cases hsome
  input := rfl
  unsent _ := rfl
  sent _ hsome := by cases hsome

theorem made_moved (c : Core) :
    Effect.Made { pc := c.pc.toNat + 1, x := c.x.toInt } c { c with pc := c.pc + 1 } := by
  have hmade := made_assigned c c.x.toInt
  rw [Int64.ofInt_toInt] at hmade
  exact hmade

theorem stored_of_write? {m m' : Memory} {a : Int} {w : Word}
    (hwrite : m.write? (.ofInt a) w = some m') : Stored m m' a w.toInt where
  size := Memory.size_write? hwrite
  word := by
    rw [number?, Memory.read?_write? hwrite]
    exact congrArg some w.toInt_bmod.symm
  rest position hcovers := by rw [Memory.byte?_write? hwrite, if_neg hcovers]

/-- An operation of which nothing is noted only moves on. -/
theorem agrees_move {sent : List Signal}
    (hprepare : Execution.prepare c i = .ok ⟨⟨c.pc, i, .nothing⟩, sent⟩) :
    Agrees c (effect? .move c i) (c.completed? i) := by
  simp only [Core.completed?, hprepare]
  exact .both (made_moved c)

/-- The rule is to compute X. -/
def assigns : Rule → Bool
  | .memory _ | .value _ => true
  | _ => false

theorem agrees_assign {op : Opcode} {n? : Option Int} (hop : i.op? = some op)
    (hassigns : (ofNumber op.code.toNat).assigns = true)
    (hresult : (c.result i).toOption = n?.map Int64.ofInt) :
    Agrees c (n?.map ({ pc := c.pc.toNat + 1, x := · })) (c.completed? i) := by
  have hnoted : op ≠ .interrupt ∧ Execution.prepare c i = .ok ⟨⟨c.pc, i, .x c.x⟩, []⟩ := by
    cases op <;> cases hassigns <;> simp [Execution.prepare, hop]
  obtain ⟨hne, hprepare⟩ := hnoted
  have hcomputes : i.op? ≠ some .interrupt := by
    rw [hop]
    exact fun h => hne (Option.some.inj h)
  simp only [Core.completed?, hprepare, Execution.perform, if_neg hcomputes]
  cases n? with
  | none =>
    cases hvalue : c.result i with
    | error failure => exact .neither
    | ok w => rw [hvalue] at hresult; cases hresult
  | some n =>
    cases hvalue : c.result i with
    | error failure => rw [hvalue] at hresult; cases hresult
    | ok w =>
      rw [hvalue] at hresult
      cases hresult
      exact .both (made_assigned c n)

theorem agrees_store (hop : i.op? = some .set) :
    Agrees c (effect? .store c i) (c.completed? i) := by
  have hread : number? c.memory (operand i)
      = (c.memory.read? (i.operand 0).address).map (·.toInt) := by rw [number?, ofInt_operand]
  simp only [effect?, hread, Core.completed?, Execution.prepare, hop, Core.load]
  cases hold : c.memory.read? (i.operand 0).address with
  | none => exact .neither
  | some old =>
    obtain ⟨memory, hwrite⟩ := (Memory.read?_eq_some_iff.1 hold).1.write? c.x
    have hmade : Effect.Made
        { pc := c.pc.toNat + 1, x := c.x.toInt, stored? := some (operand i, c.x.toInt) } c
        { c with memory, pc := c.pc + 1 } :=
      { made_moved c with
        unstored := fun hnone => by cases hnone
        stored := fun a v hsome => by
          cases hsome
          exact stored_of_write? (by rw [ofInt_operand, hwrite]) }
    simp only [bind, Except.bind, pure, Except.pure, Execution.perform, Core.store, hwrite]
    exact .both hmade

theorem succ_eq_zero_iff (a : Address) :
    a + 1 = 0 ↔ ¬ (a.toNat : Int) + 1 < UInt64.size := by
  have hone : (1 : UInt64).toNat = 1 := rfl
  have hzero : (0 : UInt64).toNat = 0 := rfl
  have hlt := a.toNat_lt
  rw [← UInt64.toNat_inj, UInt64.toNat_add, hone, hzero, UInt64.size]
  omega

theorem agrees_branch {taken : Int → Bool}
    (hprepare : Execution.prepare c i = .ok ⟨⟨c.pc, i, .pc c.pc⟩, []⟩)
    (htarget : c.target i = if taken c.x.toInt then .ok (i.operand 0).address
      else if c.pc + 1 = 0 then .error (.fault .counterOverflow) else .ok (c.pc + 1)) :
    Agrees c (effect? (.branch taken) c i) (c.completed? i) := by
  have hmade : Effect.Made { pc := operand i, x := c.x.toInt } c
      { c with pc := (i.operand 0).address } :=
    { made_moved c with
      pc := by rw [toInt_operand]; exact Word.toNat_address _ }
  simp only [effect?, Core.completed?, hprepare, Execution.perform, htarget]
  by_cases htaken : taken c.x.toInt = true
  · simp only [if_pos htaken]
    exact .both hmade
  · by_cases hlast : c.pc + 1 = 0
    · simp only [if_neg htaken, if_pos hlast, if_neg ((succ_eq_zero_iff _).1 hlast)]
      exact .neither
    · have hbelow : (c.pc.toNat : Int) + 1 < UInt64.size :=
        Decidable.of_not_not fun h => hlast ((succ_eq_zero_iff _).2 h)
      simp only [if_neg htaken, if_neg hlast, if_pos hbelow]
      exact .both (made_moved c)

theorem agrees_read (hop : i.op? = some .interrupt)
    (hservice : Service.ofOperand? (i.operand 0) = some .read) :
    Agrees c
      (c.input.buffer.head?.bind fun w => (number? c.memory c.x.toInt).map fun _ =>
        { pc := c.pc.toNat + 1, x := c.x.toInt, stored? := some (c.x.toInt, w.toInt),
          takes := true })
      (c.completed? i) := by
  have hnumber : number? c.memory c.x.toInt = (c.memory.read? c.x.address).map (·.toInt) := by
    rw [number?, Table.ofInt_toInt_address]
  rw [hnumber]
  simp only [Core.completed?, Execution.prepare, hop, Execution.perform, if_true, Core.interrupt,
    hservice, Core.nextInput, Core.receive, Core.channel, Channel.read, Core.setChannel]
  cases hbuffer : c.input.buffer with
  | nil => exact .neither
  | cons w ws =>
    simp only [Core.store]
    cases hold : c.memory.read? c.x.address with
    | none =>
      simp only [Memory.write?_eq_none hold]
      exact .neither
    | some old =>
      obtain ⟨memory, hwrite⟩ := (Memory.read?_eq_some_iff.1 hold).1.write? w
      simp only [hwrite]
      refine .both { made_moved c with
        unstored := fun hnone => by cases hnone
        stored := fun a v hsome => by
          cases hsome
          exact stored_of_write? (by rw [Table.ofInt_toInt_address, hwrite]; rfl)
        input := ?_ }
      rw [hbuffer]
      rfl

theorem agrees_interrupt (hop : i.op? = some .interrupt) :
    Agrees c (effect? .interrupt c i) (c.completed? i) := by
  have hread : operand i = 0 ↔ Service.ofOperand? (i.operand 0) = some .read := by
    rw [toInt_operand]
    exact (Service.ofOperand?_eq_some_iff (s := .read)).symm
  have hwrite : operand i = 1 ↔ Service.ofOperand? (i.operand 0) = some .write := by
    rw [toInt_operand]
    exact (Service.ofOperand?_eq_some_iff (s := .write)).symm
  simp only [effect?, hread, hwrite]
  cases hservice : Service.ofOperand? (i.operand 0) with
  | none =>
    simp only [Core.completed?, Execution.prepare, hop, Execution.perform, if_true, Core.interrupt,
      hservice]
    exact .both (made_moved c)
  | some service =>
    cases service with
    | read => exact agrees_read hop hservice
    | write =>
      simp only [Core.completed?, Execution.prepare, hop, Execution.perform, if_true,
        Core.interrupt, hservice]
      exact .both { made_moved c with
        unsent := fun hnone => by cases hnone
        sent := fun v hsome => by
          cases hsome
          exact ⟨c.x, c.x.toInt_bmod.symm, rfl⟩ }

theorem ofNumber_of_unknown (hop : i.op? = none) : ofNumber i.code.toNat = .move := by
  unfold ofNumber
  split
  all_goals first
    | rfl
    | rename_i hcode
      rw [Instruction.op?, ← UInt8.ofNat_toNat (x := i.code), hcode] at hop
      exact absurd hop (by decide)

/-- A single instruction does what the table says. -/
theorem agrees (c : Core) (i : Instruction) :
    Agrees c (effect? (ofNumber i.code.toNat) c i) (c.completed? i) := by
  cases hop : i.op? with
  | none =>
    have hprepare : Execution.prepare c i
        = .ok ⟨⟨c.pc, i, .nothing⟩, [.diagnostic (.unhandled i c.pc)]⟩ := by
      simp only [Execution.prepare, hop]
    rw [ofNumber_of_unknown hop]
    exact agrees_move hprepare
  | some op =>
    have hcode : i.code = op.code := Opcode.ofCode?_eq_some_iff.1 hop
    rw [hcode]
    cases hrule : ofNumber op.code.toNat with
    | move =>
      have hprepare : Execution.prepare c i = .ok ⟨⟨c.pc, i, .nothing⟩, []⟩ := by
        cases op <;> cases hrule <;> simp only [Execution.prepare, hop]
      exact agrees_move hprepare
    | memory f =>
      exact agrees_assign hop (by rw [hrule]; rfl) (toOption_result_memory hop hrule)
    | value f =>
      exact agrees_assign hop (by rw [hrule]; rfl) (toOption_result_value hop hrule)
    | store =>
      have hset : op = .set := by cases op <;> first | rfl | cases hrule
      exact agrees_store (hset ▸ hop)
    | branch taken =>
      have hprepare : Execution.prepare c i = .ok ⟨⟨c.pc, i, .pc c.pc⟩, []⟩ := by
        cases op <;> cases hrule <;> simp only [Execution.prepare, hop]
      refine agrees_branch hprepare ?_
      cases op <;> cases hrule <;> simp only [Core.target, hop, ne_eq, Word.toInt_eq_zero_iff]
    | interrupt =>
      have hinterrupt : op = .interrupt := by cases op <;> first | rfl | cases hrule
      exact agrees_interrupt (hinterrupt ▸ hop)

end Rule

namespace Machine

variable {m : Machine} {i : Instruction}

/-- An instruction that is begun is complete after the step if it completes at once, and joins the
executions. Otherwise none joins them. -/
theorem step_of_next (hidle : m.suspended = none) (hnext : m.next? = some i) :
    m.completes = (m.core.completed? i).isSome ∧
      ∀ c, m.core.completed? i = some c →
        ∃ x : Execution, x.index = m.pc ∧ x.instruction = i ∧
          m.step.state = { m with core := c, past := x :: m.past } := by
  have hwaiting : m.isWaiting = false := by rw [Engine.isWaiting, hidle]; rfl
  have hstep : m.step.state = { m with toEngine := (m.toEngine.execute i).state } := by
    rw [step_of_idle hidle hnext]
    rfl
  cases hprepare : Execution.prepare m.core i with
  | error failure =>
    simp [completes, hstep, Engine.execute, hwaiting, Core.completed?, hprepare]
  | ok t =>
    obtain ⟨hinstruction, hprepared⟩ := Execution.prepared_of_prepare hprepare
    cases hperform : t.value.perform m.core none with
    | error failure =>
      simp [completes, hstep, Engine.execute, hwaiting, Core.completed?, hprepare, Engine.attempt,
        hperform]
    | ok r =>
      obtain ⟨⟨c, ticket⟩, sent⟩ := r
      simp only [completes, hstep, Engine.execute, hwaiting, Core.completed?, hprepare,
        Engine.attempt, hperform, Bool.false_eq_true, if_false]
      cases ticket with
      | some ticket => simp
      | none =>
        refine ⟨by simp, fun c' hc => ⟨t.value, hprepared.index, hinstruction, ?_⟩⟩
        cases hc
        rw [← hidle]

/-- An instruction at the counter of a machine that does not wait is completed exactly if the table
has an effect for it. The step then makes this effect, files one execution and changes nothing else
of the machine. -/
theorem step_follows_table {m : Machine} {i : Instruction} (hidle : m.suspended = none)
    (hnext : m.next? = some i) :
    (m.completes = true ↔ ((Rule.ofNumber i.code.toNat).effect? m.core i).isSome = true) ∧
      ∀ e, (Rule.ofNumber i.code.toNat).effect? m.core i = some e →
        e.Made m.core m.step.state.core ∧
          ∃ x : Execution, x.index = m.pc ∧ x.instruction = i ∧
            m.step.state = { m with core := m.step.state.core, past := x :: m.past } := by
  obtain ⟨hcompletes, hstate⟩ := step_of_next hidle hnext
  have hagrees := Rule.agrees m.core i
  rw [hcompletes]
  generalize (Rule.ofNumber i.code.toNat).effect? m.core i = effect? at hagrees
  generalize m.core.completed? i = completed? at hagrees hstate
  cases hagrees with
  | neither => exact ⟨Iff.rfl, fun e he => by cases he⟩
  | @both made c hmade =>
    refine ⟨Iff.rfl, fun e he => ?_⟩
    cases he
    obtain ⟨x, hindex, hinstruction, hstep⟩ := hstate c rfl
    rw [hstep]
    exact ⟨hmade, x, hindex, hinstruction, rfl⟩

/-- The one division whose quotient is no word: the smallest word by -1. -/
def overflowing : Machine where
  core := { x := -1, memory := ⟨⟨#[0, 0, 0, 0, 0, 0, 0, 128, 7]⟩⟩ }
  program := some (.eachAlone [⟨104, [0, 5]⟩])

theorem step_follows_table_overflowing :
    overflowing.completes = true ∧ overflowing.step.state.core.x = Int64.minValue ∧
      overflowing.step.state.core.pc = 1 ∧
      overflowing.step.state.core.memory = overflowing.core.memory := by
  have heffect : (Rule.ofNumber 104).effect? overflowing.core ⟨104, [0, 5]⟩
      = some { pc := 1, x := 9223372036854775808 } := by decide +kernel
  obtain ⟨hiff, hmade⟩ := step_follows_table (m := overflowing) (i := ⟨104, [0, 5]⟩) rfl rfl
  obtain ⟨hmade, -⟩ := hmade _ heffect
  have hx : overflowing.step.state.core.x.toInt = Int64.minValue.toInt := hmade.x
  have hpc : (overflowing.step.state.core.pc.toNat : Int) = 1 := hmade.pc
  refine ⟨hiff.2 (Option.isSome_of_eq_some heffect), Int64.toInt_inj.1 hx, ?_, hmade.unstored rfl⟩
  exact UInt64.toNat_inj.1 (Int.ofNat_inj.1 hpc)

end Machine

end Backstep
