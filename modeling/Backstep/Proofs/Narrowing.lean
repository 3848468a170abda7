import Backstep.Program.Basic
import Backstep.Proofs.Overwriting
/-!
# Narrow variables

A variable fills a whole word of memory but may be declared less wide, and then only the low bytes
of the word are its own. Its value is the signed number that these bytes spell: moving them to the
top of a word and back copies the sign into the bytes that are not its own. Nothing that stands
behind them matters, and a number that the bytes have room for is read back as it was stored.
-/

namespace Backstep

/-- Both numbers made equally many times as large leave a remainder that is made so as well. -/
theorem bmod_mul_right {a : Int} {half c : Nat} (hc : 0 < c) :
    Int.bmod (a * c) (2 * half * c) = Int.bmod a (2 * half) * c := by
  have hpositive : (0 : Int) < c := Int.natCast_pos.2 hc
  have hrest : a * c % (2 * half * c : Nat) = a % (2 * half : Nat) * c := by
    rw [Int.natCast_mul, Int.mul_comm a, Int.mul_comm _ (c : Int),
      Int.mul_emod_mul_of_pos _ _ hpositive, Int.mul_comm]
  have hhalf : ∀ n : Nat, ((2 * n : Nat) + 1 : Int) / 2 = n := fun n => by omega
  have hbound : a % (2 * half : Nat) * c < (half * c : Nat) ↔ a % (2 * half : Nat) < half := by
    rw [Int.natCast_mul half c]
    exact Int.mul_lt_mul_right hpositive
  rw [Int.bmod_def, Int.bmod_def, hrest, Nat.mul_assoc 2 half c, hhalf, hhalf]
  simp only [hbound]
  split
  · rfl
  · rw [Int.sub_mul, ← Nat.mul_assoc, Int.natCast_mul _ c]

namespace Word

/-! ### Narrowing a word -/

/-- No amount that a word is shifted by is reduced. -/
theorem toNat_smod_ofNat :
    ∀ amount < 64, ((Int64.ofNat amount).toBitVec.smod 64).toNat = amount := by
  decide +kernel

/-- The lowest bits are moved to the top of a word and back, which leaves the signed number that
they are. -/
theorem toInt_shiftLeft_shiftRight (w : Word) {amount : Nat} (hlt : amount < 64) :
    ((w <<< Int64.ofNat amount) >>> Int64.ofNat amount).toInt
      = Int.bmod w.toInt (2 ^ (64 - amount)) := by
  have hpositive : 0 < 2 ^ amount := Nat.two_pow_pos amount
  have hhalf : 2 ^ (64 - amount) = 2 * 2 ^ (63 - amount) := by
    rw [← Nat.pow_succ']
    congr 1
    omega
  have hsize : 2 ^ 64 = 2 * 2 ^ (63 - amount) * 2 ^ amount := by
    rw [← hhalf, ← Nat.pow_add]
    congr 1
    omega
  have htop : (w.toBitVec <<< amount).toInt
      = Int.bmod w.toInt (2 ^ (64 - amount)) * (2 ^ amount : Nat) := by
    rw [BitVec.toInt_shiftLeft, Nat.shiftLeft_eq, hhalf, ← bmod_mul_right hpositive, ← hsize,
      ← Int64.toInt_toBitVec, BitVec.toInt_eq_toNat_bmod, Int.bmod_mul_bmod, Int.natCast_mul]
  rw [← Int64.toInt_toBitVec, Int64.toBitVec_shiftRight, Int64.toBitVec_shiftLeft,
    BitVec.shiftLeft_eq', BitVec.sshiftRight_eq', toNat_smod_ofNat amount hlt,
    BitVec.toInt_sshiftRight, htop, Int.shiftRight_eq_div_pow,
    Int.mul_ediv_cancel _ (Int.natCast_pos.2 hpositive).ne']

end Word

/-- How many bytes of its word are a variable's own: as many as it is declared wide, if a word has
more, and else all of them. -/
def Variable.width (v : Variable) : Nat :=
  if 1 ≤ v.size.toNat ∧ v.size.toNat ≤ 7 then v.size.toNat else 8

namespace Variable

variable {v : Variable} {w : Word}

theorem width_pos (v : Variable) : 0 < v.width := by
  unfold width
  split <;> omega

theorem width_le (v : Variable) : v.width ≤ 8 := by
  unfold width
  split <;> omega

/-- What a variable makes of its word is the signed remainder by what its bytes can count. -/
theorem toInt_narrow (v : Variable) (w : Word) :
    (w.narrow v.size).toInt = Int.bmod w.toInt (256 ^ v.width) := by
  have hsize : 1 ≤ v.size ∧ v.size ≤ 7 ↔ 1 ≤ v.size.toNat ∧ v.size.toNat ≤ 7 := by
    rw [UInt64.le_iff_toNat_le, UInt64.le_iff_toNat_le]
    rfl
  unfold Word.narrow width
  simp only [hsize]
  split
  · rename_i hnarrow
    have hbits : 256 ^ v.size.toNat = 2 ^ (64 - (64 - 8 * v.size.toNat)) := by
      rw [show 64 - (64 - 8 * v.size.toNat) = 8 * v.size.toNat by omega, Nat.pow_mul]
    rw [Word.toInt_shiftLeft_shiftRight w (by omega), hbits]
  · have hlow := w.le_toInt
    have hhigh := w.toInt_lt
    exact (Int.bmod_eq_of_le (by omega) (by omega)).symm

/-- The numbers that a variable's own bytes have room for. -/
def HasRoom (v : Variable) (z : Int) : Prop :=
  -2 ^ (8 * v.width - 1) ≤ z ∧ z < 2 ^ (8 * v.width - 1)

instance (v : Variable) (z : Int) : Decidable (v.HasRoom z) := inferInstanceAs (Decidable (_ ∧ _))

theorem pow_width (v : Variable) : 256 ^ v.width = 2 * 2 ^ (8 * v.width - 1) := by
  have hbits : (8 * v.width - 1).succ = 8 * v.width := by
    have hpositive := v.width_pos
    omega
  rw [← Nat.pow_succ', hbits, Nat.pow_mul]

theorem hasRoom_bmod (v : Variable) (z : Int) : v.HasRoom (Int.bmod z (256 ^ v.width)) := by
  have hpositive : 0 < 256 ^ v.width := Nat.pow_pos (by decide)
  have hlow := Int.le_bmod (x := z) hpositive
  have hhigh := Int.bmod_lt (x := z) hpositive
  rw [v.pow_width] at hlow hhigh ⊢
  push_cast at hlow hhigh ⊢
  exact ⟨by omega, by omega⟩

theorem bmod_of_hasRoom {z : Int} (h : v.HasRoom z) : Int.bmod z (256 ^ v.width) = z := by
  obtain ⟨hlow, hhigh⟩ := h
  have hpow : ((256 ^ v.width : Nat) : Int) = 2 * 2 ^ (8 * v.width - 1) := by
    rw [v.pow_width]
    push_cast
    rfl
  exact Int.bmod_eq_of_le (by omega) (by omega)

end Variable

namespace Memory

/-- The signed number that so many bytes spell from a position on, least significant first. -/
def signedAt (m : Memory) (start width : Nat) : Int :=
  Int.bmod (∑ k ∈ Finset.range width, ((m.byte? (start + k)).getD 0).toNat * 256 ^ k : Nat)
    (256 ^ width)

variable {m n : Memory} {a : Address} {w : Word} {width : Nat}

theorem signedAt_of_read? (hread : m.read? a = some w) (hle : width ≤ 8) :
    m.signedAt a.toNat width = Int.bmod w.toInt (256 ^ width) := by
  rw [w.bmod_eq_bmod_sum hle, signedAt]
  congr 2
  refine Finset.sum_congr rfl fun k hk => ?_
  have hlt := Finset.mem_range.1 hk
  rw [byte?_eq_byte hread ⟨Nat.le_add_right _ _, by omega⟩, Nat.add_sub_cancel_left,
    Option.getD_some]

theorem signedAt_congr {start : Nat}
    (hsame : ∀ k < width, n.byte? (start + k) = m.byte? (start + k)) :
    n.signedAt start width = m.signedAt start width := by
  rw [signedAt, signedAt]
  congr 2
  refine Finset.sum_congr rfl fun k hk => ?_
  rw [hsame k (Finset.mem_range.1 hk)]

end Memory

namespace Variable

variable {m : Memory} {v : Variable}

/-- The value is the signed number that the variable's own bytes spell. -/
theorem value?_eq_signedAt (hholds : m.Holds v.address) :
    ∃ x, v.value? m = some x ∧ x.toInt = m.signedAt v.address.toNat v.width := by
  obtain ⟨w, hread⟩ := hholds.read?
  refine ⟨w.narrow v.size, ?_, ?_⟩
  · rw [value?, hread, Option.map_some]
  · rw [Memory.signedAt_of_read? hread v.width_le, v.toInt_narrow]

/-- The value of a variable inside memory is the signed number that its own bytes spell. It is one
that these bytes have room for, and leaves the same remainder as the whole word. Memories that agree
on these bytes give it the same value, whatever stands around them, and every number that there is
room for is the value once it is stored. -/
theorem narrows_bytewise (hholds : m.Holds v.address) :
    ∃ stored x, m.read? v.address = some stored ∧ v.value? m = some x ∧
      x.toInt = m.signedAt v.address.toNat v.width ∧ v.HasRoom x.toInt ∧
      x.toInt % 2 ^ (8 * v.width) = stored.toInt % 2 ^ (8 * v.width) ∧
      (∀ n : Memory, n.Holds v.address →
        (∀ k < v.width, n.byte? (v.address.toNat + k) = m.byte? (v.address.toNat + k)) →
        v.value? n = some x) ∧
      ∀ w : Word, v.HasRoom w.toInt →
        ∃ m', m.write? v.address w = some m' ∧ v.value? m' = some w := by
  obtain ⟨stored, hread⟩ := hholds.read?
  obtain ⟨x, hvalue, hsigned⟩ := value?_eq_signedAt hholds
  have hremainder : x.toInt = Int.bmod stored.toInt (256 ^ v.width) := by
    rw [hsigned, Memory.signedAt_of_read? hread v.width_le]
  refine ⟨stored, x, hread, hvalue, hsigned, ?_, ?_, ?_, ?_⟩
  · rw [hremainder]
    exact v.hasRoom_bmod _
  · have hbits : (2 : Int) ^ (8 * v.width) = (256 ^ v.width : Nat) := by
      rw [Int.natCast_pow, Int.pow_mul]
      rfl
    rw [hremainder, hbits, Int.bmod_emod]
  · intro n hn hsame
    obtain ⟨y, hvalue', hsigned'⟩ := value?_eq_signedAt hn
    rw [hvalue', Option.some.injEq, ← Int64.toInt_inj, hsigned', hsigned,
      Memory.signedAt_congr hsame]
  · intro w hroom
    obtain ⟨m', hwrite⟩ := hholds.write? w
    refine ⟨m', hwrite, ?_⟩
    rw [value?, Memory.read?_write? hwrite, Option.map_some, Option.some.injEq,
      ← Int64.toInt_inj, v.toInt_narrow, bmod_of_hasRoom hroom]

/-- Two bytes wide, and unaligned. -/
def sampleVariable : Variable := { name := "n", address := 3, size := 2 }

/-- The two bytes spell a negative number, and the bytes around them are set. -/
theorem narrows_bytewise_unaligned :
    let m : Memory := (Memory.zeroed 16).withImage [1, 2, 3, 0xfe, 0xff, 0x7f, 9]
    m.Holds sampleVariable.address ∧ sampleVariable.HasRoom (-32768) ∧
      m.signedAt 3 2 = -2 ∧ sampleVariable.value? m = some (-2) ∧
      ∃ m', m.write? 3 (-32768) = some m' ∧ sampleVariable.value? m' = some (-32768) := by
  intro m
  have hholds : m.Holds sampleVariable.address := by decide +kernel
  have hroom : sampleVariable.HasRoom (-32768) := by decide
  have hspelled : m.signedAt 3 2 = -2 := by decide +kernel
  obtain ⟨-, x, -, hvalue, hsigned, -, -, -, hstored⟩ := narrows_bytewise hholds
  have hx : x = -2 := Int64.toInt_inj.1 (hsigned.trans hspelled)
  exact ⟨hholds, hroom, hspelled, hx ▸ hvalue, hstored _ hroom⟩

end Variable

end Backstep
