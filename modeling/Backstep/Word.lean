/-!
# Words, addresses and their bytes

A word is 64 bits read as a two's-complement integer, and all arithmetic on it wraps. It is kept in
memory as eight bytes, least significant first. An address is the number of a byte, and the same 64
bits of a word name an address when an instruction uses it as one: `-1` is the last address of all.
-/

namespace Backstep

/-- A machine word: 64 bits, two's complement, wrapping. -/
abbrev Word := Int64

/-- The number of a byte of memory, or a value of the program counter. -/
abbrev Address := UInt64

/-- A line of the source text that a program was compiled from. -/
abbrev LineNumber := UInt64

namespace LittleEndian

/-- The `width` lowest bytes of a number, least significant first. -/
def encode : (width : Nat) → Nat → List UInt8
  | 0, _ => []
  | width + 1, n => UInt8.ofNat n :: encode width (n / 256)

/-- The number that bytes denote, least significant first. -/
def decode : List UInt8 → Nat
  | [] => 0
  | b :: bs => b.toNat + 256 * decode bs

@[simp] theorem length_encode (width n : Nat) : (encode width n).length = width := by
  induction width generalizing n with
  | zero => rfl
  | succ width ih => simp [encode, ih]

/-- How many numbers a row of bytes can denote. -/
def range : (width : Nat) → Nat
  | 0 => 1
  | width + 1 => 256 * range width

/-- What the bytes of a number keep of it is its remainder. -/
theorem decode_encode (width n : Nat) : decode (encode width n) = n % range width := by
  induction width generalizing n with
  | zero => simp [encode, decode, range, Nat.mod_one]
  | succ width ih =>
    have byte : (UInt8.ofNat n).toNat = n % 256 := by simp
    rw [encode, decode, ih, byte, range, Nat.mod_mul]

end LittleEndian

namespace Word

def bytes (w : Word) : List UInt8 := LittleEndian.encode 8 w.toUInt64.toNat

/-- The word that eight bytes of memory denote. -/
def ofBytes (bs : List UInt8) : Word := (UInt64.ofNat (LittleEndian.decode bs)).toInt64

@[simp] theorem length_bytes (w : Word) : (bytes w).length = 8 :=
  LittleEndian.length_encode 8 _

def address (w : Word) : Address := w.toUInt64

/-- As an address a word is what it is modulo 2^64. -/
theorem toNat_address (w : Word) : (w.address.toNat : Int) = w.toInt % UInt64.size := by
  have hvalue := BitVec.toInt_eq_toNat_bmod w.toBitVec
  rw [Int64.toInt_toBitVec] at hvalue
  rw [hvalue, UInt64.size, Int.bmod_emod]
  exact (Int.emod_eq_of_lt (Int.natCast_nonneg _) (Int.ofNat_lt.2 w.toBitVec.isLt)).symm

theorem toInt_eq_zero_iff {w : Word} : w.toInt = 0 ↔ w = 0 := Int64.toInt_inj (y := 0)

def ofInt? (i : Int) : Option Word :=
  if Int64.minValue.toInt ≤ i ∧ i ≤ Int64.maxValue.toInt then some (Int64.ofInt i) else none

/-- `1` for a relation that holds and `0` for one that does not. -/
def ofBool (b : Bool) : Word := if b then 1 else 0

/-- The signed number in the lowest `size` bytes, for a size of one to seven; any other size keeps
the word as it is. -/
def narrow (w : Word) (size : UInt64) : Word :=
  if 1 ≤ size ∧ size ≤ 7 then
    let unused := Int64.ofNat (64 - 8 * size.toNat)
    (w <<< unused) >>> unused
  else w

/-- Eight bytes at the address fit in a memory of the given size. -/
def Fits (a : Word) (size : Nat) : Prop := 0 ≤ a.toInt ∧ a.toInt + 8 ≤ size

instance (a : Word) (size : Nat) : Decidable (Fits a size) := inferInstanceAs (Decidable (_ ∧ _))

end Word

end Backstep
