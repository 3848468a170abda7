import Backstep.Word
/-!
# Word memory

Memory is a row of bytes, read and written a whole word at a time at any address, aligned or not.
A word that reaches past the last byte can be neither read nor written. Every change but the copying
of an image is told to observers: a store byte by byte in ascending order and then as one word.
-/

namespace Backstep

structure Memory where
  bytes : ByteArray

instance : DecidableEq Memory := fun m n =>
  match ByteArray.decEq m.bytes n.bytes with
  | .isTrue h => .isTrue (congrArg Memory.mk h)
  | .isFalse h => .isFalse fun hmn => h (congrArg Memory.bytes hmn)

namespace Memory

inductive Notice
  | byte (address : Address) (value : UInt8)
  | word (address : Address) (value : Word)
  | cleared
deriving DecidableEq

def zeroed (size : Nat) : Memory := ⟨⟨Array.replicate size 0⟩⟩

def size (m : Memory) : Nat := m.bytes.size

/-- The whole word at the address lies inside. -/
def Holds (m : Memory) (a : Address) : Prop := a.toNat + 8 ≤ m.size

instance (m : Memory) (a : Address) : Decidable (m.Holds a) := inferInstanceAs (Decidable (_ ≤ _))

/-- Puts a byte at a position, if it is not past the end. -/
def put (cells : ByteArray) (position : Nat) (b : UInt8) : ByteArray :=
  if h : position < cells.size then cells.set position b h else cells

@[simp] theorem data_put (cells : ByteArray) (position : Nat) (b : UInt8) :
    (put cells position b).data = cells.data.setIfInBounds position b := by
  have size : cells.data.size = cells.size := ByteArray.size_data
  unfold put Array.setIfInBounds
  simp only [size]
  split <;> rfl

@[simp] theorem size_put (cells : ByteArray) (position : Nat) (b : UInt8) :
    (put cells position b).size = cells.size := by
  rw [← ByteArray.size_data, data_put, Array.size_setIfInBounds, ByteArray.size_data]

/-- Puts bytes one after another from a position on; those past the end are dropped. -/
def splice (cells : ByteArray) (position : Nat) : List UInt8 → ByteArray
  | [] => cells
  | b :: bs => splice (put cells position b) (position + 1) bs

@[simp] theorem size_splice (cells : ByteArray) (position : Nat) (bs : List UInt8) :
    (splice cells position bs).size = cells.size := by
  induction bs generalizing cells position with
  | nil => rfl
  | cons b bs ih => rw [splice, ih, size_put]

/-- The eight bytes from an address on, as far as memory reaches. -/
def bytesAt (m : Memory) (a : Address) : List UInt8 :=
  (m.bytes.extract a.toNat (a.toNat + 8)).data.toList

def read? (m : Memory) (a : Address) : Option Word :=
  if m.Holds a then some (Word.ofBytes (m.bytesAt a)) else none

def write? (m : Memory) (a : Address) (w : Word) : Option Memory :=
  if m.Holds a then some ⟨splice m.bytes a.toNat w.bytes⟩ else none

/-- What a store tells: its eight bytes in ascending order, then the word. -/
def storeNotices (a : Address) (w : Word) : List Notice :=
  (Word.bytes w).zipIdx.map (fun (b, i) => .byte (a + UInt64.ofNat i) b) ++ [.word a w]

def cleared (m : Memory) : Memory := zeroed m.size

/-- The image stands at the start of memory; what does not fit is cut off. -/
def withImage (m : Memory) (image : List UInt8) : Memory := ⟨splice m.bytes 0 image⟩

@[simp] theorem size_zeroed (n : Nat) : (zeroed n).size = n := Array.size_replicate

@[simp] theorem size_cleared (m : Memory) : m.cleared.size = m.size := size_zeroed _

@[simp] theorem size_withImage (m : Memory) (image : List UInt8) :
    (m.withImage image).size = m.size := by simp only [withImage, size, size_splice]

theorem size_write? {m m' : Memory} {a : Address} {w : Word} (h : m.write? a w = some m') :
    m'.size = m.size := by
  rw [write?, Option.ite_none_right_eq_some, Option.some.injEq] at h
  rw [← h.2]
  simp only [size, size_splice]

def summary (m : Memory) : String := "Memory \x7b size: " ++ toString m.size ++ " \x7d"

end Memory

end Backstep
