import Backstep.WordMemory
/-!
# Memory, byte by byte

What a store does is said of single bytes: the eight it covers become those of the word, and no
other changes. Reading collects the same eight, so storing a word that was read somewhere puts back
each of these bytes as it was. Everything that is taken back later rests on this.
-/

namespace Backstep

namespace LittleEndian

theorem decode_lt (bs : List UInt8) : decode bs < range bs.length := by
  induction bs with
  | nil => exact Nat.one_pos
  | cons b bs ih =>
    have hb : b.toNat < 256 := b.toNat_lt
    rw [decode, List.length_cons, range]
    omega

theorem encode_decode (bs : List UInt8) : encode bs.length (decode bs) = bs := by
  induction bs with
  | nil => rfl
  | cons b bs ih =>
    have hb : b.toNat < 256 := b.toNat_lt
    have hlow : (b.toNat + 256 * decode bs) % 256 = b.toNat := by omega
    have hhigh : (b.toNat + 256 * decode bs) / 256 = decode bs := by omega
    rw [decode, List.length_cons, encode, hhigh, ih]
    refine congrArg (· :: bs) (UInt8.toNat.inj ?_)
    rw [UInt8.toNat_ofNat', hlow]

end LittleEndian

namespace Word

theorem bytes_ofBytes {bs : List UInt8} (hlength : bs.length = 8) : bytes (ofBytes bs) = bs := by
  have hlt : LittleEndian.decode bs < UInt64.size := by
    have := LittleEndian.decode_lt bs
    rw [hlength] at this
    exact this
  have hback := LittleEndian.encode_decode bs
  rw [hlength] at hback
  rw [bytes, ofBytes, UInt64.toUInt64_toInt64, UInt64.toNat_ofNat', Nat.mod_eq_of_lt hlt, hback]

theorem ofBytes_bytes (w : Word) : ofBytes w.bytes = w := by
  have hlt : w.toUInt64.toNat < LittleEndian.range 8 := w.toUInt64.toNat_lt
  rw [ofBytes, bytes, LittleEndian.decode_encode, Nat.mod_eq_of_lt hlt, UInt64.ofNat_toNat,
    Int64.toInt64_toUInt64]

/-- A word that fits as a signed number lies inside as an address. -/
theorem address_le_of_fits {a : Word} {size : Nat} (hfits : Fits a size) :
    a.address.toNat + 8 ≤ size := by
  obtain ⟨hnonneg, hend⟩ := hfits
  have haddress := toNat_address a
  rw [UInt64.size] at haddress
  omega

end Word

namespace Memory

/-- The byte at a position, if memory reaches that far. -/
def byte? (m : Memory) (position : Nat) : Option UInt8 := m.bytes.data[position]?

theorem ext_byte? {m n : Memory} (h : ∀ position, m.byte? position = n.byte? position) : m = n := by
  cases m
  cases n
  refine congrArg mk (ByteArray.ext (Array.ext_getElem? fun position => ?_))
  exact h position

theorem byte?_splice (cells : ByteArray) (start : Nat) (bs : List UInt8) (position : Nat)
    (hfit : start + bs.length ≤ cells.size) :
    (⟨splice cells start bs⟩ : Memory).byte? position
      = if start ≤ position ∧ position < start + bs.length then bs[position - start]?
        else (⟨cells⟩ : Memory).byte? position := by
  induction bs generalizing cells start with
  | nil =>
    rw [splice, if_neg]
    simp only [List.length_nil]
    omega
  | cons b bs ih =>
    have hsize : cells.data.size = cells.size := ByteArray.size_data
    rw [List.length_cons] at hfit
    rw [splice, ih (put cells start b) (start + 1) (by rw [size_put]; omega)]
    rcases Nat.lt_trichotomy position start with hlt | heq | hgt
    · rw [if_neg (by omega), if_neg (by omega)]
      simp only [byte?, data_put]
      exact Array.getElem?_setIfInBounds_ne (by omega)
    · subst heq
      rw [if_neg (by omega), if_pos (by simp only [List.length_cons]; omega), Nat.sub_self]
      simp only [byte?, data_put, List.getElem?_cons_zero]
      exact Array.getElem?_setIfInBounds_self_of_lt (by omega)
    · have hindex : position - start = position - (start + 1) + 1 := by omega
      rw [hindex, List.getElem?_cons_succ]
      by_cases hin : position < start + 1 + bs.length
      · rw [if_pos (by omega), if_pos (by simp only [List.length_cons]; omega)]
      · rw [if_neg (by omega), if_neg (by simp only [List.length_cons]; omega)]
        simp only [byte?, data_put]
        exact Array.getElem?_setIfInBounds_ne (by omega)

/-- Whether or not all of the bytes fit, no other is changed. -/
theorem byte?_splice_outside (cells : ByteArray) (start : Nat) (bs : List UInt8) {position : Nat}
    (houtside : position < start ∨ start + bs.length ≤ position) :
    (⟨splice cells start bs⟩ : Memory).byte? position = (⟨cells⟩ : Memory).byte? position := by
  induction bs generalizing cells start with
  | nil => rfl
  | cons b bs ih =>
    rw [List.length_cons] at houtside
    rw [splice, ih _ _ (by omega)]
    simp only [byte?, data_put]
    exact Array.getElem?_setIfInBounds_ne (by omega)

theorem eq_zero_of_byte?_zeroed {n position : Nat} {b : UInt8}
    (h : (zeroed n).byte? position = some b) : b = 0 := by
  obtain ⟨hposition, hzero⟩ := Array.getElem?_eq_some_iff.1 h
  rw [← hzero]
  exact Array.getElem_replicate hposition

/-- The address covers a position if the word there has a byte at it. -/
def Covers (a : Address) (position : Nat) : Prop :=
  a.toNat ≤ position ∧ position < a.toNat + 8

instance (a : Address) (position : Nat) : Decidable (Covers a position) :=
  inferInstanceAs (Decidable (_ ∧ _))

variable {m m' : Memory} {a : Address} {w old : Word}

theorem write?_eq_some_iff :
    m.write? a w = some m' ↔ m.Holds a ∧ m' = ⟨splice m.bytes a.toNat w.bytes⟩ := by
  rw [write?, Option.ite_none_right_eq_some, Option.some.injEq, eq_comm (a := m')]

theorem read?_eq_some_iff : m.read? a = some w ↔ m.Holds a ∧ w = Word.ofBytes (m.bytesAt a) := by
  rw [read?, Option.ite_none_right_eq_some, Option.some.injEq, eq_comm (a := w)]

theorem Holds.write? (hholds : m.Holds a) (w : Word) : ∃ m', m.write? a w = some m' :=
  ⟨_, write?_eq_some_iff.2 ⟨hholds, rfl⟩⟩

theorem Holds.read? (hholds : m.Holds a) : ∃ w, m.read? a = some w :=
  ⟨_, read?_eq_some_iff.2 ⟨hholds, rfl⟩⟩

theorem write?_eq_none (hread : m.read? a = none) (w : Word) : m.write? a w = none := by
  by_cases hholds : m.Holds a
  · obtain ⟨v, hsome⟩ := hholds.read?
    rw [hread] at hsome
    cases hsome
  · exact if_neg hholds

/-- A store changes the bytes that its address covers, and no other. -/
theorem byte?_write? (hwrite : m.write? a w = some m') (position : Nat) :
    m'.byte? position
      = if Covers a position then w.bytes[position - a.toNat]? else m.byte? position := by
  obtain ⟨hholds, rfl⟩ := write?_eq_some_iff.1 hwrite
  rw [byte?_splice _ _ _ _ (by rw [Word.length_bytes]; exact hholds), Word.length_bytes]
  rfl

/-- The bytes of a word that was read are those that its address covers. -/
theorem byte?_of_read? (hread : m.read? a = some w) {position : Nat} (hcovers : Covers a position) :
    w.bytes[position - a.toNat]? = m.byte? position := by
  obtain ⟨hholds, rfl⟩ := read?_eq_some_iff.1 hread
  have hsize : m.bytes.data.size = m.bytes.size := ByteArray.size_data
  have hbound : a.toNat + 8 ≤ m.bytes.size := hholds
  have hlength : (m.bytesAt a).length = 8 := by
    simp only [bytesAt, ByteArray.data_extract, Array.length_toList, Array.size_extract]
    omega
  rw [Word.bytes_ofBytes hlength, byte?]
  simp only [bytesAt, ByteArray.data_extract, Array.getElem?_toList]
  obtain ⟨hle, hlt⟩ := hcovers
  rw [Array.getElem?_extract, if_pos (by omega), Nat.add_sub_of_le hle]

theorem read?_write? (hwrite : m.write? a w = some m') : m'.read? a = some w := by
  have hholds : m'.Holds a := by
    rw [Holds, size_write? hwrite]
    exact (write?_eq_some_iff.1 hwrite).1
  obtain ⟨v, hread⟩ := hholds.read?
  have hbytes : v.bytes = w.bytes := by
    refine List.ext_getElem? fun i => ?_
    by_cases hi : i < 8
    · have hcovers : Covers a (a.toNat + i) := ⟨Nat.le_add_right _ _, by omega⟩
      have hbyte := (byte?_of_read? hread hcovers).trans (byte?_write? hwrite _)
      rw [if_pos hcovers, Nat.add_sub_cancel_left] at hbyte
      exact hbyte
    · rw [List.getElem?_eq_none (by rw [Word.length_bytes]; omega),
        List.getElem?_eq_none (by rw [Word.length_bytes]; omega)]
  rw [hread, ← Word.ofBytes_bytes v, hbytes, Word.ofBytes_bytes]

/-- Storing the word that stood somewhere undoes a store there. -/
theorem write?_read? (hread : m.read? a = some old) (hwrite : m.write? a w = some m') :
    m'.write? a old = some m := by
  have hholds : m'.Holds a := by
    rw [Holds, size_write? hwrite]
    exact (write?_eq_some_iff.1 hwrite).1
  obtain ⟨n, hback⟩ := hholds.write? old
  rw [hback]
  refine congrArg some (ext_byte? fun position => ?_)
  rw [byte?_write? hback]
  split
  · rename_i hcovers
    exact byte?_of_read? hread hcovers
  · rename_i hcovers
    rw [byte?_write? hwrite, if_neg hcovers]

end Memory

end Backstep
