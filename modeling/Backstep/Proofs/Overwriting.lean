import Mathlib.Algebra.BigOperators.Group.Finset.Basic
import Backstep.Proofs.WordMemory
/-!
# Overwriting memory

Words lie at any address and may overlap, so a store can change a part of another word. Which part
is said by position: the word read afterwards is the signed number whose bytes are those of the
stored word where the two overlap, and the old ones elsewhere. Stores that overlap do not commute,
but they can be taken back: whoever noted what stood at each address just before it was stored to,
and stores the notes from the last to the first, has every byte again.
-/

namespace Backstep

namespace LittleEndian

/-- The bytes of a number are its digits to base 256. -/
theorem getElem?_encode (width n k : Nat) :
    (encode width n)[k]? = if k < width then some (UInt8.ofNat (n / 256 ^ k)) else none := by
  induction width generalizing n k with
  | zero => rfl
  | succ width ih =>
    cases k with
    | zero => simp [encode]
    | succ k =>
      rw [encode, List.getElem?_cons_succ, ih, Nat.div_div_eq_div_mul, ← Nat.pow_succ']
      simp only [Nat.succ_lt_succ_iff]

theorem sum_digits (width n : Nat) :
    ∑ k ∈ Finset.range width, n / 256 ^ k % 256 * 256 ^ k = n % 256 ^ width := by
  induction width with
  | zero => simp [Nat.mod_one]
  | succ width ih =>
    rw [Finset.sum_range_succ, ih, Nat.mod_pow_succ, Nat.mul_comm (256 ^ width)]

end LittleEndian

namespace Word

/-- The byte of a word that counts `256 ^ k` fold. -/
def byte (w : Word) (k : Nat) : UInt8 := UInt8.ofNat (w.address.toNat / 256 ^ k)

theorem getElem?_bytes (w : Word) (k : Nat) :
    w.bytes[k]? = if k < 8 then some (w.byte k) else none :=
  LittleEndian.getElem?_encode 8 _ k

/-- As many bytes as a width, the lowest of the word, are enough for its remainder. -/
theorem bmod_eq_bmod_sum (w : Word) {width : Nat} (hle : width ≤ 8) :
    Int.bmod w.toInt (256 ^ width)
      = Int.bmod (∑ k ∈ Finset.range width, (w.byte k).toNat * 256 ^ k : Nat) (256 ^ width) := by
  have hdigits : ∀ k, (w.byte k).toNat = w.address.toNat / 256 ^ k % 256 :=
    fun k => UInt8.toNat_ofNat'
  have hvalue : w.toInt = Int.bmod w.address.toNat (256 ^ 8) := by
    rw [← Int64.toInt_toBitVec, BitVec.toInt_eq_toNat_bmod]
    rfl
  have hdvd : 256 ^ width ∣ 256 ^ 8 := Nat.pow_dvd_pow 256 hle
  simp only [hdigits]
  rw [LittleEndian.sum_digits, Int.natCast_emod, Int.emod_bmod, hvalue,
    Int.bmod_bmod_of_dvd hdvd]

/-- A word is the signed number that its bytes spell, least significant first. -/
theorem toInt_eq_bmod_sum (w : Word) :
    w.toInt = Int.bmod (∑ k ∈ Finset.range 8, (w.byte k).toNat * 256 ^ k : Nat) (2 ^ 64) := by
  have hlow := w.le_toInt
  have hhigh := w.toInt_lt
  have hself : Int.bmod w.toInt (256 ^ 8) = w.toInt := Int.bmod_eq_of_le (by omega) (by omega)
  exact hself.symm.trans (w.bmod_eq_bmod_sum (Nat.le_refl 8))

end Word

namespace Memory

variable {m m' : Memory} {a b : Address} {v w : Word}

/-! ### One store -/

/-- The bytes of memory are those of the word that is read there. -/
theorem byte?_eq_byte (hread : m.read? b = some w) {position : Nat} (hcovers : Covers b position) :
    m.byte? position = some (w.byte (position - b.toNat)) := by
  obtain ⟨hle, hlt⟩ := hcovers
  rw [← byte?_of_read? hread ⟨hle, hlt⟩, Word.getElem?_bytes, if_pos (by omega)]

/-- A word that is read after a store has the stored bytes where the two overlap, and the old ones
elsewhere. -/
theorem byte_of_write?_read? (hwrite : m.write? a v = some m') (hread : m'.read? b = some w)
    {position : Nat} (hcovers : Covers b position) :
    some (w.byte (position - b.toNat))
      = if Covers a position then some (v.byte (position - a.toNat)) else m.byte? position := by
  rw [← byte?_eq_byte hread hcovers, byte?_write? hwrite]
  split
  · rename_i hstored
    obtain ⟨hle, hlt⟩ := hstored
    rw [Word.getElem?_bytes, if_pos (by omega)]
  · rfl

theorem Holds.of_write? (hholds : m.Holds b) (hwrite : m.write? a v = some m') : m'.Holds b := by
  rw [Holds, size_write? hwrite]
  exact hholds

/-- Storing what stands somewhere changes nothing. -/
theorem write?_same (hread : m.read? a = some w) : m.write? a w = some m := by
  have hholds := (read?_eq_some_iff.1 hread).1
  obtain ⟨n, hwrite⟩ := hholds.write? w
  rw [hwrite]
  refine congrArg some (ext_byte? fun position => ?_)
  rw [byte?_write? hwrite]
  split
  · rename_i hcovers
    exact byte?_of_read? hread hcovers
  · rfl

/-! ### Many stores -/

/-- The stores one after another, if all of them lie inside. -/
def storeAll? (m : Memory) : List (Address × Word) → Option Memory
  | [] => some m
  | (a, w) :: later => (m.write? a w).bind fun m' => m'.storeAll? later

/-- What stands at each address just before it is stored to. -/
def overwritten? (m : Memory) : List (Address × Word) → Option (List (Address × Word))
  | [] => some []
  | (a, w) :: later => do
    let old ← m.read? a
    let m' ← m.write? a w
    let rest ← m'.overwritten? later
    some ((a, old) :: rest)

theorem storeAll?_append (m : Memory) (stores later : List (Address × Word)) :
    m.storeAll? (stores ++ later) = (m.storeAll? stores).bind fun m' => m'.storeAll? later := by
  induction stores generalizing m with
  | nil => rfl
  | cons store stores ih =>
    rw [List.cons_append, storeAll?, storeAll?, Option.bind_assoc]
    exact congrArg _ (funext fun m' => ih m')

/-- Words that do not overlap may be stored in either order. -/
theorem storeAll?_comm (ha : m.Holds a) (hb : m.Holds b)
    (happart : a.toNat + 8 ≤ b.toNat ∨ b.toNat + 8 ≤ a.toNat) (v w : Word) :
    ∃ n, m.storeAll? [(a, v), (b, w)] = some n ∧ m.storeAll? [(b, w), (a, v)] = some n := by
  obtain ⟨m₁, hfirst⟩ := ha.write? v
  obtain ⟨m₂, hsecond⟩ := hb.write? w
  obtain ⟨n₁, hthen⟩ := (hb.of_write? hfirst).write? w
  obtain ⟨n₂, hother⟩ := (ha.of_write? hsecond).write? v
  have hsame : n₁ = n₂ := ext_byte? fun position => by
    rw [byte?_write? hthen, byte?_write? hfirst, byte?_write? hother, byte?_write? hsecond]
    by_cases hcovers : Covers a position
    · have hnot : ¬ Covers b position := by
        unfold Covers at *
        omega
      rw [if_pos hcovers, if_pos hcovers, if_neg hnot]
    · rw [if_neg hcovers, if_neg hcovers]
  refine ⟨n₁, ?_, ?_⟩
  · simp only [storeAll?, hfirst, hthen, Option.bind_some]
  · simp only [storeAll?, hsecond, hother, Option.bind_some, hsame]

/-- Stores are taken back by storing, from the last to the first, what each of them overwrote. The
induction is on the stores; the first one is taken back last, by `write?_read?`. -/
theorem storeAll?_overwritten? {stores : List (Address × Word)}
    (hinside : ∀ store ∈ stores, m.Holds store.1) :
    ∃ n old, m.storeAll? stores = some n ∧ m.overwritten? stores = some old ∧
      n.storeAll? old.reverse = some m := by
  induction stores generalizing m with
  | nil => exact ⟨m, [], rfl, rfl, rfl⟩
  | cons store stores ih =>
    obtain ⟨a, w⟩ := store
    have hholds : m.Holds a := hinside _ (List.mem_cons_self ..)
    obtain ⟨before, hread⟩ := hholds.read?
    obtain ⟨m', hwrite⟩ := hholds.write? w
    obtain ⟨n, old, hstored, hold, hback⟩ :=
      ih fun store hstore => (hinside store (List.mem_cons_of_mem _ hstore)).of_write? hwrite
    refine ⟨n, (a, before) :: old, ?_, ?_, ?_⟩
    · rw [storeAll?, hwrite, Option.bind_some, hstored]
    · simp only [overwritten?, hread, hwrite, hold, Option.bind_eq_bind, Option.bind_some]
    · rw [List.reverse_cons, storeAll?_append, hback, Option.bind_some, storeAll?,
        write?_read? hread hwrite]
      rfl

/-- Memory is exact to the byte. After a store, the word read anywhere else is the signed
little-endian number of the stored bytes where the two words overlap and of the old ones elsewhere;
so the stored word is read back, storing what stands somewhere changes nothing, stores of words
that do not overlap commute, and any stores at all are taken back by storing what they overwrote,
the last first. -/
theorem stores_bytewise (ha : m.Holds a) (hb : m.Holds b) (v : Word)
    {stores : List (Address × Word)} (hinside : ∀ store ∈ stores, m.Holds store.1) :
    (∃ m' u, m.write? a v = some m' ∧ m'.read? b = some u ∧ m'.read? a = some v ∧
      u.toInt = Int.bmod (∑ k ∈ Finset.range 8, (u.byte k).toNat * 256 ^ k : Nat) (2 ^ 64) ∧
      ∀ position, Covers b position → some (u.byte (position - b.toNat))
        = if Covers a position then some (v.byte (position - a.toNat))
          else m.byte? position) ∧
    (∃ old, m.read? a = some old ∧ m.write? a old = some m) ∧
    (∀ c w, m.Holds c → a.toNat + 8 ≤ c.toNat ∨ c.toNat + 8 ≤ a.toNat →
      ∃ n, m.storeAll? [(a, v), (c, w)] = some n ∧ m.storeAll? [(c, w), (a, v)] = some n) ∧
    ∃ n old, m.storeAll? stores = some n ∧ m.overwritten? stores = some old ∧
      n.storeAll? old.reverse = some m := by
  obtain ⟨m', hwrite⟩ := ha.write? v
  obtain ⟨u, hread⟩ := (hb.of_write? hwrite).read?
  obtain ⟨old, hold⟩ := ha.read?
  exact ⟨⟨m', u, hwrite, hread, read?_write? hwrite, u.toInt_eq_bmod_sum,
      fun position hcovers => byte_of_write?_read? hwrite hread hcovers⟩,
    ⟨old, hold, write?_same hold⟩,
    fun c w hc happart => storeAll?_comm ha hc happart v w,
    storeAll?_overwritten? hinside⟩

/-- Twenty-four bytes, three of them set. -/
def sampleMemory : Memory := (zeroed 24).withImage [1, 2, 0, 0, 0, 0, 0, 0x80]

/-- Three stores that overlap each other, two of them unaligned. -/
def sampleStores : List (Address × Word) := [(3, -1), (0, 258), (5, -9)]

/-- A negative word is stored unaligned over the end of another; and three overlapping stores that
leave memory changed are taken back. -/
theorem stores_bytewise_unaligned :
    (sampleMemory.Holds 3 ∧ sampleMemory.Holds 0 ∧ ∀ store ∈ sampleStores,
      sampleMemory.Holds store.1) ∧
    sampleMemory.storeAll? sampleStores ≠ some sampleMemory ∧
    (∃ m' u, sampleMemory.write? 3 (-2) = some m' ∧ m'.read? 0 = some u ∧
      m'.read? 3 = some (-2) ∧
      u.toInt = Int.bmod (∑ k ∈ Finset.range 8, (u.byte k).toNat * 256 ^ k : Nat) (2 ^ 64) ∧
      ∀ position, Covers 0 position → some (u.byte (position - (0 : Address).toNat))
        = if Covers 3 position then some ((-2 : Word).byte (position - (3 : Address).toNat))
          else sampleMemory.byte? position) ∧
    (∃ old, sampleMemory.read? 3 = some old ∧ sampleMemory.write? 3 old = some sampleMemory) ∧
    (∀ c w, sampleMemory.Holds c →
      (3 : Address).toNat + 8 ≤ c.toNat ∨ c.toNat + 8 ≤ (3 : Address).toNat →
      ∃ n, sampleMemory.storeAll? [(3, -2), (c, w)] = some n ∧
        sampleMemory.storeAll? [(c, w), (3, -2)] = some n) ∧
    ∃ n old, sampleMemory.storeAll? sampleStores = some n ∧
      sampleMemory.overwritten? sampleStores = some old ∧
      n.storeAll? old.reverse = some sampleMemory :=
  have hinside : ∀ store ∈ sampleStores, sampleMemory.Holds store.1 :=
    List.forall_mem_cons.2 ⟨by decide +kernel, List.forall_mem_cons.2 ⟨by decide +kernel,
      List.forall_mem_singleton.2 (by decide +kernel)⟩⟩
  ⟨⟨by decide +kernel, by decide +kernel, hinside⟩, by decide +kernel,
    stores_bytewise (by decide +kernel) (by decide +kernel) (-2) hinside⟩

end Memory

end Backstep
