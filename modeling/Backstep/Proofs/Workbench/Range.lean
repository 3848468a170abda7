import Backstep.Proofs.Text.Spelling
import Backstep.Proofs.Workbench.Safety
import Mathlib.Algebra.Group.Int.Defs
import Mathlib.Algebra.Group.Nat.Defs
/-!
# Asking for a range of words

`mem` may be given a start and a count. The words are shown exactly when over the integers there is
one at least, none begins below zero and none ends past memory; that the machine only has words of
64 bits to find this out with makes no difference, whatever is typed. `lastAddress` is exact or it
is the mark `-1`, and of a range that begins at zero or above it is the mark only where the last
address is too large for a word.
-/

namespace Backstep

namespace Word

theorem ofInt?_eq_some_iff {i : Int} {w : Word} : ofInt? i = some w ↔ w.toInt = i := by
  have hlow := w.le_toInt
  have hhigh := w.toInt_lt
  rw [ofInt?, Int64.toInt_minValue, Int64.toInt_maxValue, Option.ite_none_right_eq_some,
    Option.some.injEq]
  constructor
  · rintro ⟨⟨hle, hlt⟩, rfl⟩
    exact Int64.toInt_ofInt_of_le hle (by omega)
  · rintro rfl
    exact ⟨⟨hlow, by omega⟩, Int64.ofInt_toInt w⟩

theorem ofInt?_eq_none_iff {i : Int} : ofInt? i = none ↔ i < -2 ^ 63 ∨ 2 ^ 63 ≤ i := by
  rw [ofInt?, Int64.toInt_minValue, Int64.toInt_maxValue, ite_eq_right_iff]
  simp only [reduceCtorEq, imp_false]
  omega

/-- As an address a word that is not negative is the same number. -/
theorem toNat_address_of_nonneg {w : Word} (h : 0 ≤ w.toInt) :
    (w.address.toNat : Int) = w.toInt := by
  have hhigh := w.toInt_lt
  rw [toNat_address, UInt64.size, Int.emod_eq_of_lt h (by omega)]

end Word

namespace Workbench

/-- There are words to show, and all of them lie inside memory. -/
structure RangeFits (memorySize : Nat) (start count : Word) : Prop where
  some_word : 1 ≤ count.toInt
  start_nonneg : 0 ≤ start.toInt
  end_le : start.toInt + 8 * count.toInt ≤ memorySize

variable {n : Nat} {start count : Word}

/-! ### The last address -/

/-- The last address is exact, or it is marked as one that no word can hold; and of a range that
begins at zero or above it is marked only if that is so. -/
theorem lastAddress_exact (start count : Word) :
    (lastAddress start count).toInt = start.toInt + 8 * (count.toInt - 1) ∨
      lastAddress start count = -1 ∧
        (count.toInt < 1 ∨ start.toInt < 0 ∨ 2 ^ 63 ≤ start.toInt + 8 * (count.toInt - 1)) := by
  have hcount := count.toInt_lt
  have hstart := start.toInt_lt
  rw [lastAddress]
  cases hbefore : Word.ofInt? (count.toInt - 1) with
  | none =>
    have hout := Word.ofInt?_eq_none_iff.1 hbefore
    exact .inr ⟨rfl, .inl (by omega)⟩
  | some before =>
    have hexact := Word.ofInt?_eq_some_iff.1 hbefore
    cases hdistance : Word.ofInt? (before.toInt * 8) with
    | none =>
      have hout := Word.ofInt?_eq_none_iff.1 hdistance
      refine .inr ⟨by simp [hdistance], by omega⟩
    | some distance =>
      have hexact' := Word.ofInt?_eq_some_iff.1 hdistance
      cases hlast : Word.ofInt? (distance.toInt + start.toInt) with
      | none =>
        have hout := Word.ofInt?_eq_none_iff.1 hlast
        refine .inr ⟨by simp [hdistance, hlast], by omega⟩
      | some last =>
        have hexact'' := Word.ofInt?_eq_some_iff.1 hlast
        refine .inl ?_
        simp only [hdistance, hlast, Option.bind_eq_bind, Option.bind_some, Option.getD_some]
        omega

/-! ### All addresses -/

/-- The test on the start and the last address finds the ranges that fit. -/
theorem fits_lastAddress_iff (hsize : n < 2 ^ 63) :
    1 ≤ count ∧ Word.Fits start n ∧ Word.Fits (lastAddress start count) n ↔
      RangeFits n start count := by
  have hone : 1 ≤ count ↔ 1 ≤ count.toInt := Int64.le_iff_toInt_le
  rw [hone]
  rcases lastAddress_exact start count with hexact | ⟨hmark, hreason⟩
  · constructor
    · rintro ⟨hcount, ⟨hnonneg, -⟩, -, hend⟩
      exact ⟨hcount, hnonneg, by omega⟩
    · rintro ⟨hcount, hnonneg, hend⟩
      exact ⟨hcount, ⟨hnonneg, by omega⟩, by omega, by omega⟩
  · constructor
    · rintro ⟨-, -, hnonneg, -⟩
      rw [hmark] at hnonneg
      exact absurd hnonneg (by decide)
    · rintro ⟨hcount, hnonneg, hend⟩
      omega

theorem wordsFrom?_of_not_fits (hsize : n < 2 ^ 63) (hfits : ¬ RangeFits n start count) :
    wordsFrom? n start count = none :=
  if_neg fun htest => hfits ((fits_lastAddress_iff hsize).1 htest)

/-- The addresses of words that fit are eight apart, over the integers too. -/
theorem wordsFrom?_of_fits (hsize : n < 2 ^ 63) (hfits : RangeFits n start count) :
    ∃ addresses, wordsFrom? n start count = some addresses ∧
      addresses.map (fun a => (a.toNat : Int))
        = (List.range count.toInt.toNat).map fun (i : Nat) => start.toInt + 8 * i := by
  have htest := (fits_lastAddress_iff hsize).2 hfits
  have hlast : 0 ≤ (lastAddress start count).toInt := htest.2.2.1
  obtain ⟨hcount, hnonneg, hend⟩ := hfits
  have hexact : (lastAddress start count).toInt = start.toInt + 8 * (count.toInt - 1) := by
    rcases lastAddress_exact start count with hexact | ⟨-, hreason⟩
    · exact hexact
    · omega
  have hfirst := Word.toNat_address_of_nonneg hnonneg
  have hend' := Word.toNat_address_of_nonneg hlast
  have hsteps : ((lastAddress start count).address.toNat - start.address.toNat) / 8 + 1
      = count.toInt.toNat := by omega
  refine ⟨_, if_pos htest, ?_⟩
  rw [hsteps, List.map_map]
  refine List.map_congr_left fun i hi => ?_
  have hindex := List.mem_range.1 hi
  simp only [Function.comp_apply, UInt64.toNat_add, UInt64.toNat_ofNat']
  omega

/-! ### What is typed -/

theorem readNumber_toString (w : Word) : readNumber (toString w.toInt).toList = .ok w := by
  have hsolid := Numeral.solid_toString_int w.toInt
  rw [readNumber, hsolid.trim, Numeral.word?_toString]

/-- The arguments name a start and a number of words; it is one word if they leave that out. -/
def NamesRange (arguments : List (List Char)) (start count : Word) : Prop :=
  ∃ first rest, arguments = first :: rest ∧ readNumber first = .ok start ∧
    (rest = [] ∧ count = 1 ∨ ∃ next more, rest = next :: more ∧ readNumber next = .ok count)

/-- Whatever the start and the count, they can be typed. -/
theorem namesRange_toString (start count : Word) :
    NamesRange [(toString start.toInt).toList, (toString count.toInt).toList] start count :=
  ⟨_, _, rfl, readNumber_toString start, .inr ⟨_, _, rfl, readNumber_toString count⟩⟩

theorem NamesRange.wordsToShow {s : Session} {arguments : List (List Char)}
    (h : NamesRange arguments start count) :
    s.wordsToShow arguments = match wordsFrom? s.memorySize start count with
      | some addresses => .ok addresses
      | none => .error (.problem { cause := .memoryEnd s.memorySize }) := by
  obtain ⟨first, rest, rfl, hstart, hrest⟩ := h
  obtain ⟨rfl, rfl⟩ | ⟨next, more, rfl, hcount⟩ := hrest
  · rw [Session.wordsToShow, hstart]
    rfl
  · rw [Session.wordsToShow, hstart]
    simp only [hcount]
    rfl

/-- A range of words is shown exactly when it fits. Whatever start and count are typed, and any can
be, the addresses are found if over the integers there is one at least, none is negative and the
last word ends inside memory; they are then eight apart from the start on, and each of them can be
read. Otherwise the problem names the end of memory. The last address is never a number that has
wrapped: it is exact, or the mark for a range that fits nowhere. -/
theorem wordsToShow_exact {s : Session} (hsize : s.memorySize < 2 ^ 63) (start count : Word) :
    (∃ arguments, NamesRange arguments start count) ∧
    (∀ arguments, NamesRange arguments start count →
      (RangeFits s.memorySize start count ↔ ∃ addresses, s.wordsToShow arguments = .ok addresses) ∧
      (∀ addresses, s.wordsToShow arguments = .ok addresses →
        addresses.map (fun a => (a.toNat : Int))
          = (List.range count.toInt.toNat).map (fun (i : Nat) => start.toInt + 8 * i) ∧
        ∀ m : Memory, m.size = s.memorySize → ∀ a ∈ addresses, ∃ w, m.read? a = some w) ∧
      (¬ RangeFits s.memorySize start count → ∃ problem,
        s.wordsToShow arguments = .error (.problem problem) ∧
        problem.kind = .addressOutOfRange ∧ problem.cause = .memoryEnd s.memorySize)) ∧
    ((lastAddress start count).toInt = start.toInt + 8 * (count.toInt - 1) ∨
      lastAddress start count = -1 ∧
        (count.toInt < 1 ∨ start.toInt < 0 ∨ 2 ^ 63 ≤ start.toInt + 8 * (count.toInt - 1))) := by
  refine ⟨⟨_, namesRange_toString start count⟩, fun arguments hnames => ?_,
    lastAddress_exact start count⟩
  rw [hnames.wordsToShow]
  by_cases hfits : RangeFits s.memorySize start count
  · obtain ⟨addresses, hfound, hexact⟩ := wordsFrom?_of_fits hsize hfits
    rw [hfound]
    refine ⟨⟨fun _ => ⟨addresses, rfl⟩, fun _ => hfits⟩, ?_, fun hnot => absurd hfits hnot⟩
    rintro _ ⟨⟩
    refine ⟨hexact, fun m hm a ha => Memory.Holds.read? ?_⟩
    rw [Memory.Holds, hm]
    exact inside_of_wordsFrom? hfound a ha
  · rw [wordsFrom?_of_not_fits hsize hfits]
    refine ⟨⟨fun hyes => absurd hyes hfits, ?_⟩, ?_, fun _ => ⟨_, rfl, rfl, rfl⟩⟩
    · rintro ⟨_, ⟨⟩⟩
    · rintro _ ⟨⟩

/-- Two words from 8 on fit in 32 bytes, and three from there do too; four would not. -/
theorem wordsToShow_exact_two :
    ((Session.ofSize 32).memorySize < 2 ^ 63 ∧ RangeFits 32 8 2 ∧ RangeFits 32 8 3 ∧
      ¬ RangeFits 32 8 4) ∧
    (∃ arguments, NamesRange arguments 8 2) ∧
    (∀ arguments, NamesRange arguments 8 2 →
      (RangeFits 32 8 2 ↔ ∃ addresses, (Session.ofSize 32).wordsToShow arguments = .ok addresses) ∧
      (∀ addresses, (Session.ofSize 32).wordsToShow arguments = .ok addresses →
        addresses.map (fun a => (a.toNat : Int)) = [8, 16] ∧
        ∀ m : Memory, m.size = 32 → ∀ a ∈ addresses, ∃ w, m.read? a = some w) ∧
      (¬ RangeFits 32 8 2 → ∃ problem,
        (Session.ofSize 32).wordsToShow arguments = .error (.problem problem) ∧
        problem.kind = .addressOutOfRange ∧ problem.cause = .memoryEnd 32)) ∧
    ((lastAddress 8 2).toInt = 16 ∨ lastAddress 8 2 = -1 ∧
      ((2 : Word).toInt < 1 ∨ (8 : Word).toInt < 0 ∨
        2 ^ 63 ≤ (8 : Word).toInt + 8 * ((2 : Word).toInt - 1))) :=
  ⟨⟨by decide, ⟨by decide, by decide, by decide⟩, ⟨by decide, by decide, by decide⟩,
      fun hfits => absurd hfits.end_le (by decide)⟩,
    wordsToShow_exact (s := Session.ofSize 32) (by decide) 8 2⟩

end Workbench

end Backstep
