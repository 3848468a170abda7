import Backstep.Proofs.Listing.Grammar
import Backstep.Proofs.Workbench.Range
/-!
# The two readers of numbers

An operand of a listing is read without a sign of its own and then wrapped, and has a minus sign
before a decimal number only. What is typed at a prompt is read as a signed word, with the minus
sign of a hexadecimal number behind its `0x`. So each of them takes what the other one refuses, but
they never take one text for two words: by its grammar a text that both of them take spells one
number. Both read back what is written for a word.
-/

namespace Backstep

namespace Numeral

/-- Decimal digits, one at least, behind an optional minus sign. -/
inductive Decimal : List Char → Int → Prop
  | plain {cs : List Char} {n : Nat} (hdigits : Digits 10 cs n) : Decimal cs n
  | minus {cs : List Char} {n : Nat} (hdigits : Digits 10 cs n) : Decimal ('-' :: cs) (-n)

variable {cs : List Char} {z z' : Int}

theorem Digits.natural {base n : Nat} (h : Digits base cs n) : Natural base (n + 1) cs n :=
  .bare h (Nat.lt_succ_self n)

/-- A decimal text spells an operand if its magnitude is below 2^64, and no other operand. -/
theorem Decimal.operand_iff (h : Decimal cs z) :
    Operand cs z' ↔ z' = z ∧ z.natAbs < UInt64.size := by
  constructor
  · intro hoperand
    cases h with
    | @plain _ n hdigits =>
      cases hoperand with
      | unsigned hnumber =>
        cases hnumber with
        | @decimal _ n' hnumber =>
          obtain rfl := hnumber.unique (by decide) hdigits.natural
          cases hnumber with
          | bare _ hlt | plus _ hlt => exact ⟨rfl, hlt⟩
        | hexadecimal => cases afterHexMark?_of_natural hdigits.natural
      | negative => exact absurd rfl (hdigits.natural.head?_ne (by decide))
    | @minus cs n hdigits =>
      cases hoperand with
      | unsigned hnumber =>
        cases hnumber with
        | decimal hnumber => exact absurd rfl (hnumber.head?_ne (by decide))
      | negative hnumber =>
        obtain rfl := hnumber.unique (by decide) hdigits.natural
        refine ⟨rfl, ?_⟩
        rw [Int.natAbs_neg]
        cases hnumber with
        | bare _ hlt | plus _ hlt => exact hlt
  · rintro ⟨rfl, hlt⟩
    cases h with
    | plain hdigits => exact .unsigned (.decimal (.bare hdigits hlt))
    | minus hdigits =>
      rw [Int.natAbs_neg] at hlt
      exact .negative (.bare hdigits hlt)

end Numeral

namespace Workbench

open Listing (readOperand)
open Numeral (Decimal)
open Text (trim)

variable {cs : List Char} {v w : Word}

theorem readNumber_eq_ok_iff : readNumber cs = .ok w ↔ Numeral.Typed (trim cs) w.toInt := by
  rw [← Numeral.word?_eq_some_iff, readNumber]
  cases Numeral.word? (trim cs) <;> simp

/-- A decimal text is read as what it is modulo 2^64, if its magnitude is below that. -/
theorem readOperand_of_decimal {z : Int} (h : Decimal cs z) :
    readOperand cs = if z.natAbs < UInt64.size then .ok (Int64.ofInt z)
      else .error (.badNumber (String.ofList cs)) := by
  split
  · rename_i hlt
    exact Listing.readOperand_eq_ok_iff.2 ⟨z, h.operand_iff.2 ⟨rfl, hlt⟩, rfl⟩
  · rename_i hlarge
    have hnone : Numeral.operand? cs = none := by
      cases hread : Numeral.operand? cs with
      | none => rfl
      | some w =>
        obtain ⟨z', hnumber, -⟩ := Numeral.operand?_eq_some_iff.1 hread
        exact absurd (h.operand_iff.1 hnumber).2 hlarge
    rw [readOperand, hnone]
    rfl

theorem eq_of_readOperand_readNumber (hoperand : readOperand (trim cs) = .ok v)
    (htyped : readNumber cs = .ok w) : v = w := by
  obtain ⟨z, hnumber, rfl⟩ := Listing.readOperand_eq_ok_iff.1 hoperand
  have hz : z = w.toInt := hnumber.eq_of_typed (readNumber_eq_ok_iff.1 htyped)
  rw [hz, Int64.ofInt_toInt]

/-- The reader of operands and the reader of typed numbers agree. Both read back what is written for
a word. Whatever text they both take once it is trimmed, they take for one word. And a decimal text,
with a minus sign or not, is an operand exactly if its magnitude is below 2^64: it is read as what
it is modulo 2^64, and otherwise it is reported as it stands. -/
theorem readers_agree :
    (∀ w : Word, readOperand (toString w.toInt).toList = .ok w ∧
      readNumber (toString w.toInt).toList = .ok w) ∧
    (∀ cs v w, readOperand (trim cs) = .ok v → readNumber cs = .ok w → v = w) ∧
    ∀ cs z, Decimal cs z → readOperand cs = if z.natAbs < UInt64.size then .ok (Int64.ofInt z)
      else .error (.badNumber (String.ofList cs)) :=
  ⟨fun w => ⟨Listing.readOperand_toString w, readNumber_toString w⟩,
    fun _ _ _ => eq_of_readOperand_readNumber, fun _ _ => readOperand_of_decimal⟩

/-- A hexadecimal number with a sign and blanks around it, the least decimal operand, and the first
number that is too large for one. -/
theorem readers_agree_bounds :
    (∃ v w, readOperand (trim " 0x+7F\t".toList) = .ok v ∧
      readNumber " 0x+7F\t".toList = .ok w ∧ v = w) ∧
    Decimal "-18446744073709551615".toList (-18446744073709551615) ∧
    readOperand "-18446744073709551615".toList = .ok 1 ∧
    Decimal "18446744073709551616".toList 18446744073709551616 ∧
    readOperand "18446744073709551616".toList
      = .error (.badNumber "18446744073709551616") := by
  obtain ⟨-, hagree, hdecimal⟩ := readers_agree
  have hoperand : readOperand (trim " 0x+7F\t".toList) = .ok 127 :=
    eq_ok_of_toOption (by decide +kernel)
  have htyped : readNumber " 0x+7F\t".toList = .ok 127 := eq_ok_of_toOption (by decide +kernel)
  have hdigits : Numeral.Digits 10 "18446744073709551615".toList 18446744073709551615 :=
    Numeral.digits_value (by decide) (by decide) (List.all_eq_true.1 (by decide))
  have hlast : Decimal "-18446744073709551615".toList (-18446744073709551615) := .minus hdigits
  have hlarge : Decimal "18446744073709551616".toList 18446744073709551616 :=
    .plain (Numeral.digits_value (by decide) (by decide) (List.all_eq_true.1 (by decide)))
  exact ⟨⟨127, 127, hoperand, htyped, hagree _ _ _ hoperand htyped⟩, hlast, hdecimal _ _ hlast,
    hlarge, hdecimal _ _ hlarge⟩

end Workbench

end Backstep
