import Backstep.Proofs.Text.Pieces
/-!
# Numerals that are read back

Numbers are written with ASCII digits and, below zero, a minus sign. Every reader of a listing reads
such a numeral back as the number it was written for, and its characters are neither blanks nor any
of the marks between the parts of a line.
-/

namespace Backstep

namespace Numeral

variable {c d : Char}

/-! ### Digits -/

theorem ne_of_isDigit (hc : c.isDigit = true) (hd : d.isDigit = false) : c ≠ d := by
  rintro rfl
  rw [hc] at hd
  cases hd

theorem isBlank_of_isDigit (h : c.isDigit = true) : Text.isBlank c = false := by
  obtain ⟨hlow, hhigh⟩ := Char.isDigit_iff_toNat.1 h
  have hzero : '0'.toNat = 48 := rfl
  have hnine : '9'.toNat = 57 := rfl
  exact Text.isBlank_of_printable (by omega) (by omega)

theorem isDigit_of_mem_toString {n : Nat} (h : c ∈ (toString n).toList) : c.isDigit = true := by
  rw [Nat.toString_eq_repr, Nat.toList_repr] at h
  exact Nat.isDigit_of_mem_toDigits (by decide) (by decide) h

theorem toList_toString_ne_nil (n : Nat) : (toString n).toList ≠ [] := by
  rw [Nat.toString_eq_repr, Nat.toList_repr]
  exact Nat.toDigits_ne_nil

theorem digit?_of_isDigit (h : c.isDigit = true) : digit? 10 c = some (c.toNat - '0'.toNat) := by
  have hzero : '0'.toNat = 48 := rfl
  have hnine : '9'.toNat = 57 := rfl
  obtain ⟨-, hhigh⟩ := Char.isDigit_iff_toNat.1 h
  rw [digit?, if_pos h, Option.filter_some, if_pos (by simp only [decide_eq_true_eq]; omega)]

theorem value_of_isDigit {cs : List Char} (h : ∀ c ∈ cs, c.isDigit = true) :
    value 10 cs = Nat.ofDigitChars 10 cs 0 := by
  have hfold : ∀ init, cs.foldl (fun n c => 10 * n + (digit? 10 c).getD 0) init
      = Nat.ofDigitChars 10 cs init := by
    induction cs with
    | nil => exact fun init => rfl
    | cons c cs ih =>
      intro init
      rw [List.foldl_cons, digit?_of_isDigit (h c List.mem_cons_self)]
      exact ih (fun d hd => h d (List.mem_cons_of_mem _ hd)) _
  exact hfold 0

theorem ofDigits_of_forall {base limit : Nat} {cs : List Char} (hfull : cs ≠ [])
    (hdigits : ∀ c ∈ cs, (digit? base c).isSome = true) (hlt : value base cs < limit) :
    ofDigits base limit cs = .ok (value base cs) := by
  have hall : cs.takeWhile (fun c => (digit? base c).isSome) = cs := Text.takeWhile_eq_self hdigits
  have hnonempty : ¬ cs.isEmpty = true := by simpa using hfull
  simp only [ofDigits, hall]
  rw [if_neg hnonempty, if_neg (Nat.not_le.2 hlt), if_neg (Nat.lt_irrefl _)]

theorem natural_of_head? {base limit : Nat} {cs : List Char} (h : cs.head? ≠ some '+') :
    natural base limit cs = ofDigits base limit cs := by
  unfold natural
  split
  · exact absurd rfl h
  · exact absurd rfl h
  · rfl

theorem head?_toString_ne (n : Nat) (hd : d.isDigit = false) : (toString n).toList.head? ≠ some d :=
  fun h => ne_of_isDigit (isDigit_of_mem_toString (List.mem_of_mem_head? h)) hd rfl

theorem solid_toString (n : Nat) : Text.Solid (toString n).toList :=
  ⟨toList_toString_ne_nil n, fun _ hc => isBlank_of_isDigit (isDigit_of_mem_toString hc)⟩

/-! ### Reading back -/

/-- Decimal digits are read as the number they were written for. -/
theorem natural_toString {n limit : Nat} (h : n < limit) :
    natural 10 limit (toString n).toList = .ok n := by
  have hdigits : ∀ c ∈ (toString n).toList, c.isDigit = true := fun c => isDigit_of_mem_toString
  have hvalue : value 10 (toString n).toList = n := by
    rw [value_of_isDigit hdigits, Nat.toString_eq_repr, Nat.toList_repr]
    exact Nat.ofDigitChars_toDigits (by decide) (by decide)
  rw [natural_of_head? (head?_toString_ne n (by decide)),
    ofDigits_of_forall (toList_toString_ne_nil n)
      (fun c hc => by rw [digit?_of_isDigit (hdigits c hc)]; rfl) (hvalue.symm ▸ h), hvalue]

theorem afterHexMark?_toString (n : Nat) : afterHexMark? (toString n).toList = none := by
  unfold afterHexMark?
  split
  · rename_i hmark
    have hmem : 'x' ∈ (toString n).toList := by
      rw [hmark]
      exact List.mem_cons_of_mem _ List.mem_cons_self
    cases isDigit_of_mem_toString hmem
  · rfl

theorem unsigned?_toString {n : Nat} (h : n < UInt64.size) :
    unsigned? (toString n).toList = some (.ofNat n) := by
  simp only [unsigned?, afterHexMark?_toString, natural_toString h]
  rfl

theorem byte?_toString (b : UInt8) : byte? (toString b.toNat).toList = some b := by
  rw [byte?, natural_toString b.toNat_lt]
  exact congrArg some UInt8.ofNat_toNat

theorem toList_toString_int (z : Int) : (toString z).toList
    = if 0 ≤ z then (toString z.toNat).toList else '-' :: (toString (-z).toNat).toList := by
  rw [Int.toString_eq_repr, Int.repr_eq_if, Nat.toString_eq_repr, Nat.toString_eq_repr]
  split
  · rfl
  · rw [String.toList_append]
    rfl

theorem mem_toString_int {z : Int} (h : c ∈ (toString z).toList) : c.isDigit = true ∨ c = '-' := by
  rw [toList_toString_int] at h
  split at h
  · exact .inl (isDigit_of_mem_toString h)
  · exact (List.mem_cons.1 h).symm.imp_left isDigit_of_mem_toString

theorem solid_toString_int (z : Int) : Text.Solid (toString z).toList := by
  refine ⟨?_, fun c hc => ?_⟩
  · rw [toList_toString_int]
    split
    · exact toList_toString_ne_nil _
    · exact List.cons_ne_nil _ _
  · rcases mem_toString_int hc with hdigit | rfl
    · exact isBlank_of_isDigit hdigit
    · decide

theorem operand?_toString (w : Word) : operand? (toString w.toInt).toList = some w := by
  have hlow := w.le_toInt
  have hhigh := w.toInt_lt
  have hword : ∀ n : Nat, (UInt64.ofNat n).toInt64 = Int64.ofInt n := fun n => by
    rw [UInt64.toInt64_ofNat', Int64.ofInt_eq_ofNat]
  rw [toList_toString_int]
  split
  · rename_i hnonneg
    have hminus := head?_toString_ne w.toInt.toNat (d := '-') (by decide)
    unfold operand?
    split
    · rename_i hcs
      rw [hcs] at hminus
      exact absurd rfl hminus
    · rw [unsigned?_toString (by rw [UInt64.size]; omega), Option.map_some, hword,
        Int.toNat_of_nonneg hnonneg, Int64.ofInt_toInt]
  · rw [operand?, natural_toString (by rw [UInt64.size]; omega)]
    simp only [Except.toOption, Option.map_some, hword]
    rw [Int.toNat_of_nonneg (by omega), Int64.ofInt_neg, Int64.ofInt_toInt, Int64.neg_neg]

/-- A byte is written with two hexadecimal digits. -/
theorem hexByte?_hexOfByte (b : UInt8) : hexByte? (hexOfByte b).toList = some b := by
  have hlt := b.toNat_lt
  have hdigit : ∀ d < 16, digit? 16 (Nat.digitChar d) = some d := by decide
  have hplus : ∀ d < 16, Nat.digitChar d ≠ '+' := by decide
  have hhigh := hdigit (b.toNat / 16) (by omega)
  have hlow := hdigit (b.toNat % 16) (by omega)
  have hvalue : value 16 [Nat.digitChar (b.toNat / 16), Nat.digitChar (b.toNat % 16)]
      = b.toNat := by
    simp only [value, List.foldl_cons, List.foldl_nil, hhigh, hlow, Option.getD_some]
    omega
  rw [hexByte?, hexOfByte, String.toList_ofList,
    natural_of_head? (by simp [hplus (b.toNat / 16) (by omega)]),
    ofDigits_of_forall (List.cons_ne_nil _ _) (by simp [hhigh, hlow]) (hvalue.symm ▸ hlt), hvalue]
  exact congrArg some UInt8.ofNat_toNat

theorem mem_hexOfByte {b : UInt8} (h : c ∈ (hexOfByte b).toList) :
    ∃ n < 16, c = Nat.digitChar n := by
  have hlt := b.toNat_lt
  rw [hexOfByte, String.toList_ofList] at h
  simp only [List.mem_cons, List.not_mem_nil, or_false] at h
  rcases h with rfl | rfl
  · exact ⟨_, by omega, rfl⟩
  · exact ⟨_, by omega, rfl⟩

theorem solid_hexOfByte (b : UInt8) : Text.Solid (hexOfByte b).toList := by
  have hblank : ∀ n < 16, Text.isBlank (Nat.digitChar n) = false := by decide
  refine ⟨?_, fun c hc => ?_⟩
  · rw [hexOfByte, String.toList_ofList]
    exact List.cons_ne_nil _ _
  · obtain ⟨n, hn, rfl⟩ := mem_hexOfByte hc
    exact hblank n hn

end Numeral

end Backstep
