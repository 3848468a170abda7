import Backstep.Proofs.Text.Numeral
/-!
# How numbers are spelled

The spellings of a number, said without a reader. Digits are put behind one another, in capital or
in small letters; a number without a sign may have a `+` in front of its digits; `0x` comes before
hexadecimal digits and the `+`. Below zero an operand has a minus sign in front of a decimal number,
and a number that is typed at a prompt in front of the digits of either base. Every reader accepts
exactly the spellings of its numbers and reads what they spell.
-/

namespace Backstep

namespace Numeral

/-- The character is a digit of the base and stands for the number. -/
def IsDigit (base : Nat) (c : Char) (d : Nat) : Prop :=
  d < base ∧ (c = Nat.digitChar d ∨ c = (Nat.digitChar d).toUpper)

/-- Digits of a base, one at least, that stand for the number. -/
inductive Digits (base : Nat) : List Char → Nat → Prop
  | first {c : Char} {d : Nat} (hdigit : IsDigit base c d) : Digits base [c] d
  | next {cs : List Char} {n : Nat} {c : Char} {d : Nat} (hbefore : Digits base cs n)
      (hdigit : IsDigit base c d) : Digits base (cs ++ [c]) (base * n + d)

/-- Digits behind an optional `+` that stand for a number below the limit. -/
inductive Natural (base limit : Nat) : List Char → Nat → Prop
  | bare {cs : List Char} {n : Nat} (hdigits : Digits base cs n) (hlt : n < limit) :
      Natural base limit cs n
  | plus {cs : List Char} {n : Nat} (hdigits : Digits base cs n) (hlt : n < limit) :
      Natural base limit ('+' :: cs) n

/-- A number of 64 bits without a sign, in decimal digits or behind `0x` in hexadecimal ones. -/
inductive Unsigned : List Char → Nat → Prop
  | decimal {cs : List Char} {n : Nat} (hnumber : Natural 10 UInt64.size cs n) : Unsigned cs n
  | hexadecimal {cs : List Char} {n : Nat} (hnumber : Natural 16 UInt64.size cs n) :
      Unsigned ('0' :: 'x' :: cs) n

/-- An unsigned number, or a decimal one behind a minus sign. -/
inductive Operand : List Char → Int → Prop
  | unsigned {cs : List Char} {n : Nat} (hnumber : Unsigned cs n) : Operand cs n
  | negative {cs : List Char} {n : Nat} (hnumber : Natural 10 UInt64.size cs n) :
      Operand ('-' :: cs) (-n)

/-- An integer of 64 bits: digits behind a minus sign, or a number that may have a `+`. -/
inductive Signed (base : Nat) : List Char → Int → Prop
  | natural {cs : List Char} {n : Nat} (hnumber : Natural base (UInt64.size / 2) cs n) :
      Signed base cs n
  | negative {cs : List Char} {n : Nat} (hdigits : Digits base cs n) (hle : n ≤ UInt64.size / 2) :
      Signed base ('-' :: cs) (-n)

/-- A number as it is typed at a prompt: an integer, decimal or hexadecimal behind `0x`. -/
inductive Typed : List Char → Int → Prop
  | decimal {cs : List Char} {z : Int} (hnumber : Signed 10 cs z) : Typed cs z
  | hexadecimal {cs : List Char} {z : Int} (hnumber : Signed 16 cs z) : Typed ('0' :: 'x' :: cs) z

variable {base limit n d : Nat} {c : Char} {cs : List Char}

/-! ### Digits -/

theorem toNat_lt_of_digit? (h : digit? base c = some d) : c.toNat < 128 := by
  obtain ⟨hvalue, -⟩ := Option.filter_eq_some_iff.1 h
  split at hvalue
  · rename_i hdigit
    obtain ⟨-, hhigh⟩ := Char.isDigit_iff_toNat.1 hdigit
    have hnine : '9'.toNat = 57 := rfl
    omega
  · split at hvalue
    · rename_i hletter
      exact Nat.lt_of_le_of_lt hletter.2 (by decide)
    · split at hvalue
      · rename_i hletter
        exact Nat.lt_of_le_of_lt hletter.2 (by decide)
      · cases hvalue

theorem digit?_eq_filter (hbase : base ≤ 16) (c : Char) :
    digit? base c = (digit? 16 c).filter (· < base) := by
  have hboth : (fun d => decide (d < 16) && decide (d < base)) = fun d => decide (d < base) := by
    funext d
    rw [← Bool.decide_and, decide_eq_decide]
    omega
  simp only [digit?, Option.filter_filter, hboth]

/-- All sixteen digits, in both cases. -/
theorem digit?_digitChar : ∀ d < 16, digit? 16 (Nat.digitChar d) = some d ∧
    digit? 16 (Nat.digitChar d).toUpper = some d := by decide

theorem eq_digitChar_of_digit? : ∀ k < 128, ∀ d < 16, digit? 16 (Char.ofNat k) = some d →
    Char.ofNat k = Nat.digitChar d ∨ Char.ofNat k = (Nat.digitChar d).toUpper := by
  decide +kernel

theorem digit?_eq_some_iff (hbase : base ≤ 16) : digit? base c = some d ↔ IsDigit base c d := by
  rw [digit?_eq_filter hbase, Option.filter_eq_some_iff, decide_eq_true_eq]
  constructor
  · rintro ⟨hdigit, hlt⟩
    have hchar := eq_digitChar_of_digit? c.toNat (toNat_lt_of_digit? hdigit) d (by omega)
    rw [Char.ofNat_toNat] at hchar
    exact ⟨hlt, hchar hdigit⟩
  · rintro ⟨hlt, rfl | rfl⟩
    · exact ⟨(digit?_digitChar d (by omega)).1, hlt⟩
    · exact ⟨(digit?_digitChar d (by omega)).2, hlt⟩

/-! ### Digits, read -/

theorem value_append (cs : List Char) (c : Char) :
    value base (cs ++ [c]) = base * value base cs + (digit? base c).getD 0 := by
  rw [value, List.foldl_append]
  rfl

theorem value_singleton (h : digit? base c = some d) : value base [c] = d := by
  simp [value, h]

theorem Digits.ne_nil (h : Digits base cs n) : cs ≠ [] := by
  cases h with
  | first => exact List.cons_ne_nil _ _
  | next => exact List.append_ne_nil_of_right_ne_nil _ (List.cons_ne_nil _ _)

theorem Digits.isSome (hbase : base ≤ 16) (h : Digits base cs n) :
    ∀ c ∈ cs, (digit? base c).isSome = true := by
  have hone : ∀ {c d}, IsDigit base c d → ∀ e ∈ [c], (digit? base e).isSome = true :=
    fun hdigit => List.forall_mem_singleton.2 (by rw [(digit?_eq_some_iff hbase).2 hdigit]; rfl)
  induction h with
  | first hdigit => exact hone hdigit
  | next _ hdigit ih => exact List.forall_mem_append.2 ⟨ih, hone hdigit⟩

theorem Digits.value (hbase : base ≤ 16) (h : Digits base cs n) : value base cs = n := by
  induction h with
  | first hdigit => exact value_singleton ((digit?_eq_some_iff hbase).2 hdigit)
  | next _ hdigit ih => rw [value_append, ih, (digit?_eq_some_iff hbase).2 hdigit, Option.getD_some]

/-- Digits may be added behind those that are spelled already. -/
theorem Digits.append (hbase : base ≤ 16) {before : List Char}
    (h : Digits base before (Numeral.value base before))
    (hcs : ∀ c ∈ cs, (digit? base c).isSome = true) :
    Digits base (before ++ cs) (Numeral.value base (before ++ cs)) := by
  induction cs generalizing before with
  | nil => rwa [List.append_nil]
  | cons c cs ih =>
    obtain ⟨hc, hcs⟩ := List.forall_mem_cons.1 hcs
    obtain ⟨d, hd⟩ := Option.isSome_iff_exists.1 hc
    have hnext := Digits.next h ((digit?_eq_some_iff hbase).1 hd)
    have hvalue : base * Numeral.value base before + d = Numeral.value base (before ++ [c]) := by
      rw [value_append, hd, Option.getD_some]
    rw [hvalue] at hnext
    have hall := ih hnext hcs
    rwa [List.append_assoc, List.singleton_append] at hall

theorem digits_value (hbase : base ≤ 16) (hfull : cs ≠ [])
    (hcs : ∀ c ∈ cs, (digit? base c).isSome = true) : Digits base cs (value base cs) := by
  cases cs with
  | nil => exact absurd rfl hfull
  | cons c cs =>
    obtain ⟨hc, hcs⟩ := List.forall_mem_cons.1 hcs
    obtain ⟨d, hd⟩ := Option.isSome_iff_exists.1 hc
    have hfirst := Digits.first ((digit?_eq_some_iff hbase).1 hd)
    rw [← value_singleton hd] at hfirst
    exact hfirst.append hbase hcs

theorem ofDigits_eq_ok_iff (hbase : base ≤ 16) :
    ofDigits base limit cs = .ok n ↔ Digits base cs n ∧ n < limit := by
  constructor
  · intro hread
    unfold ofDigits at hread
    simp only at hread
    split at hread
    · cases hread
    · rename_i hfull
      split at hread
      · cases hread
      · rename_i hlt
        split at hread
        · cases hread
        · rename_i hlength
          cases hread
          have hall : cs.takeWhile (fun c => (digit? base c).isSome) = cs :=
            (List.takeWhile_prefix _).eq_of_length_le (Nat.not_lt.1 hlength)
          have hcs := List.all_eq_true.1 (List.all_takeWhile (p := fun c => (digit? base c).isSome)
            (l := cs))
          rw [hall] at hlt hcs ⊢
          exact ⟨digits_value hbase (by simpa using hfull) hcs, Nat.not_le.1 hlt⟩
  · rintro ⟨hdigits, hlt⟩
    rw [← hdigits.value hbase] at hlt ⊢
    exact ofDigits_of_forall hdigits.ne_nil (hdigits.isSome hbase) hlt

/-! ### Numbers, read -/

theorem Natural.mem (hbase : base ≤ 16) (h : Natural base limit cs n) (hc : c ∈ cs) :
    c = '+' ∨ (digit? base c).isSome = true := by
  cases h with
  | bare hdigits => exact .inr (hdigits.isSome hbase c hc)
  | plus hdigits => exact (List.mem_cons.1 hc).imp_right (hdigits.isSome hbase c)

theorem natural_eq_ok_iff (hbase : base ≤ 16) :
    natural base limit cs = .ok n ↔ Natural base limit cs n := by
  constructor
  · intro hread
    unfold natural at hread
    split at hread
    · cases hread
    · obtain ⟨hdigits, hlt⟩ := (ofDigits_eq_ok_iff hbase).1 hread
      exact .plus hdigits hlt
    · obtain ⟨hdigits, hlt⟩ := (ofDigits_eq_ok_iff hbase).1 hread
      exact .bare hdigits hlt
  · intro hnumber
    cases hnumber with
    | bare hdigits hlt =>
      have hhead : cs.head? ≠ some '+' := fun hplus => by
        cases hdigits.isSome hbase _ (List.mem_of_mem_head? hplus)
      rw [natural_of_head? hhead]
      exact (ofDigits_eq_ok_iff hbase).2 ⟨hdigits, hlt⟩
    | @plus cs _ hdigits hlt =>
      have hplus : natural base limit ('+' :: cs) = ofDigits base limit cs := by
        cases cs with
        | nil => exact absurd rfl hdigits.ne_nil
        | cons c cs => rfl
      rw [hplus]
      exact (ofDigits_eq_ok_iff hbase).2 ⟨hdigits, hlt⟩

theorem map_toOption_eq_some_iff {α : Type} {f : Nat → α} {a : α} (hbase : base ≤ 16) :
    (natural base limit cs).toOption.map f = some a ↔
      ∃ n, Natural base limit cs n ∧ f n = a := by
  simp only [← natural_eq_ok_iff hbase]
  cases natural base limit cs with
  | error e => simp [Except.toOption]
  | ok n => simp [Except.toOption]

theorem afterHexMark?_of_natural (h : Natural 10 limit cs n) : afterHexMark? cs = none := by
  unfold afterHexMark?
  split
  · have hx : 'x' = '+' ∨ (digit? 10 'x').isSome = true :=
      h.mem (by decide) (List.mem_cons_of_mem _ List.mem_cons_self)
    exact absurd hx (by decide)
  · rfl

theorem unsigned?_eq_some_iff {u : UInt64} :
    unsigned? cs = some u ↔ ∃ n, Unsigned cs n ∧ UInt64.ofNat n = u := by
  constructor
  · intro hread
    unfold unsigned? at hread
    simp only at hread
    split at hread
    · rename_i digits hmark
      obtain ⟨n, hnumber, hn⟩ := (map_toOption_eq_some_iff (by decide)).1 hread
      unfold afterHexMark? at hmark
      split at hmark
      · cases hmark
        exact ⟨n, .hexadecimal hnumber, hn⟩
      · cases hmark
    · obtain ⟨n, hnumber, hn⟩ := (map_toOption_eq_some_iff (by decide)).1 hread
      exact ⟨n, .decimal hnumber, hn⟩
  · rintro ⟨n, hnumber, rfl⟩
    cases hnumber with
    | decimal hnumber =>
      simp only [unsigned?, afterHexMark?_of_natural hnumber]
      exact (map_toOption_eq_some_iff (by decide)).2 ⟨n, hnumber, rfl⟩
    | hexadecimal hnumber => exact (map_toOption_eq_some_iff (by decide)).2 ⟨n, hnumber, rfl⟩

theorem toInt64_ofNat (n : Nat) : (UInt64.ofNat n).toInt64 = Int64.ofInt n := by
  rw [UInt64.toInt64_ofNat', Int64.ofInt_eq_ofNat]

theorem isSome_digit?_sixteen (hbase : base ≤ 16) (h : (digit? base c).isSome = true) :
    (digit? 16 c).isSome = true := by
  rw [digit?_eq_filter hbase] at h
  cases hdigit : digit? 16 c with
  | none =>
    rw [hdigit] at h
    cases h
  | some d => rfl

theorem Unsigned.mem (h : Unsigned cs n) (hc : c ∈ cs) :
    c = '+' ∨ c = 'x' ∨ (digit? 16 c).isSome = true := by
  cases h with
  | decimal hnumber =>
    exact (hnumber.mem (by decide) hc).imp_right fun hdigit =>
      .inr (isSome_digit?_sixteen (by decide) hdigit)
  | hexadecimal hnumber =>
    rcases List.mem_cons.1 hc with rfl | hc
    · exact .inr (.inr rfl)
    · rcases List.mem_cons.1 hc with rfl | hc
      · exact .inr (.inl rfl)
      · exact (hnumber.mem (by decide) hc).imp_right .inr

theorem operand?_eq_some_iff {w : Word} :
    operand? cs = some w ↔ ∃ z, Operand cs z ∧ Int64.ofInt z = w := by
  constructor
  · intro hread
    unfold operand? at hread
    split at hread
    · obtain ⟨n, hnumber, rfl⟩ := (map_toOption_eq_some_iff (by decide)).1 hread
      refine ⟨-n, .negative hnumber, ?_⟩
      rw [toInt64_ofNat, Int64.ofInt_neg]
    · obtain ⟨u, hu, rfl⟩ := Option.map_eq_some_iff.1 hread
      obtain ⟨n, hnumber, rfl⟩ := unsigned?_eq_some_iff.1 hu
      exact ⟨n, .unsigned hnumber, (toInt64_ofNat n).symm⟩
  · rintro ⟨z, hnumber, rfl⟩
    cases hnumber with
    | @unsigned _ n hnumber =>
      have hread : operand? cs = (unsigned? cs).map UInt64.toInt64 := by
        unfold operand?
        split
        · have hminus := hnumber.mem List.mem_cons_self
          exact absurd hminus (by decide)
        · rfl
      rw [hread, unsigned?_eq_some_iff.2 ⟨n, hnumber, rfl⟩, Option.map_some, toInt64_ofNat]
    | @negative _ n hnumber =>
      refine (map_toOption_eq_some_iff (by decide)).2 ⟨n, hnumber, ?_⟩
      rw [toInt64_ofNat, Int64.ofInt_neg]

theorem byte?_eq_some_iff {b : UInt8} :
    byte? cs = some b ↔ ∃ n, Natural 10 256 cs n ∧ UInt8.ofNat n = b :=
  map_toOption_eq_some_iff (by decide)

/-! ### Numbers that are typed, read -/

theorem Natural.mono {limit' : Nat} (h : Natural base limit cs n) (hle : limit ≤ limit') :
    Natural base limit' cs n := by
  cases h with
  | bare hdigits hlt => exact .bare hdigits (Nat.lt_of_lt_of_le hlt hle)
  | plus hdigits hlt => exact .plus hdigits (Nat.lt_of_lt_of_le hlt hle)

/-- Whatever their ranges, two readers of one base read the same number. -/
theorem Natural.unique {limit' n' : Nat} (hbase : base ≤ 16) (h : Natural base limit cs n)
    (h' : Natural base limit' cs n') : n = n' := by
  have hread := (natural_eq_ok_iff hbase).2 (h.mono (Nat.le_max_left limit limit'))
  have hread' := (natural_eq_ok_iff hbase).2 (h'.mono (Nat.le_max_right limit limit'))
  exact Except.ok.inj (hread.symm.trans hread')

theorem Natural.head?_ne (hbase : base ≤ 16) (h : Natural base limit cs n) :
    cs.head? ≠ some '-' := fun hminus => by
  rcases h.mem hbase (List.mem_of_mem_head? hminus) with hplus | hdigit
  · cases hplus
  · rw [digit?_eq_filter hbase] at hdigit
    cases hdigit

theorem integer_minus_eq_ok_iff {z : Int} : integer base ('-' :: cs) = .ok z ↔
    ∃ n, ofDigits base (UInt64.size / 2 + 1) cs = .ok n ∧ -(n : Int) = z := by
  rw [integer]
  cases ofDigits base (UInt64.size / 2 + 1) cs with
  | error e => simp [bind, Except.bind, Except.map]
  | ok n => simp [bind, Except.bind, pure, Except.pure, Except.map]

theorem integer_eq_ok_iff_of_head? {z : Int} (h : cs.head? ≠ some '-') :
    integer base cs = .ok z ↔ ∃ n, natural base (UInt64.size / 2) cs = .ok n ∧ (n : Int) = z := by
  unfold integer
  split
  · exact absurd rfl h
  · cases natural base (UInt64.size / 2) cs with
    | error e => simp [bind, Except.bind, Except.map]
    | ok n => simp [bind, Except.bind, pure, Except.pure, Except.map]

theorem integer_eq_ok_iff {z : Int} (hbase : base ≤ 16) :
    integer base cs = .ok z ↔ Signed base cs z := by
  constructor
  · intro hread
    by_cases hminus : cs.head? = some '-'
    · obtain ⟨cs, rfl⟩ := List.head?_eq_some_iff.1 hminus
      obtain ⟨n, hbehind, rfl⟩ := integer_minus_eq_ok_iff.1 hread
      obtain ⟨hdigits, hlt⟩ := (ofDigits_eq_ok_iff hbase).1 hbehind
      exact .negative hdigits (Nat.le_of_lt_succ hlt)
    · obtain ⟨n, hplain, rfl⟩ := (integer_eq_ok_iff_of_head? hminus).1 hread
      exact .natural ((natural_eq_ok_iff hbase).1 hplain)
  · intro hnumber
    cases hnumber with
    | natural hnumber =>
      have hread := (natural_eq_ok_iff hbase).2 hnumber
      exact (integer_eq_ok_iff_of_head? (hnumber.head?_ne hbase)).2 ⟨_, hread, rfl⟩
    | negative hdigits hle =>
      have hread := (ofDigits_eq_ok_iff hbase).2 ⟨hdigits, Nat.lt_succ_of_le hle⟩
      exact integer_minus_eq_ok_iff.2 ⟨_, hread, rfl⟩

/-- A number that is typed is a word. -/
theorem Signed.toInt_ofInt {z : Int} (h : Signed base cs z) : (Int64.ofInt z).toInt = z := by
  have hsize : UInt64.size / 2 = 9223372036854775808 := rfl
  have hbounds : -9223372036854775808 ≤ z ∧ z < 9223372036854775808 := by
    cases h with
    | natural hnumber =>
      cases hnumber with
      | bare _ hlt | plus _ hlt => omega
    | negative _ hle => omega
  exact Int64.toInt_ofInt_of_le (by omega) (by omega)

theorem afterHexMark?_of_signed {z : Int} (h : Signed 10 cs z) : afterHexMark? cs = none := by
  cases h with
  | natural hnumber => exact afterHexMark?_of_natural hnumber
  | negative => rfl

/-- Every word that is typed is read, and nothing else is. -/
theorem word?_eq_some_iff {w : Word} : word? cs = some w ↔ Typed cs w.toInt := by
  have hsome : ∀ {base digits}, base ≤ 16 →
      ((integer base digits).toOption.map Int64.ofInt = some w ↔ Signed base digits w.toInt) := by
    intro base digits hbase
    rw [← integer_eq_ok_iff hbase]
    cases hread : integer base digits with
    | error e => simp [Except.toOption]
    | ok z =>
      have hz : (Int64.ofInt z).toInt = z := ((integer_eq_ok_iff hbase).1 hread).toInt_ofInt
      simp only [Except.toOption, Option.map_some, Option.some.injEq, Except.ok.injEq,
        ← Int64.toInt_inj, hz]
  constructor
  · intro hread
    unfold word? at hread
    simp only at hread
    split at hread
    · rename_i digits hmark
      unfold afterHexMark? at hmark
      split at hmark
      · cases hmark
        exact .hexadecimal ((hsome (by decide)).1 hread)
      · cases hmark
    · exact .decimal ((hsome (by decide)).1 hread)
  · intro hnumber
    generalize hz : w.toInt = z at hnumber
    cases hnumber with
    | decimal hnumber =>
      simp only [word?, afterHexMark?_of_signed hnumber]
      exact (hsome (by decide)).2 (hz ▸ hnumber)
    | hexadecimal hnumber => exact (hsome (by decide)).2 (hz ▸ hnumber)

theorem digits_toString (n : Nat) : Digits 10 (toString n).toList n := by
  have hread := natural_toString (Nat.lt_succ_self n)
  rw [natural_of_head? (head?_toString_ne n (by decide))] at hread
  exact ((ofDigits_eq_ok_iff (by decide)).1 hread).1

/-- A word that is written as a decimal number is read back. -/
theorem word?_toString (w : Word) : word? (toString w.toInt).toList = some w := by
  have hlow := w.le_toInt
  have hhigh := w.toInt_lt
  have hsize : UInt64.size / 2 = 9223372036854775808 := rfl
  refine word?_eq_some_iff.2 (.decimal ?_)
  generalize w.toInt = z at hlow hhigh
  rw [toList_toString_int]
  split
  · rename_i hnonneg
    obtain ⟨n, rfl⟩ := Int.eq_ofNat_of_zero_le hnonneg
    exact .natural (.bare (digits_toString n) (by omega))
  · rename_i hnegative
    obtain ⟨n, hn⟩ := Int.eq_ofNat_of_zero_le (show 0 ≤ -z by omega)
    obtain rfl : z = -n := by omega
    rw [Int.neg_neg]
    exact .negative (digits_toString n) (by omega)

/-- Where an operand is spelled as a number that may be typed too, they are the same number. -/
theorem Operand.eq_of_typed {z z' : Int} (h : Operand cs z) (h' : Typed cs z') : z = z' := by
  cases h with
  | unsigned hnumber =>
    cases hnumber with
    | decimal hnumber =>
      cases h' with
      | decimal hsigned =>
        cases hsigned with
        | natural hnumber' => exact congrArg _ (hnumber.unique (by decide) hnumber')
        | negative => exact absurd rfl (hnumber.head?_ne (by decide))
      | hexadecimal => cases afterHexMark?_of_natural hnumber
    | hexadecimal hnumber =>
      cases h' with
      | decimal hsigned => cases afterHexMark?_of_signed hsigned
      | hexadecimal hsigned =>
        cases hsigned with
        | natural hnumber' => exact congrArg _ (hnumber.unique (by decide) hnumber')
        | negative => exact absurd rfl (hnumber.head?_ne (by decide))
  | negative hnumber =>
    cases h' with
    | decimal hsigned =>
      cases hsigned with
      | natural hnumber' => exact absurd rfl (hnumber'.head?_ne (by decide))
      | negative hdigits hle =>
        have hsame := hnumber.unique (by decide) (.bare hdigits (Nat.lt_succ_of_le hle))
        rw [hsame]

end Numeral

end Backstep
