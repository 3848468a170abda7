import Backstep.AddressMap
/-!
# What is in a map from addresses

What a map has at an address is all there is to know of it: maps that have the same at every address
are the same map. So an equation between maps is proved by looking up an address in both sides.
-/

namespace Backstep

namespace AddressMap

variable {α : Type} {a : Address} {m n : AddressMap α}

/-! ### Looking up -/

theorem find?_insertEntry (a : Address) (v : α) (es : List (Address × α)) (b : Address) :
    ((insertEntry a v es).find? (·.1 == b)).map (·.2)
      = if b = a then some v else (es.find? (·.1 == b)).map (·.2) := by
  induction es with
  | nil => by_cases hb : b = a <;> simp [insertEntry, hb, Ne.symm]
  | cons e es ih =>
    rw [insertEntry]
    split
    · by_cases hb : b = a
      · simp [hb]
      · simp [hb, Ne.symm hb]
    · split
      · rename_i hsame
        by_cases hb : b = a
        · simp [hb]
        · simp [hb, Ne.symm hb, ← hsame]
      · rename_i hdifferent
        by_cases he : e.1 = b
        · have hb : ¬ b = a := fun hba => hdifferent (he.trans hba).symm
          simp [he, hb]
        · simpa [he] using ih

theorem find?_insert (m : AddressMap α) (a : Address) (v : α) (b : Address) :
    (m.insert a v).find? b = if b = a then some v else m.find? b :=
  find?_insertEntry a v m.entries b

theorem find?_eq_none_of_lt {es : List (Address × α)} (h : ∀ e ∈ es, a < e.1) :
    es.find? (·.1 == a) = none :=
  List.find?_eq_none.2 fun e he hkey =>
    UInt64.ne_of_lt (h e he) (eq_of_beq hkey).symm

/-- Nothing is found below the first entry. -/
theorem not_lt_of_find? {f : Address × α} {fs : List (Address × α)}
    (h : (f :: fs).Pairwise (·.1 < ·.1))
    (hfound : (((f :: fs).find? (·.1 == a)).map (·.2)).isSome = true) : ¬ a < f.1 := by
  intro hlt
  have hnone : (f :: fs).find? (·.1 == a) = none :=
    find?_eq_none_of_lt (List.forall_mem_cons.2
      ⟨hlt, fun d hd => UInt64.lt_trans hlt (List.rel_of_pairwise_cons h hd)⟩)
  rw [hnone] at hfound
  cases hfound

/-- Entries in strictly increasing order are known from what is found under each address. -/
theorem eq_of_find? {es fs : List (Address × α)} (hes : es.Pairwise (·.1 < ·.1))
    (hfs : fs.Pairwise (·.1 < ·.1))
    (hfind : ∀ a, (es.find? (·.1 == a)).map (·.2) = (fs.find? (·.1 == a)).map (·.2)) :
    es = fs := by
  induction es generalizing fs with
  | nil =>
    cases fs with
    | nil => rfl
    | cons f fs => simpa using hfind f.1
  | cons e es ih =>
    cases fs with
    | nil => simpa using hfind e.1
    | cons f fs =>
      have hkey : e.1 = f.1 := by
        have hforth := not_lt_of_find? (a := e.1) hfs (by simp [← hfind])
        have hback := not_lt_of_find? (a := f.1) hes (by simp [hfind])
        exact UInt64.le_antisymm (UInt64.not_lt.1 hback) (UInt64.not_lt.1 hforth)
      obtain ⟨hafter, hes⟩ := List.pairwise_cons.1 hes
      obtain ⟨hbehind, hfs⟩ := List.pairwise_cons.1 hfs
      have hvalue : e.2 = f.2 := by simpa [hkey] using hfind e.1
      have hrest : es = fs := by
        refine ih hes hfs fun a => ?_
        by_cases ha : e.1 = a
        · subst ha
          rw [find?_eq_none_of_lt hafter, find?_eq_none_of_lt fun d hd => hkey ▸ hbehind d hd]
        · simpa [ha, ← hkey] using hfind a
      rw [hrest, Prod.ext hkey hvalue]

theorem ext_find? (h : ∀ a, m.find? a = n.find? a) : m = n :=
  ext_entries (eq_of_find? m.increasing n.increasing h)

theorem find?_foldl_insert {es : List (Address × α)} (hes : es.Pairwise (·.1 < ·.1))
    (m : AddressMap α) (a : Address) :
    (es.foldl (fun u e => u.insert e.1 e.2) m).find? a
      = ((es.find? (·.1 == a)).map (·.2)).or (m.find? a) := by
  induction es generalizing m with
  | nil => rfl
  | cons e es ih =>
    obtain ⟨hafter, hes⟩ := List.pairwise_cons.1 hes
    rw [List.foldl_cons, ih hes, find?_insert]
    by_cases ha : a = e.1
    · subst ha
      rw [find?_eq_none_of_lt hafter]
      simp
    · simp [ha, Ne.symm ha]

/-- In a union the second map's entry stands. -/
theorem find?_union (m n : AddressMap α) (a : Address) :
    (m.union n).find? a = (n.find? a).or (m.find? a) := find?_foldl_insert n.increasing m a

theorem union_insert (m n : AddressMap α) (a : Address) (v : α) :
    m.union (n.insert a v) = (m.union n).insert a v := by
  refine ext_find? fun b => ?_
  rw [find?_union, find?_insert, find?_insert, find?_union]
  split
  · rfl
  · rfl

/-! ### Keys -/

theorem mem_keys_iff : a ∈ m.keys ↔ (m.find? a).isSome = true := by
  simp [keys, find?]

theorem mem_keys_insert {b : Address} {v : α} :
    b ∈ (m.insert a v).keys ↔ b = a ∨ b ∈ m.keys := by
  rw [mem_keys_iff, mem_keys_iff, find?_insert]
  split
  · rename_i hsame
    exact iff_of_true rfl (.inl hsame)
  · rename_i hdifferent
    exact (or_iff_right hdifferent).symm

theorem mem_keys_union : a ∈ (m.union n).keys ↔ a ∈ m.keys ∨ a ∈ n.keys := by
  rw [mem_keys_iff, mem_keys_iff, mem_keys_iff, find?_union, Option.isSome_or, Bool.or_eq_true,
    or_comm]

theorem pairwise_keys (m : AddressMap α) : m.keys.Pairwise (· < ·) :=
  List.pairwise_map.2 m.increasing

theorem keys_domain (m : AddressMap α) : m.domain.keys = m.keys := by
  simp [domain, keys]

end AddressMap

end Backstep
