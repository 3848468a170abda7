import Backstep.Word
/-!
# Maps from addresses

A map holds its entries in strictly increasing order of address, so two maps with the same entries
are the same map, and walking one visits every address once and in order.
-/

namespace Backstep

structure AddressMap (α : Type) where
  entries : List (Address × α) := []
  increasing : entries.Pairwise (·.1 < ·.1) := by exact .nil

abbrev AddressSet := AddressMap Unit

namespace AddressMap

variable {α : Type}

theorem ext_entries {m n : AddressMap α} (h : m.entries = n.entries) : m = n := by
  cases m; cases n; cases h; rfl

instance [DecidableEq α] : DecidableEq (AddressMap α) := fun m n =>
  if h : m.entries = n.entries then .isTrue (ext_entries h) else .isFalse (h <| · ▸ rfl)

def empty : AddressMap α := { entries := [], increasing := .nil }

instance : Inhabited (AddressMap α) := ⟨empty⟩

/-- Puts an entry in its place; an entry with the same address gives way. -/
def insertEntry (a : Address) (v : α) : List (Address × α) → List (Address × α)
  | [] => [(a, v)]
  | e :: es =>
    if a < e.1 then (a, v) :: e :: es
    else if a = e.1 then (a, v) :: es
    else e :: insertEntry a v es

theorem mem_insertEntry {a : Address} {v : α} {e : Address × α} {es : List (Address × α)}
    (h : e ∈ insertEntry a v es) : e = (a, v) ∨ e ∈ es := by
  induction es with
  | nil => exact .inl (List.mem_singleton.1 h)
  | cons x xs ih =>
    simp only [insertEntry] at h
    split at h
    · simpa using h
    · split at h
      · rcases List.mem_cons.1 h with rfl | h
        · exact .inl rfl
        · exact .inr (List.mem_cons_of_mem _ h)
      · rcases List.mem_cons.1 h with rfl | h
        · exact .inr List.mem_cons_self
        · exact (ih h).imp id (List.mem_cons_of_mem _)

theorem pairwise_insertEntry (a : Address) (v : α) {es : List (Address × α)}
    (h : es.Pairwise (·.1 < ·.1)) : (insertEntry a v es).Pairwise (·.1 < ·.1) := by
  induction es with
  | nil => exact List.pairwise_singleton _ _
  | cons x xs ih =>
    have below : ∀ {e : Address × α}, e ∈ xs → x.1 < e.1 := List.rel_of_pairwise_cons h
    have rest := h.of_cons
    simp only [insertEntry]
    split
    · rename_i before
      refine List.pairwise_cons.2 ⟨fun e he => ?_, h⟩
      rcases List.mem_cons.1 he with rfl | he
      · exact before
      · exact UInt64.lt_trans before (below he)
    · split
      · rename_i same
        exact List.pairwise_cons.2 ⟨fun e he => same ▸ below he, rest⟩
      · rename_i notBefore different
        refine List.pairwise_cons.2 ⟨fun e he => ?_, ih rest⟩
        rcases mem_insertEntry he with rfl | he
        · exact UInt64.lt_of_le_of_ne (UInt64.not_lt.1 notBefore) (Ne.symm different)
        · exact below he

def insert (m : AddressMap α) (a : Address) (v : α) : AddressMap α :=
  ⟨insertEntry a v m.entries, pairwise_insertEntry a v m.increasing⟩

def find? (m : AddressMap α) (a : Address) : Option α := (m.entries.find? (·.1 == a)).map (·.2)

def keys (m : AddressMap α) : List Address := m.entries.map (·.1)

def values (m : AddressMap α) : List α := m.entries.map (·.2)

def size (m : AddressMap α) : Nat := m.entries.length

def domain (m : AddressMap α) : AddressSet :=
  ⟨m.entries.map fun e => (e.1, ()), List.pairwise_map.2 m.increasing⟩

/-- Both maps in one; where both have an entry the second one's stands. -/
def union (m n : AddressMap α) : AddressMap α :=
  n.entries.foldl (fun u e => u.insert e.1 e.2) m

end AddressMap

end Backstep
