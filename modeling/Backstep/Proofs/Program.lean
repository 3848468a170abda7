import Backstep.Listing.Reader
import Backstep.Proofs.WordMemory
import Backstep.Workbench.Bounds
/-!
# Programs that are accepted

A program that was read from a listing has fewer instructions than an address can count and finds
each variable under its address. If nothing of it is misplaced as well, then whatever it names as an
address, of a variable or of a word, lies inside memory: it is `Bounded`.
-/

namespace Backstep

namespace Text

theorem length_le_utf8ByteSize (cs : List Char) : cs.length ≤ (String.ofList cs).utf8ByteSize := by
  induction cs with
  | nil => exact Nat.zero_le _
  | cons c cs ih =>
    have hsize := c.utf8Size_pos
    rw [String.ofList_cons, String.utf8ByteSize_append, String.utf8ByteSize_singleton,
      List.length_cons]
    omega

theorem length_splitOn_le (c : Char) (cs : List Char) : (cs.splitOn c).length ≤ cs.length + 1 := by
  unfold List.splitOn
  induction cs with
  | nil => exact Nat.le_refl _
  | cons x xs ih =>
    rw [List.splitOnP_cons_eq_if_modifyHead]
    split
    · rw [List.length_cons, List.length_cons]
      omega
    · rw [List.length_modifyHead, List.length_cons]
      omega

end Text

namespace Program

/-- Each variable stands under its own address. -/
def Keyed (p : Program) : Prop := ∀ e ∈ p.vars.entries, e.1 = e.2.address

theorem add_size_le (p : Program) (e : Listing.Entry) : (p.add e).size ≤ p.size + 1 := by
  cases e with
  | data | declaration => exact Nat.le_succ _
  | instruction => simp [add, size]

theorem Keyed.add {p : Program} (hp : p.Keyed) (e : Listing.Entry) : (p.add e).Keyed := by
  cases e with
  | data | instruction => exact hp
  | declaration v =>
    intro entry hentry
    rcases AddressMap.mem_insertEntry hentry with rfl | hold
    · rfl
    · exact hp entry hold

theorem size_foldl_add_le (es : List Listing.Entry) (p : Program) :
    (es.foldl add p).size ≤ p.size + es.length := by
  induction es generalizing p with
  | nil => exact Nat.le_refl _
  | cons e es ih =>
    have hrest := ih (p.add e)
    have hfirst := p.add_size_le e
    rw [List.foldl_cons, List.length_cons]
    omega

theorem Keyed.foldl_add (es : List Listing.Entry) {p : Program} (hp : p.Keyed) :
    (es.foldl Program.add p).Keyed := by
  induction es generalizing p with
  | nil => exact hp
  | cons e es ih => exact ih (hp.add e)

end Program

theorem Listing.length_readLines {number : Nat} {lines : List (List Char)} {es : List Entry}
    (hread : readLines number lines = .ok es) : es.length ≤ lines.length := by
  induction lines generalizing number es with
  | nil =>
    cases hread
    exact Nat.le_refl _
  | cons line lines ih =>
    rw [readLines] at hread
    cases hline : readLine line with
    | error cause =>
      rw [hline] at hread
      cases hread
    | ok entry? =>
      rw [hline] at hread
      cases hrest : readLines (number + 1) lines with
      | error p =>
        rw [hrest] at hread
        cases hread
      | ok rest =>
        rw [hrest] at hread
        cases hread
        have hlength := ih hrest
        rw [List.length_append, List.length_cons]
        have hone : entry?.toList.length ≤ 1 := by cases entry? <;> simp
        omega

namespace Program

theorem of_read {listing : String} {p : Program} (hread : read listing = .ok p) :
    p.size ≤ listing.utf8ByteSize + 1 ∧ p.Keyed := by
  unfold read at hread
  cases hlines : Listing.readLines 1 (listing.toList.splitOn '\n') with
  | error problem =>
    rw [hlines] at hread
    cases hread
  | ok es =>
    rw [hlines] at hread
    cases hread
    have hentries := Listing.length_readLines hlines
    have hsplit := Text.length_splitOn_le '\n' listing.toList
    have hbytes := Text.length_le_utf8ByteSize listing.toList
    have hsize := size_foldl_add_le es {}
    have hnone : ({} : Program).size = 0 := rfl
    rw [String.ofList_toList] at hbytes
    refine ⟨?_, Keyed.foldl_add es fun _ he => absurd he List.not_mem_nil⟩
    unfold ofEntries
    omega

/-! ### Nothing is misplaced -/

/-- A memory of the given size has room for whatever the program names as an address. -/
structure Bounded (p : Program) (memorySize : Nat) : Prop where
  short : p.size < UInt64.size
  keyed : p.Keyed
  declared : ∀ e ∈ p.vars.entries, e.2.address.toNat + 8 ≤ memorySize
  operands : ∀ {k i}, p.instruction? k = some i → i.op?.any (·.takesAddress) = true →
    (i.operand 0).address.toNat + 8 ≤ memorySize

theorem bounded_of_misplaced? {listing : String} {p : Program} {memorySize : Nat}
    (hlength : listing.utf8ByteSize < UInt64.size / 2) (hread : read listing = .ok p)
    (hplaced : p.misplaced? memorySize = none) : p.Bounded memorySize := by
  obtain ⟨hsize, hkeyed⟩ := of_read hread
  have hshort : p.size < UInt64.size := by
    rw [UInt64.size] at hlength ⊢
    omega
  obtain ⟨hvariables, hoperands⟩ := Option.or_eq_none_iff.1 hplaced
  refine ⟨hshort, hkeyed, fun e he => ?_, fun {k i} hi haddress => ?_⟩
  · have hfits := List.findSome?_eq_none_iff.1 hvariables e.2 (List.mem_map_of_mem he)
    rw [ite_eq_left_iff] at hfits
    have hfits' : Word.Fits e.2.address.toInt64 memorySize := by
      by_cases h : Word.Fits e.2.address.toInt64 memorySize
      · exact h
      · exact absurd (hfits h) (Option.some_ne_none _)
    have haddress := Word.address_le_of_fits hfits'
    rwa [Word.address, UInt64.toUInt64_toInt64] at haddress
  · have hmem : (i, k) ∈ p.code.toList.zipIdx := by
      rw [List.mem_zipIdx_iff_getElem?, Array.getElem?_toList]
      exact hi
    have hfits := List.findSome?_eq_none_iff.1 hoperands (i, k) hmem
    rw [ite_eq_right_iff] at hfits
    have hfits' : Word.Fits (i.operand 0) memorySize := by
      by_cases h : Word.Fits (i.operand 0) memorySize
      · exact h
      · exact absurd (hfits ⟨haddress, h⟩) (Option.some_ne_none _)
    exact Word.address_le_of_fits hfits'

end Program

end Backstep
