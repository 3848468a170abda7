import Backstep.Proofs.Listing.Entry
import Backstep.Proofs.Program
/-!
# The entries of a program

A program whose lists fit together (`Program.Listable`) is made of its own entries again. Every
program that was read from a listing is of this kind, since each entry keeps it so.
-/

namespace Backstep

namespace AddressMap

variable {α : Type}

theorem insertEntry_of_lt {a : Address} {v : α} {es : List (Address × α)}
    (h : ∀ e ∈ es, e.1 < a) : insertEntry a v es = es ++ [(a, v)] := by
  induction es with
  | nil => rfl
  | cons e es ih =>
    have hfirst := h e List.mem_cons_self
    have hrest := ih fun d hd => h d (List.mem_cons_of_mem _ hd)
    rw [insertEntry, if_neg (UInt64.lt_asymm hfirst), if_neg (UInt64.ne_of_lt hfirst).symm, hrest]
    rfl

/-- Inserting values in the order of their addresses appends them. -/
theorem entries_foldl_insert {f : α → Address} {m : AddressMap α} {es : List (Address × α)}
    (hincreasing : (m.entries ++ es).Pairwise (·.1 < ·.1)) (hkeyed : ∀ e ∈ es, e.1 = f e.2) :
    ((es.map (·.2)).foldl (fun n v => n.insert (f v) v) m).entries = m.entries ++ es := by
  induction es generalizing m with
  | nil => rw [List.append_nil]; rfl
  | cons e es ih =>
    have hkey : f e.2 = e.1 := (hkeyed e List.mem_cons_self).symm
    have hlast : ∀ d ∈ m.entries, d.1 < f e.2 := fun d hd => by
      rw [hkey]
      exact (List.pairwise_append.1 hincreasing).2.2 d hd e List.mem_cons_self
    have hentries : (m.insert (f e.2) e.2).entries = m.entries ++ [e] := by
      show insertEntry (f e.2) e.2 m.entries = m.entries ++ [e]
      rw [insertEntry_of_lt hlast, hkey]
    have hrest := ih (m := m.insert (f e.2) e.2)
      (by rw [hentries, List.append_assoc]; exact hincreasing)
      (fun d hd => hkeyed d (List.mem_cons_of_mem _ hd))
    rw [List.map_cons, List.foldl_cons, hrest, hentries, List.append_assoc]
    rfl

end AddressMap

namespace Program

open Listing (Entry)

variable {p : Program}

/-- Each variable stands under its own address and has a name of one word, statements start at
instructions in strictly increasing order, and each instruction has one source line. -/
structure Listable (p : Program) : Prop where
  keyed : p.Keyed
  named : ∀ e ∈ p.vars.entries, e.2.Named
  increasing : p.starts.toList.Pairwise (· < ·)
  starts : ∀ k ∈ p.starts, k < p.size
  lines : p.lines.size = p.size

/-! ### From the entries -/

theorem foldl_add_dataEntries (p q : Program) :
    p.dataEntries.foldl add q = { q with data := q.data ++ p.data } := by
  have hlist : ∀ a b : Array UInt8, a ++ b.toList = a ++ b :=
    fun a b => Array.toList_inj.1 (by simp)
  have hchunks : ∀ n, ((List.range n).map fun i =>
      Entry.data (p.data.extract (16 * i) (16 * i + 16)).toList).foldl add q
        = { q with data := q.data ++ p.data.extract 0 (16 * n) } := by
    intro n
    induction n with
    | zero => simp
    | succ n ih =>
      have happend : p.data.extract 0 (16 * n) ++ p.data.extract (16 * n) (16 * n + 16)
          = p.data.extract 0 (16 * (n + 1)) := by
        rw [Array.extract_append_extract, Nat.zero_min, Nat.max_eq_right (by omega)]
        rfl
      rw [List.range_succ, List.map_append, List.foldl_append, ih]
      simp only [List.map_cons, List.map_nil, List.foldl_cons, List.foldl_nil, add,
        hlist, Array.append_assoc, happend]
  have hall : p.data.extract 0 (16 * ((p.data.size + 15) / 16)) = p.data :=
    Array.extract_eq_self_of_le (by omega)
  rw [dataEntries, hchunks, hall]

theorem foldl_add_declarations (vs : List Variable) (q : Program) :
    (vs.map Entry.declaration).foldl add q
      = { q with vars := vs.foldl (fun m v => m.insert v.address v) q.vars } := by
  induction vs generalizing q with
  | nil => rfl
  | cons v vs ih => exact ih (q.add (.declaration v))

theorem length_codeEntries (p : Program) : p.codeEntries.length = p.size := by
  simp [codeEntries, size]

theorem take_size_codeEntries (p : Program) : p.codeEntries.take p.size = p.codeEntries := by
  rw [← length_codeEntries, List.take_length]

theorem getElem_codeEntries {k : Nat} (hk : k < p.codeEntries.length) (hcode : k < p.code.size) :
    p.codeEntries[k] = .instruction (p.startsAt k) ((p.line? k).getD 0) p.code[k] := by
  simp [codeEntries]

theorem filter_lt_succ {l : List Nat} (h : l.Pairwise (· < ·)) (k : Nat) :
    l.filter (· < k + 1) = l.filter (· < k) ++ if k ∈ l then [k] else [] := by
  induction l with
  | nil => simp
  | cons n l ih =>
    have hbelow := (List.pairwise_cons.1 h).1
    have hrest := ih (List.pairwise_cons.1 h).2
    rcases Nat.lt_trichotomy n k with hlt | rfl | hgt
    · have hmem : k ∈ n :: l ↔ k ∈ l := by simp [show k ≠ n by omega]
      simp only [List.filter_cons, decide_eq_true_eq, if_pos hlt, if_pos (Nat.lt_succ_of_lt hlt),
        hrest, hmem, List.cons_append]
    · have hnone : l.filter (· < n) = [] := List.filter_eq_nil_iff.2 fun j hj hlt =>
        Nat.lt_asymm (hbelow j hj) (of_decide_eq_true hlt)
      have hnot : n ∉ l := fun hmem => Nat.lt_irrefl n (hbelow n hmem)
      simp only [List.filter_cons, decide_eq_true_eq, if_pos (Nat.lt_succ_self n),
        if_neg (Nat.lt_irrefl n), hrest, hnone, if_neg hnot, if_pos (List.mem_cons_self (a := n)),
        List.append_nil, List.nil_append]
    · have hnot : k ∉ l := fun hmem => Nat.lt_asymm hgt (hbelow k hmem)
      have hmem : k ∉ n :: l := by simp [show k ≠ n by omega, hnot]
      have hbeyond : ¬ n < k + 1 := by omega
      simp only [List.filter_cons, decide_eq_true_eq, if_neg hbeyond, if_neg (Nat.lt_asymm hgt),
        hrest, if_neg hnot, if_neg hmem]

/-- Adding the first instructions makes the first part of the code and of what is noted about it. By
induction on their number: a statement that starts at the last one is the last to be noted. -/
theorem foldl_add_take_codeEntries (hp : p.Listable) {q : Program} (hcode : q.code = #[])
    (hstarts : q.starts = #[]) (hlines : q.lines = #[]) {k : Nat} (hk : k ≤ p.size) :
    (p.codeEntries.take k).foldl add q
      = { q with
          code := p.code.extract 0 k
          starts := (p.starts.toList.filter (· < k)).toArray
          lines := p.lines.extract 0 k } := by
  induction k with
  | zero =>
    have hnone : p.starts.toList.filter (· < 0) = [] := List.filter_eq_nil_iff.2 (by simp)
    rw [List.take_zero, hnone, Array.extract_zero, Array.extract_zero, ← hcode, ← hstarts, ← hlines]
    rfl
  | succ k ih =>
    have hbound : k < p.code.size := hk
    have hlength : k < p.codeEntries.length := by rw [length_codeEntries]; exact hk
    have hline : k < p.lines.size := by rw [hp.lines]; exact hk
    have hread : p.line? k = some p.lines[k] := Array.getElem?_eq_getElem hline
    have hsize : (p.code.extract 0 k).size = k := by simp; omega
    have hpushCode := Array.push_extract_getElem (i := 0) hbound
    have hpushLine := Array.push_extract_getElem (i := 0) hline
    rw [Nat.zero_min] at hpushCode hpushLine
    rw [List.take_succ_eq_append_getElem hlength, List.foldl_append, ih (Nat.le_of_succ_le hk),
      getElem_codeEntries hlength hbound, filter_lt_succ hp.increasing]
    have hstart : p.startsAt k = decide (k ∈ p.starts.toList) := by simp [startsAt]
    simp only [List.foldl_cons, List.foldl_nil, add, hread, Option.getD_some, hpushCode, hpushLine,
      hsize, hstart, decide_eq_true_eq]
    split <;> simp

/-- A program is made of its own entries. -/
theorem ofEntries_entries (hp : p.Listable) : ofEntries p.entries = p := by
  have hvars : p.vars.values.foldl (fun m v => m.insert v.address v) AddressMap.empty = p.vars :=
    AddressMap.ext_entries
      (AddressMap.entries_foldl_insert (m := .empty) p.vars.increasing hp.keyed)
  have hdata : (#[] : Array UInt8) ++ p.data = p.data := Array.empty_append
  have hcode : p.code.extract 0 p.size = p.code := Array.extract_eq_self_of_le (Nat.le_refl _)
  have hlines : p.lines.extract 0 p.size = p.lines :=
    Array.extract_eq_self_of_le (Nat.le_of_eq hp.lines)
  have hstarts : p.starts.toList.filter (· < p.size) = p.starts.toList :=
    List.filter_eq_self.2 fun k hk => decide_eq_true (hp.starts k (Array.mem_toList_iff.1 hk))
  rw [ofEntries, entries, List.foldl_append, List.foldl_append, foldl_add_dataEntries,
    foldl_add_declarations, ← take_size_codeEntries,
    foldl_add_take_codeEntries hp rfl rfl rfl (Nat.le_refl _), hcode, hlines, hstarts, hvars, hdata]

/-! ### From a listing -/

theorem listable_empty : ({} : Program).Listable where
  keyed _ he := absurd he List.not_mem_nil
  named _ he := absurd he List.not_mem_nil
  increasing := .nil
  starts _ hk := by simp at hk
  lines := rfl

theorem Listable.add (hp : p.Listable) {e : Entry} (hnamed : ∀ v, e = .declaration v → v.Named) :
    (p.add e).Listable := by
  cases e with
  | data bytes => exact { hp with }
  | declaration v =>
    refine { hp with keyed := hp.keyed.add (.declaration v), named := fun entry hentry => ?_ }
    rcases AddressMap.mem_insertEntry hentry with rfl | hold
    · exact hnamed v rfl
    · exact hp.named entry hold
  | instruction starts line i =>
    have hsize : (p.add (.instruction starts line i)).size = p.size + 1 := by
      simp [Program.add, size]
    have hlines : (p.lines.push line).size = p.size + 1 := by rw [Array.size_push, hp.lines]
    cases starts with
    | false =>
      exact { hp with
        starts := fun k hk => by rw [hsize]; exact Nat.lt_succ_of_lt (hp.starts k hk)
        lines := hlines.trans hsize.symm }
    | true =>
      refine { hp with
        increasing := ?_
        starts := fun k hk => ?_
        lines := hlines.trans hsize.symm }
      · show (p.starts.push p.size).toList.Pairwise (· < ·)
        rw [Array.toList_push]
        refine List.pairwise_append.2
          ⟨hp.increasing, List.pairwise_singleton _ _, fun k hk n hn => ?_⟩
        rw [List.mem_singleton.1 hn]
        exact hp.starts k (Array.mem_toList_iff.1 hk)
      · rw [hsize]
        rcases Array.mem_push.1 hk with hold | rfl
        · exact Nat.lt_succ_of_lt (hp.starts k hold)
        · exact Nat.lt_succ_self _

theorem Listable.foldl_add {es : List Entry} (hes : ∀ v, .declaration v ∈ es → v.Named)
    (hp : p.Listable) : (es.foldl Program.add p).Listable := by
  induction es generalizing p with
  | nil => exact hp
  | cons e es ih =>
    exact ih (fun v hv => hes v (List.mem_cons_of_mem _ hv))
      (hp.add fun v hv => hes v (hv ▸ List.mem_cons_self))

end Program

namespace Listing

theorem ok_of_bind {ε α β : Type} {x : Except ε α} {f : α → Except ε β} {b : β}
    (h : x >>= f = .ok b) : ∃ a, x = .ok a ∧ f a = .ok b := by
  cases x with
  | error _ => cases h
  | ok a => exact ⟨a, rfl, h⟩

theorem ok_of_map {ε α β : Type} {x : Except ε α} {f : α → β} {b : β} (h : f <$> x = .ok b) :
    ∃ a, x = .ok a ∧ f a = b := by
  cases x with
  | error _ => cases h
  | ok a => exact ⟨a, rfl, Except.ok.inj h⟩

theorem of_readData {cs : List Char} {e : Entry} (h : readData cs = .ok e) :
    ∃ bytes, e = .data bytes := by
  obtain ⟨bytes, -, hbytes⟩ := ok_of_bind h
  cases hbytes
  exact ⟨bytes, rfl⟩

theorem of_readVariable {cs : List Char} {e : Entry} (h : readVariable cs = .ok e) :
    ∃ v : Variable, e = .declaration v ∧ v.name.toList ∈ Text.words cs := by
  unfold readVariable at h
  split at h
  · rename_i name address size place hwords
    split at h
    · obtain ⟨address, -, h⟩ := ok_of_bind h
      obtain ⟨size, -, h⟩ := ok_of_bind h
      obtain ⟨start, -, h⟩ := ok_of_bind h
      obtain ⟨stop, -, h⟩ := ok_of_bind h
      cases h
      refine ⟨_, rfl, ?_⟩
      rw [String.toList_ofList, hwords]
      exact List.mem_cons_self
    · cases h
  · cases h

theorem of_readInstruction {cs : List Char} {e : Entry} (h : readInstruction cs = .ok e) :
    ∃ starts line i, e = .instruction starts line i := by
  unfold readInstruction at h
  split at h
  obtain ⟨⟨number, call⟩, -, h⟩ := ok_of_bind h
  obtain ⟨line, -, h⟩ := ok_of_bind h
  obtain ⟨i, -, h⟩ := ok_of_bind h
  cases h
  exact ⟨_, line, i, rfl⟩

/-- A variable that was read has a name of one word. -/
theorem named_of_readLine {line : List Char} {v : Variable}
    (h : readLine line = .ok (some (.declaration v))) : v.Named := by
  have hcomment : ';' ∉ meaning line := fun hmem => by
    have hkept := List.all_eq_true.1 List.all_takeWhile _ (Text.mem_of_mem_trim hmem)
    simp at hkept
  unfold readLine at h
  split at h
  · cases h
  · obtain ⟨e, hread, he⟩ := ok_of_map h
    obtain ⟨bytes, rfl⟩ := of_readData hread
    cases he
  · rename_i rest hrest
    obtain ⟨e, hread, he⟩ := ok_of_map h
    obtain ⟨w, rfl, hname⟩ := of_readVariable hread
    cases he
    refine ⟨Text.solid_of_mem_words hname, fun hmem => hcomment ?_⟩
    have hword := Text.subset_of_mem_words hname _ hmem
    simp [hrest, hword]
  · obtain ⟨e, hread, he⟩ := ok_of_map h
    obtain ⟨starts, number, i, rfl⟩ := of_readInstruction hread
    cases he

theorem forall_of_readLines {P : Entry → Prop}
    (hline : ∀ line e, readLine line = .ok (some e) → P e) {number : Nat}
    {lines : List (List Char)} {es : List Entry} (h : readLines number lines = .ok es) :
    ∀ e ∈ es, P e := by
  induction lines generalizing number es with
  | nil =>
    cases h
    exact fun e he => absurd he List.not_mem_nil
  | cons line lines ih =>
    rw [readLines] at h
    cases hread : readLine line with
    | error cause => rw [hread] at h; cases h
    | ok e? =>
      rw [hread] at h
      obtain ⟨rest, hrest, rfl⟩ := ok_of_map h
      intro e he
      rcases List.mem_append.1 he with hfirst | hlater
      · exact hline line e (by rw [hread, Option.mem_toList.1 hfirst])
      · exact ih hrest e hlater

end Listing

theorem Program.listable_of_read {listing : String} {p : Program} (h : read listing = .ok p) :
    p.Listable := by
  obtain ⟨es, hlines, rfl⟩ := Listing.ok_of_map h
  have hnamed : ∀ e ∈ es, ∀ v, e = .declaration v → v.Named :=
    Listing.forall_of_readLines (fun line e hread v hv => Listing.named_of_readLine (hv ▸ hread))
      hlines
  exact listable_empty.foldl_add fun v hv => hnamed _ hv v rfl

end Backstep
