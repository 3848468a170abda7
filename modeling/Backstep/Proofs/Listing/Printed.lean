import Backstep.Proofs.Listing.Entries
/-!
# Programs that are read back

A program that was read from a listing is printed as a listing again. Reading that gives the same
program exactly if every operation of the catalog in it has as many operands as it takes. A number
behind `#` may bring any number of operands, but the printer writes the mnemonic wherever there is
one, and a mnemonic insists on its own number: the first instruction that differs is refused.

A program that was put together in another way is printed too. `read_text_iff` says of which ones
the text says all there is to say.
-/

namespace Backstep

namespace Listing

/-- Lines on which readable entries are written are read as these entries. -/
theorem readLines_texts {es : List Entry} (hes : ∀ e ∈ es, e.Readable) (number : Nat)
    (lines : List (List Char)) :
    readLines number (es.map (·.text.toList) ++ lines)
      = (es ++ ·) <$> readLines (number + es.length) lines := by
  induction es generalizing number with
  | nil =>
    rw [List.map_nil, List.nil_append, List.length_nil, Nat.add_zero]
    cases readLines number lines <;> rfl
  | cons e es ih =>
    have hrest := ih (fun d hd => hes d (List.mem_cons_of_mem _ hd)) (number + 1)
    have hlength : number + 1 + es.length = number + (e :: es).length := by
      rw [List.length_cons]
      omega
    rw [List.map_cons, List.cons_append, readLines, readLine_text (hes e List.mem_cons_self), hrest,
      hlength]
    cases readLines (number + (e :: es).length) lines <;> rfl

theorem readLines_error {line : List Char} {cause : Problem.Cause}
    (h : readLine line = .error cause) (number : Nat) (lines : List (List Char)) :
    readLines number (line :: lines) = .error { cause, line := some number } := by
  rw [readLines, h]

end Listing

namespace Program

open Listing (Entry readLines)

variable {p : Program}

theorem exists_of_mem_dataEntries {e : Entry} (h : e ∈ p.dataEntries) :
    ∃ bytes, e = .data bytes := by
  obtain ⟨i, -, rfl⟩ := List.mem_map.1 h
  exact ⟨_, rfl⟩

theorem Listable.exists_of_mem_declarations (hp : p.Listable) {e : Entry}
    (h : e ∈ p.vars.values.map Entry.declaration) : ∃ v, e = .declaration v ∧ v.Named := by
  obtain ⟨v, hv, rfl⟩ := List.mem_map.1 h
  obtain ⟨entry, hentry, rfl⟩ := List.mem_map.1 hv
  exact ⟨entry.2, rfl, hp.named entry hentry⟩

theorem exists_of_mem_codeEntries {e : Entry} (h : e ∈ p.codeEntries) :
    ∃ starts line i, e = .instruction starts line i := by
  obtain ⟨⟨i, k⟩, -, rfl⟩ := List.mem_map.1 h
  exact ⟨_, _, _, rfl⟩

/-- No entry of the program reaches over the end of its line. -/
theorem Listable.inline_text (hp : p.Listable) {e : Entry} (h : e ∈ p.entries) :
    Listing.Inline e.text.toList := by
  rw [entries, List.mem_append, List.mem_append] at h
  rcases h with (h | h) | h
  · obtain ⟨bytes, rfl⟩ := exists_of_mem_dataEntries h
    exact Listing.inline_text_data bytes
  · obtain ⟨v, rfl, hnamed⟩ := hp.exists_of_mem_declarations h
    exact Listing.inline_text_declaration hnamed
  · obtain ⟨starts, line, i, rfl⟩ := exists_of_mem_codeEntries h
    exact Listing.inline_text_instruction starts line i

/-- The printed program is read line by line, an entry to a line. -/
theorem Listable.read_text (hp : p.Listable) :
    read p.text = ofEntries <$> readLines 1 (p.entries.map (·.text.toList) ++ [[]]) := by
  have htext : p.text.toList = (p.entries.map (·.text.toList)).flatMap (· ++ ['\n']) :=
    Text.toList_join_lines _ _
  have hlines : ∀ line ∈ p.entries.map (·.text.toList), '\n' ∉ line := by
    intro line hline hmem
    obtain ⟨e, he, rfl⟩ := List.mem_map.1 hline
    exact (hp.inline_text he _ hmem).2 rfl
  rw [read, htext, Text.splitOn_lines hlines]

theorem Listable.readable_take (hp : p.Listable) {k : Nat}
    (hcounted : ∀ j i, j < k → p.instruction? j = some i → i.Counted) :
    ∀ e ∈ p.dataEntries ++ p.vars.values.map .declaration ++ p.codeEntries.take k, e.Readable := by
  intro e he
  rw [List.mem_append, List.mem_append] at he
  rcases he with (he | he) | he
  · obtain ⟨bytes, rfl⟩ := exists_of_mem_dataEntries he
    trivial
  · obtain ⟨v, rfl, hnamed⟩ := hp.exists_of_mem_declarations he
    exact hnamed
  · obtain ⟨j, hj, rfl⟩ := List.mem_take_iff_getElem.1 he
    have hbound : j < p.code.size := by
      have hlength := p.length_codeEntries
      unfold size at hlength
      omega
    rw [getElem_codeEntries (by omega) hbound]
    exact hcounted j _ (by omega) (Array.getElem?_eq_getElem hbound)

/-- A program whose operations have as many operands as they take is read back. -/
theorem Listable.read_text_of_counted (hp : p.Listable)
    (hcounted : ∀ k i, p.instruction? k = some i → i.Counted) : read p.text = .ok p := by
  have hreadable := hp.readable_take (k := p.size) fun j i _ => hcounted j i
  rw [take_size_codeEntries] at hreadable
  have hlines : readLines 1 (p.entries.map (·.text.toList) ++ [[]])
      = (p.entries ++ ·) <$> readLines (1 + p.entries.length) [[]] :=
    Listing.readLines_texts hreadable 1 [[]]
  rw [hp.read_text, hlines]
  show Except.ok (ofEntries (p.entries ++ [])) = Except.ok p
  rw [List.append_nil, ofEntries_entries hp]

/-- The first operation with another number of operands than it takes is refused. -/
theorem Listable.read_text_of_miscounted (hp : p.Listable) {k : Nat} {i : Instruction} {op : Opcode}
    (hi : p.instruction? k = some i) (hop : i.op? = some op)
    (hne : i.operands.length ≠ op.arity)
    (hbefore : ∀ j i, j < k → p.instruction? j = some i → i.Counted) :
    read p.text = .error
      { cause := .operandCount op i.operands.length
        line := some (p.dataEntries.length + p.vars.size + k + 1) } := by
  obtain ⟨hcode, hcodeAt⟩ := Array.getElem?_eq_some_iff.1 hi
  have hbound : k < p.codeEntries.length := by rw [length_codeEntries]; exact hcode
  have hentry := getElem_codeEntries hbound hcode
  have hline : Listing.readLine p.codeEntries[k].text.toList
      = .error (.operandCount op i.operands.length) := by
    rw [hentry, hcodeAt, Listing.readLine_text_instruction, Listing.named_of_miscounted hop hne]
    rfl
  have hentries : p.entries = (p.dataEntries ++ p.vars.values.map .declaration
      ++ p.codeEntries.take k) ++ p.codeEntries[k] :: p.codeEntries.drop (k + 1) := by
    rw [List.append_assoc, List.getElem_cons_drop, List.take_append_drop]
    rfl
  have hlength : (p.dataEntries ++ p.vars.values.map Entry.declaration
      ++ p.codeEntries.take k).length = p.dataEntries.length + p.vars.size + k := by
    simp only [List.length_append, List.length_map, List.length_take, AddressMap.values,
      AddressMap.size]
    omega
  rw [hp.read_text, hentries, List.map_append, List.append_assoc,
    Listing.readLines_texts (hp.readable_take hbefore), List.map_cons, List.cons_append,
    Listing.readLines_error hline, hlength, Nat.add_comm 1]
  rfl

/-- Either all operations have as many operands as they take, or one is the first that has not. -/
theorem counted_or_miscounted (p : Program) :
    (∀ k i, p.instruction? k = some i → i.Counted) ∨
      ∃ k i op, p.instruction? k = some i ∧ i.op? = some op ∧ i.operands.length ≠ op.arity ∧
        ∀ j i, j < k → p.instruction? j = some i → i.Counted := by
  have hsearch : ∀ n, (∀ k i, k < n → p.instruction? k = some i → i.Counted) ∨
      ∃ k i op, p.instruction? k = some i ∧ i.op? = some op ∧ i.operands.length ≠ op.arity ∧
        ∀ j i, j < k → p.instruction? j = some i → i.Counted := by
    intro n
    induction n with
    | zero => exact .inl fun k i hk => absurd hk (Nat.not_lt_zero k)
    | succ n ih =>
      rcases ih with hbefore | hfound
      · by_cases hn : ∀ i, p.instruction? n = some i → i.Counted
        · refine .inl fun k i hk hi => ?_
          rcases Nat.lt_succ_iff_lt_or_eq.1 hk with hlt | rfl
          · exact hbefore k i hlt hi
          · exact hn i hi
        · simp only [Instruction.Counted, Classical.not_forall] at hn
          obtain ⟨i, hi, op, hop, hne⟩ := hn
          exact .inr ⟨n, i, op, hi, hop, hne, hbefore⟩
      · exact .inr hfound
  refine (hsearch p.size).imp_left fun hall k i hi => hall k i ?_ hi
  exact (Array.getElem?_eq_some_iff.1 hi).1

/-- Whatever listing was accepted, its program is read back from its own text exactly if every
operation of the catalog in it has as many operands as it takes. Otherwise the first one that has
not is refused, on its line of the text. -/
theorem reads_back_iff_counted {listing : String} {p : Program} (hread : read listing = .ok p) :
    (read p.text = .ok p ↔ ∀ k i op, p.instruction? k = some i → i.op? = some op →
      i.operands.length = op.arity) ∧
    ∀ k i op, p.instruction? k = some i → i.op? = some op → i.operands.length ≠ op.arity →
      (∀ j i, j < k → p.instruction? j = some i → i.Counted) →
      read p.text = .error
        { cause := .operandCount op i.operands.length
          line := some (p.dataEntries.length + p.vars.size + k + 1) } := by
  have hp := listable_of_read hread
  refine ⟨⟨fun hback => ?_, fun hcounted => ?_⟩, fun k i op hi hop hne hbefore => ?_⟩
  · rcases p.counted_or_miscounted with hcounted | ⟨k, i, op, hi, hop, hne, hbefore⟩
    · exact fun k i op hi hop => hcounted k i hi op hop
    · rw [hp.read_text_of_miscounted hi hop hne hbefore] at hback
      cases hback
  · exact hp.read_text_of_counted fun k i hi op hop => hcounted k i op hi hop
  · exact hp.read_text_of_miscounted hi hop hne hbefore

/-- `LOAD` by its number and without its operand. -/
def numbered : Program where
  code := #[⟨1, []⟩]
  starts := #[0]
  lines := #[1]

theorem reads_back_iff_counted_numbered :
    read "* 1: #1()\n" = .ok numbered ∧
      read numbered.text = .error { cause := .operandCount .load 0, line := some 1 } := by
  have hread : read "* 1: #1()\n" = .ok numbered := by rfl
  refine ⟨hread, (reads_back_iff_counted hread).2 0 ⟨1, []⟩ .load rfl rfl (by decide) ?_⟩
  exact fun j i hj => absurd hj (Nat.not_lt_zero j)

/-- `Listable` in terms of the characters of the names. -/
theorem listable_iff : p.Listable ↔
    (∀ e ∈ p.vars.entries, e.1 = e.2.address ∧ e.2.name ≠ "" ∧
      ∀ c ∈ e.2.name.toList, Text.isBlank c = false ∧ c ≠ ';') ∧
    (p.starts.toList.Pairwise (· < ·) ∧ ∀ k ∈ p.starts, k < p.size) ∧
    p.lines.size = p.size := by
  constructor
  · intro hp
    refine ⟨fun e he => ?_, ⟨hp.increasing, hp.starts⟩, hp.lines⟩
    obtain ⟨⟨hfull, hsolid⟩, hmark⟩ := hp.named e he
    refine ⟨hp.keyed e he, fun hname => hfull ?_, fun c hc => ⟨hsolid c hc, fun heq => ?_⟩⟩
    · rw [hname]
      rfl
    · exact hmark (heq ▸ hc)
  · rintro ⟨hvars, ⟨hincreasing, hstarts⟩, hlines⟩
    refine ⟨fun e he => (hvars e he).1, fun e he => ?_, hincreasing, hstarts, hlines⟩
    obtain ⟨-, hfull, hchars⟩ := hvars e he
    refine ⟨⟨fun hnil => hfull ?_, fun c hc => (hchars c hc).1⟩, fun hmark => ?_⟩
    · exact String.toList_eq_nil_iff.1 hnil
    · exact (hchars _ hmark).2 rfl

theorem Listable.counted_of_read_text (hp : p.Listable) (hback : read p.text = .ok p) (k : Nat)
    (i : Instruction) (hi : p.instruction? k = some i) : i.Counted := by
  rcases p.counted_or_miscounted with hcounted | ⟨k, i, op, hi, hop, hne, hbefore⟩
  · exact hcounted k i hi
  · rw [hp.read_text_of_miscounted hi hop hne hbefore] at hback
    cases hback

/-- A program of whatever parts is read back from its own text exactly if each variable stands under
its own address and has a name of one word without a `;`, every operation of the catalog has as many
operands as it takes, statements start at instructions in strictly increasing order, and each
instruction has one source line. Nothing else about it matters. -/
theorem read_text_iff (p : Program) :
    read p.text = .ok p ↔
      (∀ e ∈ p.vars.entries, e.1 = e.2.address ∧ e.2.name ≠ "" ∧
        ∀ c ∈ e.2.name.toList, Text.isBlank c = false ∧ c ≠ ';') ∧
      (∀ k i op, p.instruction? k = some i → i.op? = some op → i.operands.length = op.arity) ∧
      (p.starts.toList.Pairwise (· < ·) ∧ ∀ k ∈ p.starts, k < p.size) ∧
      p.lines.size = p.size := by
  constructor
  · intro hback
    -- The text may say anything; that it was accepted with this result is enough.
    have hp := listable_of_read hback
    obtain ⟨hvars, hstarts, hlines⟩ := listable_iff.1 hp
    exact ⟨hvars, fun k i op hi hop => hp.counted_of_read_text hback k i hi op hop, hstarts, hlines⟩
  · rintro ⟨hvars, hcounted, hstarts, hlines⟩
    have hp : p.Listable := listable_iff.2 ⟨hvars, hstarts, hlines⟩
    exact hp.read_text_of_counted fun k i hi op hop => hcounted k i op hi hop

end Program

end Backstep
