import Backstep.Proofs.Listing.Composition
import Backstep.Proofs.Listing.Printed
import Backstep.Proofs.Machine.Starts
import Backstep.Proofs.Text.Tabular
import Backstep.Workbench.Console
/-!
# The stars of a program

The text of a program and the table that `list` shows have a `*` on the line of an instruction where
a statement starts. Nothing else on these lines is written with a `*`, so the stars say where the
program starts its statements. The machine has this from its map, and its runs and its undoing stop
where a user sees a star.
-/

namespace Backstep

/-- There is a `*` on the line of the instruction with this index. -/
def Starred (lines : List (List Char)) (index : Nat) : Prop :=
  ∃ line, lines[index]? = some line ∧ '*' ∈ line

theorem Instruction.star_not_mem_text (i : Instruction) : '*' ∉ i.text.toList :=
  i.not_mem_text (by decide) (by decide)

theorem Instruction.break_not_mem_text (i : Instruction) : '\n' ∉ i.text.toList :=
  i.not_mem_text (by decide) (by decide)

namespace Program

open Listing (Entry)

/-- The lines of the program's text that show its instructions, which are the last ones. -/
def codeLines (p : Program) : List (List Char) :=
  let lines := (p.text.toList.splitOn '\n').dropLast
  lines.drop (lines.length - p.size)

theorem join_eq_or (es : List Entry) :
    String.join (es.map (·.text ++ "\n")) = "" ∨
      ∃ front, String.join (es.map (·.text ++ "\n")) = front ++ "\n" := by
  rcases List.eq_nil_or_concat es with rfl | ⟨es, e, rfl⟩
  · exact .inl rfl
  · refine .inr ⟨String.join (es.map (·.text ++ "\n")) ++ e.text, ?_⟩
    simp [String.join_append, String.append_assoc]

/-- Whatever the names of the variables are, each instruction has a line for itself. -/
theorem codeLines_eq (p : Program) : p.codeLines = p.codeEntries.map (·.text.toList) := by
  have hbreaks : ∀ line ∈ p.codeEntries.map (·.text.toList), '\n' ∉ line := by
    intro line hline hbreak
    obtain ⟨e, he, rfl⟩ := List.mem_map.1 hline
    obtain ⟨starts, number, i, rfl⟩ := exists_of_mem_codeEntries he
    exact (Listing.inline_text_instruction starts number i _ hbreak).2 rfl
  have hcode : (String.join (p.codeEntries.map (·.text ++ "\n"))).toList.splitOn '\n'
      = p.codeEntries.map (·.text.toList) ++ [[]] := by
    rw [Text.toList_join_lines, Text.splitOn_lines hbreaks]
  let front := p.dataEntries ++ p.vars.values.map .declaration
  obtain ⟨lines, -, hlines⟩ := exists_lines (join_eq_or front)
  have htext : p.text = String.join (front.map (·.text ++ "\n"))
      ++ String.join (p.codeEntries.map (·.text ++ "\n")) := by
    rw [text, entries, List.map_append, String.join_append]
  have hsplit : (p.text.toList.splitOn '\n').dropLast
      = lines ++ p.codeEntries.map (·.text.toList) := by
    rw [htext, hlines, hcode, ← List.append_assoc, List.dropLast_concat]
  have hlength : (lines ++ p.codeEntries.map (·.text.toList)).length - p.size = lines.length := by
    rw [List.length_append, List.length_map, length_codeEntries, Nat.add_sub_cancel]
  rw [codeLines, hsplit, hlength, List.drop_left]

theorem star_mem_text_instruction (starts : Bool) (line : LineNumber) (i : Instruction) :
    '*' ∈ (Entry.instruction starts line i).text.toList ↔ starts = true := by
  have hline : '*' ∉ (toString line.toNat).toList := fun h => by
    cases Numeral.isDigit_of_mem_toString h
  have hbody : '*' ∉ Listing.body line i := by
    simp only [Listing.body, List.mem_append, List.mem_cons, not_or]
    exact ⟨hline, by decide, by decide, i.star_not_mem_text⟩
  rw [Listing.toList_text_instruction]
  cases starts <;> simp [hbody]

/-- A line for each instruction, with a `*` where a statement starts, and lines without any. -/
theorem starred_iff {p : Program} {line : Instruction × Nat → List Char} {rest : List (List Char)}
    (hline : ∀ i k, '*' ∈ line (i, k) ↔ p.startsAt k = true) (hrest : ∀ line ∈ rest, '*' ∉ line)
    (k : Nat) :
    Starred (p.code.toList.zipIdx.map line ++ rest) k ↔ k < p.size ∧ p.startsAt k = true := by
  have hlength : (p.code.toList.zipIdx.map line).length = p.size := by simp [size]
  by_cases hk : k < p.size
  · have hcode : k < p.code.size := hk
    have hread : (p.code.toList.zipIdx.map line ++ rest)[k]? = some (line (p.code[k], k)) := by
      rw [List.getElem?_append_left (hlength ▸ hk), List.getElem?_map, List.getElem?_zipIdx,
        Array.getElem?_toList, Array.getElem?_eq_getElem hcode, Nat.zero_add]
      rfl
    rw [Starred, hread, and_iff_right hk, ← hline p.code[k] k]
    simp
  · refine iff_of_false ?_ fun h => hk h.1
    rintro ⟨line, hread, hstar⟩
    rw [List.getElem?_append_right (hlength ▸ Nat.le_of_not_lt hk)] at hread
    exact hrest line (List.mem_of_getElem? hread) hstar

theorem starred_codeLines (p : Program) (k : Nat) :
    Starred p.codeLines k ↔ k < p.size ∧ p.startsAt k = true := by
  rw [codeLines_eq, codeEntries, List.map_map, ← List.append_nil (List.map _ _)]
  exact starred_iff (fun i k => star_mem_text_instruction _ _ i) (by simp) k

end Program

namespace Workbench

/-- The lines of a table under the line of its titles and the rule. -/
def linesUnderTitles (shown : String) : List (List Char) := (shown.toList.splitOn '\n').drop 2

namespace Panel

variable {p : Program} {pc : Address}

/-- What stands in the row of an instruction. -/
def codeRow (p : Program) (pc : Address) (i : Instruction) (k : Nat) : List String :=
  [if k = pc.toNat then "->" else "", toString k, lineCell (p.line? k),
    (if p.startsAt k then "* " else "  ") ++ i.text]

/-- Apart from its instruction a row is written with digits and an arrow. -/
theorem mem_codeRow {c : Char} {i : Instruction} {k : Nat} (hdigit : c.isDigit = false)
    (harrow : c ≠ '-' ∧ c ≠ '>') :
    (∃ text ∈ codeRow p pc i k, c ∈ text.toList) ↔
      c ∈ ((if p.startsAt k then "* " else "  ") ++ i.text).toList := by
  have hnumber : ∀ n : Nat, c ∉ (toString n).toList := fun n h => by
    cases hdigit.symm.trans (Numeral.isDigit_of_mem_toString h)
  have hnext : c ∉ (if k = pc.toNat then "->" else "").toList := by
    split <;> simp [harrow]
  have hline : c ∉ (lineCell (p.line? k)).toList := by
    unfold lineCell
    split
    · exact hnumber _
    · exact List.not_mem_nil
  simp only [codeRow, List.mem_cons, or_and_right, exists_or, exists_eq_left, hnext, hnumber, hline,
    List.not_mem_nil, false_or, or_false]

theorem linesUnderTitles_code (p : Program) (pc : Address) :
    linesUnderTitles (code p pc).text
      = p.code.toList.zipIdx.map (fun (i, k) =>
          ((code p pc).row [.left, .right, .right, .left] (codeRow p pc i k)).toList) ++ [[]] := by
  have htitles : ∀ title ∈ ["Next", "Index", "Line", "Instruction"], '\n' ∉ title.toList := by
    decide
  have hcolumns : ∀ column ∈ (code p pc).columns, '\n' ∉ column.title.toList :=
    fun column hcolumn => htitles column.title (List.mem_map_of_mem hcolumn)
  have hcells : ∀ texts ∈ (code p pc).rows, ∀ text ∈ texts, '\n' ∉ text.toList := by
    intro texts htexts text htext hbreak
    obtain ⟨⟨i, k⟩, -, rfl⟩ := List.mem_map.1 htexts
    have hmem := (mem_codeRow (by decide) (by decide)).1 ⟨text, htext, hbreak⟩
    rw [String.toList_append, List.mem_append] at hmem
    refine hmem.elim (fun hmark => ?_) i.break_not_mem_text
    split at hmark <;> revert hmark <;> decide
  rw [linesUnderTitles, Text.Table.splitOn_text hcolumns hcells]
  show ((p.code.toList.zipIdx.map fun (i, k) => codeRow p pc i k).map _).map _ ++ [[]] = _
  rw [List.map_map, List.map_map]
  rfl

theorem starred_code (p : Program) (pc : Address) (k : Nat) :
    Starred (linesUnderTitles (code p pc).text) k ↔ k < p.size ∧ p.startsAt k = true := by
  rw [linesUnderTitles_code]
  refine Program.starred_iff (fun i k => ?_) (by simp) k
  rw [Text.Table.mem_row_of_length (by decide) (by decide) rfl rfl,
    mem_codeRow (by decide) (by decide), String.toList_append, List.mem_append,
    or_iff_left i.star_not_mem_text]
  cases p.startsAt k <;> decide

end Panel

/-- What `list` shows of each instruction of the program. -/
def Session.listed (s : Session) (w : Surroundings) (arguments : List (List Char)) :
    List (List Char) :=
  linesUnderTitles (s.obey w arguments .list).shown

theorem Session.listed_eq {s : Session} {p : Program} (hprogram : s.machine.program = some p)
    (w : Surroundings) (arguments : List (List Char)) :
    s.listed w arguments = linesUnderTitles (Panel.code p s.machine.pc).text := by
  have hobey : s.obey w arguments .list = s.print (.ok (Panel.code p s.machine.pc).text) := by
    rw [obey, hprogram]
  rw [listed, hobey]
  rfl

end Workbench

namespace Machine

variable {m : Machine} {memory : Memory} {patience : Nat} {os : List Operation}

/-- The loads that were not refused decide where a machine finds the starts of statements: at those
indices below the length of the latest program that its list has. There and nowhere else the text of
the program has a star, and the table that `list` shows has one. A run to the end of a statement
stops as soon as it has completed an instruction and come to a star. Undoing a statement stops as
soon as it has undone an instruction and come to a star, or when nothing is left to undo. -/
theorem stars_mark_starts (hm : m = (fresh memory).afterAll patience os) :
    m.program = (fresh memory).latestLoaded? patience os ∧
    (∀ p, (m.load p).answer.isOk = !m.isWaiting) ∧
    (∀ i, m.startsAt i = m.program.any fun p => decide (i < p.size) && p.startsAt i) ∧
    ∀ p, m.program = some p →
      (∀ i, Starred p.codeLines i ↔ m.startsAt i = true) ∧
      (∀ s w arguments, s.machine = m →
        ∀ i, Starred (Workbench.Session.listed s w arguments) i ↔ m.startsAt i = true) ∧
      (∀ patience', ∃ n, m.RunsTo (Starred p.codeLines) n (m.run .statement patience')) ∧
      (m.isWaiting = false → m.undoStatement.answer = .ok () ∧
        ∃ n, m.UndoesTo (Starred p.codeLines) n m.undoStatement.state) := by
  have hmapped : m.Mapped := hm ▸ mapped_afterAll memory patience os
  refine ⟨?_, m.isOk_load, hmapped.startsAt_eq, ?_⟩
  · rw [hm, program_afterAll]
    exact Option.or_none
  · intro p hprogram
    have hstarts : ∀ i, m.startsAt i = true ↔ i < p.size ∧ p.startsAt i = true := by
      intro i
      rw [hmapped.startsAt_eq, hprogram, Option.any_some, Bool.and_eq_true, decide_eq_true_eq]
    have hstars : Starred p.codeLines = (m.startsAt · = true) :=
      funext fun i => propext ((p.starred_codeLines i).trans (hstarts i).symm)
    refine ⟨fun i => iff_of_eq (congrFun hstars i), ?_, ?_, ?_⟩
    · rintro s w arguments rfl i
      rw [Workbench.Session.listed_eq hprogram, Workbench.Panel.starred_code, hstarts]
    · rw [hstars]
      exact hmapped.runsTo
    · rw [hstars]
      exact undoesTo hm (by rw [hprogram]; rfl)

/-- A READ between two instructions. -/
def brief : Program where
  code := #[⟨106, [1]⟩, ⟨255, [0]⟩, ⟨106, [2]⟩]
  starts := #[1]

/-- Five instructions. The starts are out of order and repeated, and two of them lie behind the last
instruction. -/
def scattered : Program where
  code := #[⟨106, [1]⟩, ⟨106, [2]⟩, ⟨106, [3]⟩, ⟨106, [4]⟩, ⟨106, [5]⟩]
  starts := #[9, 4, 1, 4, 5]

/-- The longer program is refused as long as the READ of the shorter one waits, and is loaded when
the shorter one has come to its end. -/
theorem stars_mark_starts_scattered :
    let os : List Operation := [.load brief, .run .program, .load scattered,
      .access (.send .input 5), .run .statement, .load scattered]
    let m := (fresh (.zeroed 16)).afterAll 9 os
    m.program = some scattered ∧ (fresh (.zeroed 16)).latestLoaded? 9 (os.take 5) = some brief ∧
      (fresh (.zeroed 16)).latestLoaded? 9 os = some scattered ∧ m.pc = 3 ∧
      (Starred scattered.codeLines 4 ∧ ¬ Starred scattered.codeLines 5) ∧
      (m.run .statement 9).answer = .ok .stopped ∧ (m.run .statement 9).state.pc = 4 ∧
      (∃ n, m.RunsTo (Starred scattered.codeLines) n (m.run .statement 9)) ∧
      m.undoStatement.answer = .ok () ∧ m.undoStatement.state.pc = 1 ∧
      ∃ n, m.UndoesTo (Starred scattered.codeLines) n m.undoStatement.state := by
  intro os m
  have hm : m = (fresh (.zeroed 16)).afterAll 9 os := rfl
  obtain ⟨hlatest, -, -, hstars⟩ := stars_mark_starts hm
  have hprogram : m.program = some scattered := by decide +kernel
  obtain ⟨hstarred, -, hruns, hundoes⟩ := hstars scattered hprogram
  obtain ⟨hundone, hback⟩ := hundoes (by decide +kernel)
  have hfourth : m.startsAt 4 = true := by decide +kernel
  have hfifth : ¬ m.startsAt 5 = true := by decide +kernel
  exact ⟨hprogram, by decide +kernel, hlatest ▸ hprogram, by decide +kernel,
    ⟨(hstarred 4).2 hfourth, fun hstar => hfifth ((hstarred 5).1 hstar)⟩,
    eq_ok_of_toOption (by decide +kernel), by decide +kernel, hruns 9, hundone,
    by decide +kernel, hback⟩

end Machine

end Backstep
