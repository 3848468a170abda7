import Backstep.Proofs.Text.Pieces
import Backstep.Text.Tabular
/-!
# Tables line by line

A table whose texts have no line breaks takes as many lines as it has rows and two more, and apart
from blanks and rules a line has the characters of its cells.
-/

namespace Backstep.Text.Table

variable {t : Table} {c : Char}

/-- The line of the table with these texts in its cells. -/
def row (t : Table) (sides : List Side) (texts : List String) : String :=
  "|".intercalate (line (sides.zip (t.widths.zip texts)))

/-- The line under the titles. -/
def rule (t : Table) : String :=
  "+".intercalate (t.widths.map fun size => String.ofList (List.replicate (size + 2) '-'))

def lines (t : Table) : List String :=
  t.row (t.columns.map fun _ => .left) (t.columns.map (·.title)) :: t.rule ::
    t.rows.map (t.row (t.columns.map (·.side)))

theorem toList_text (t : Table) :
    t.text.toList = (t.lines.map String.toList).flatMap (· ++ ['\n']) := by
  have htext : t.text = t.row (t.columns.map fun _ => .left) (t.columns.map (·.title)) ++ "\n"
      ++ t.rule ++ "\n"
      ++ String.join (t.rows.map fun texts => t.row (t.columns.map (·.side)) texts ++ "\n") := rfl
  rw [htext, lines, String.toList_append, toList_join_lines]
  simp [Function.comp_def]

theorem mem_cell {side : Side} {room : Nat} {last : Bool} {text : String} (hc : c ≠ ' ') :
    c ∈ (cell side room last text).toList ↔ c ∈ text.toList := by
  have hgap : c ∉ List.replicate (room - size text) ' ' := fun h => hc (List.eq_of_mem_replicate h)
  cases side <;> cases last <;> simp [cell, hc, hgap]

theorem exists_mem_line {cells : List (Side × Nat × String)} (hc : c ≠ ' ') :
    (∃ piece ∈ (line cells).map String.toList, c ∈ piece) ↔
      ∃ text ∈ cells.map (·.2.2), c ∈ text.toList := by
  fun_induction line cells with
  | case1 => simp
  | case2 => simp [mem_cell hc]
  | case3 side size text rest _ ih =>
    simp only [List.map_cons, List.mem_cons, or_and_right, exists_or, exists_eq_left, ih,
      mem_cell hc]

theorem mem_row {sides : List Side} {texts : List String} (hblank : c ≠ ' ') (hbar : c ≠ '|') :
    c ∈ (t.row sides texts).toList ↔
      ∃ text ∈ (sides.zip (t.widths.zip texts)).map (·.2.2), c ∈ text.toList := by
  rw [row, String.toList_intercalate, mem_intercalate (by simpa using hbar), exists_mem_line hblank]

/-- A line with a side and a width for each of its texts shows all of them. -/
theorem mem_row_of_length {sides : List Side} {texts : List String} (hblank : c ≠ ' ')
    (hbar : c ≠ '|') (hsides : texts.length = sides.length)
    (hcolumns : texts.length = t.columns.length) :
    c ∈ (t.row sides texts).toList ↔ ∃ text ∈ texts, c ∈ text.toList := by
  have hwidths : texts.length ≤ t.widths.length := by simp [widths, hcolumns]
  have hinner : (t.widths.zip texts).map Prod.snd = texts := List.map_snd_zip hwidths
  have houter : (sides.zip (t.widths.zip texts)).map Prod.snd = t.widths.zip texts :=
    List.map_snd_zip (by rw [List.length_zip]; omega)
  have htexts : (sides.zip (t.widths.zip texts)).map (·.2.2) = texts := by
    rw [← Function.comp_def, ← List.map_map, houter, hinner]
  rw [mem_row hblank hbar, htexts]

theorem not_mem_rule (hdash : c ≠ '-') (hcross : c ≠ '+') : c ∉ t.rule.toList := by
  rw [rule, String.toList_intercalate, mem_intercalate (by simpa using hcross)]
  rintro ⟨piece, hpiece, hmem⟩
  obtain ⟨text, htext, rfl⟩ := List.mem_map.1 hpiece
  obtain ⟨size, -, rfl⟩ := List.mem_map.1 htext
  rw [String.toList_ofList] at hmem
  exact hdash (List.eq_of_mem_replicate hmem)

/-- What a line shows is in one of the texts that it was made from. -/
theorem exists_of_mem_row {sides : List Side} {texts : List String} (hblank : c ≠ ' ')
    (hbar : c ≠ '|') (h : c ∈ (t.row sides texts).toList) : ∃ text ∈ texts, c ∈ text.toList := by
  obtain ⟨text, htext, hmem⟩ := (mem_row hblank hbar).1 h
  obtain ⟨⟨side, size, text'⟩, hcell, rfl⟩ := List.mem_map.1 htext
  exact ⟨text', (List.of_mem_zip (List.of_mem_zip hcell).2).2, hmem⟩

/-- Without line breaks in its texts, a table is shown on its own lines. -/
theorem splitOn_text (htitles : ∀ column ∈ t.columns, '\n' ∉ column.title.toList)
    (hcells : ∀ texts ∈ t.rows, ∀ text ∈ texts, '\n' ∉ text.toList) :
    t.text.toList.splitOn '\n' = t.lines.map String.toList ++ [[]] := by
  rw [toList_text]
  refine splitOn_lines fun chars hchars hbreak => ?_
  obtain ⟨shown, hshown, rfl⟩ := List.mem_map.1 hchars
  rw [lines, List.mem_cons, List.mem_cons] at hshown
  rcases hshown with rfl | rfl | hshown
  · obtain ⟨title, htitle, hmem⟩ := exists_of_mem_row (by decide) (by decide) hbreak
    obtain ⟨column, hcolumn, rfl⟩ := List.mem_map.1 htitle
    exact htitles column hcolumn hmem
  · exact not_mem_rule (by decide) (by decide) hbreak
  · obtain ⟨texts, htexts, rfl⟩ := List.mem_map.1 hshown
    obtain ⟨text, htext, hmem⟩ := exists_of_mem_row (by decide) (by decide) hbreak
    exact hcells texts htexts text htext hmem

end Backstep.Text.Table
