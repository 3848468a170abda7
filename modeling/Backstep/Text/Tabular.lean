import Backstep.Text.Style
/-!
# Tables

A table is a line of titles, a rule and a line for each row. A column is as wide as the widest text
in it. Titles stand on the left; a cell stands on the side of its column, and what stands on the
left at the end of a line is not filled up.
-/

namespace Backstep.Text

inductive Side
  | left
  | right
deriving DecidableEq, Repr

structure Column where
  title : String
  side : Side := .left

structure Table where
  columns : List Column
  rows : List (List String)

namespace Table

/-- The columns of the terminal that a text takes in a cell. -/
def size (text : String) : Nat := (width text.toList).toNat

/-- The columns of the terminal that each column of the table takes. -/
def widths (t : Table) : List Nat :=
  t.columns.zipIdx.map fun (column, i) =>
    t.rows.foldl (fun widest row => max widest (size (row[i]?.getD "")))
      (size column.title)

/-- A text between two blanks, filled up to a width on the other side. -/
def cell (side : Side) (room : Nat) (last : Bool) (text : String) : String :=
  let gap := String.ofList (List.replicate (room - size text) ' ')
  match side with
  | .right => " " ++ gap ++ text ++ " "
  | .left => " " ++ text ++ (if last then "" else gap) ++ " "

def line : List (Side × Nat × String) → List String
  | [] => []
  | [(side, size, text)] => [cell side size true text]
  | (side, size, text) :: rest => cell side size false text :: line rest

def text (t : Table) : String :=
  let sizes := t.widths
  let shown (sides : List Side) (texts : List String) : String :=
    "|".intercalate (line (sides.zip (sizes.zip texts))) ++ "\n"
  shown (t.columns.map fun _ => .left) (t.columns.map (·.title))
    ++ "+".intercalate (sizes.map fun size => String.ofList (List.replicate (size + 2) '-'))
    ++ "\n" ++ String.join (t.rows.map (shown (t.columns.map (·.side))))

end Table

end Backstep.Text
