import LintGate.Console.Markup
import LintGate.Console.Printed
import LintGate.Text.Blank

/-!
# Console items as plain text

What a console without styles shows: texts with their markup read, and tables in columns.
-/

namespace LintGate

def Justify.fill (j : Justify) (width : Nat) (cell : String) : String :=
  let blanks := String.ofList (List.replicate (width - cell.length) ' ')
  match j with
  | .left => cell ++ blanks
  | .right => blanks ++ cell

namespace Printed

def width (rows : List (List String)) (i : Nat) : Nat :=
  rows.foldl (fun w row => max w ((row[i]?).getD "").length) 0

/-- A row with its cells in the columns, two blanks apart. -/
def alignRow (columns : List Column) (widths : List Nat) (row : List String) : String :=
  let cells := (columns.zip (widths.zip row)).map fun (c, width, cell) => c.justify.fill width cell
  String.ofList (Text.stripEnd ("  ".intercalate cells).toList)

def plain : Printed → List String
  | .line text _ markup => [if markup then Markup.plain text else text]
  | .table title columns rows =>
    let shown := columns.map (·.heading) :: rows.map (·.map Markup.plain)
    let widths := (List.range columns.length).map (width shown)
    title :: shown.map (alignRow columns widths)

end Printed

end LintGate
