/-!
# Items for the console

What the gate hands to a console: a text, with or without markup and highlighting, or a table.
-/

namespace LintGate

inductive Justify
  | left
  | right
  deriving DecidableEq, Repr

structure Column where
  heading : String
  justify : Justify
  deriving DecidableEq, Repr

inductive Printed
  | line (text : String) (highlight markup : Bool)
  | table (title : String) (columns : List Column) (rows : List (List String))
  deriving DecidableEq, Repr

/-- A text with markup whose numbers and names are not highlighted. -/
def Printed.marked (text : String) : Printed := .line text false true

/-- The texts of an item that are read as markup. -/
def Printed.texts : Printed → List String
  | .line text _ markup => if markup then [text] else []
  | .table title columns rows => title :: columns.map (·.heading) ++ rows.flatten

inductive Channel
  | output
  | error
  deriving DecidableEq, Repr

end LintGate
