import LintGate.Datum.Basic
import LintGate.Number.Shortest
import LintGate.Text.Numeral
import LintGate.Text.Quoted

/-!
# The text of a datum

A text stands for itself; every other datum is written out, with the texts inside it quoted.
-/

namespace LintGate.Datum

mutual

def quoted : Datum → String
  | .null => "None"
  | .bool b => if b then "True" else "False"
  | .int n => Text.Numeral.write n
  | .float x => x.write
  | .text s => s.quoted
  | .moment m => m.iso
  | .list items => "[" ++ ", ".intercalate (quotedItems items) ++ "]"
  | .table entries => "\x7b" ++ ", ".intercalate (quotedEntries entries) ++ "\x7d"

def quotedItems : List Datum → List String
  | [] => []
  | d :: rest => d.quoted :: quotedItems rest

def quotedEntries : List (String × Datum) → List String
  | [] => []
  | (key, d) :: rest => (key.quoted ++ ": " ++ d.quoted) :: quotedEntries rest

end

def render : Datum → String
  | .text s => s
  | d => d.quoted

@[simp] theorem render_text (s : String) : (Datum.text s).render = s := rfl

mutual

/-- Whether all integers in a datum have numerals that are not too long. -/
def isWritable : Datum → Bool
  | .int n => (Text.Numeral.write? n).isSome
  | .list items => areWritable items
  | .table entries => entriesAreWritable entries
  | _ => true

def areWritable : List Datum → Bool
  | [] => true
  | d :: rest => d.isWritable && areWritable rest

def entriesAreWritable : List (String × Datum) → Bool
  | [] => true
  | (_, d) :: rest => d.isWritable && entriesAreWritable rest

end

/-- The text of a datum, unless an integer in it is too long. -/
def render? (d : Datum) : Option String := if d.isWritable then some d.render else none

theorem render?_eq_some_iff {d : Datum} {s : String} :
    d.render? = some s ↔ d.isWritable = true ∧ d.render = s := by
  rw [render?, Option.ite_none_right_eq_some, Option.some.injEq]

theorem isWritable_int {n : Int} : (Datum.int n).isWritable = true ↔
    n.natAbs < Text.Numeral.bound := by
  rw [isWritable, Option.isSome_iff_exists]
  simp [Text.Numeral.write?_eq_some_iff]

theorem not_isWritable_bound : ¬ (Datum.int Text.Numeral.bound).isWritable = true := by
  rw [isWritable_int, Int.natAbs_natCast]
  exact Nat.lt_irrefl _

end LintGate.Datum
