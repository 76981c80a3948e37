import LintGate.Fault

/-!
# Equality and order of data

Numbers are equal across their types, and ordered with one another; texts are ordered by their
code points. Lists and tables cannot be counted, and data of different kinds have no order.
-/

namespace LintGate.Datum

/-- The one datum that stands for all that are equal to this one: a truth value is a number, and
a number without a fraction is an integer. -/
def canonical : Datum → Datum
  | .bool b => .int (if b then 1 else 0)
  | .float (.finite negative m e) =>
    let whole := Number.Double.truncate negative m e
    if m * Nat.pow 2 e.toNat = whole.natAbs * Nat.pow 2 (-e).toNat then .int whole
    else .float (.finite negative m e)
  | d => d

@[simp] theorem canonical_text (s : String) : canonical (.text s) = .text s := rfl

/-- Whether equal data can be counted. -/
def isCountable : Datum → Bool
  | .list _ | .table _ => false
  | _ => true

/-- A number on the line from the negative to the positive infinity. -/
inductive Magnitude
  | fraction (num : Int) (den : Nat)
  | infinite (negative : Bool)
  | none

/-- Where a number lies; `none` for what is no number. -/
def magnitude? : Datum → Option Magnitude
  | .bool b => some (.fraction (if b then 1 else 0) 1)
  | .int n => some (.fraction n 1)
  | .float (.finite negative m e) =>
    let num : Int := (m * Nat.pow 2 e.toNat : Nat)
    some (.fraction (if negative then -num else num) (Nat.pow 2 (-e).toNat))
  | .float (.infinite negative) => some (.infinite negative)
  | .float .nan => some .none
  | _ => Option.none

def Magnitude.less : Magnitude → Magnitude → Bool
  | .fraction a b, .fraction c d => a * (d : Int) < c * (b : Int)
  | .fraction .., .infinite negative => !negative
  | .infinite negative, .fraction .. => negative
  | .infinite a, .infinite b => a && !b
  | _, _ => false

def less (a b : Datum) : Except Fault Bool :=
  match a, b with
  | .text s, .text t => .ok (s < t)
  | a, b =>
    match magnitude? a, magnitude? b with
    | some x, some y => .ok (x.less y)
    | _, _ => .error (.notOrdered a.typeName b.typeName)

end LintGate.Datum
