import LintGate.Calendar
import LintGate.Number.Double

/-!
# Data

The values that engine output, settings and configuration files hold: what JSON and TOML can
write. A table keeps its entries in the order of insertion.
-/

namespace LintGate

inductive Datum
  | null
  | bool (b : Bool)
  | int (n : Int)
  | float (x : Number.Double)
  | text (s : String)
  | moment (m : Moment)
  | list (items : List Datum)
  | table (entries : List (String × Datum))
  deriving Repr, Inhabited

namespace Datum

mutual

def decEq : (a b : Datum) → Decidable (a = b)
  | .null, b => by
    cases b with
    | null => exact .isTrue rfl
    | _ => exact .isFalse (by simp)
  | .bool a, b => by
    cases b with
    | bool b => exact decidable_of_iff (a = b) (by simp)
    | _ => exact .isFalse (by simp)
  | .int a, b => by
    cases b with
    | int b => exact decidable_of_iff (a = b) (by simp)
    | _ => exact .isFalse (by simp)
  | .float a, b => by
    cases b with
    | float b => exact decidable_of_iff (a = b) (by simp)
    | _ => exact .isFalse (by simp)
  | .text a, b => by
    cases b with
    | text b => exact decidable_of_iff (a = b) (by simp)
    | _ => exact .isFalse (by simp)
  | .moment a, b => by
    cases b with
    | moment b => exact decidable_of_iff (a = b) (by simp)
    | _ => exact .isFalse (by simp)
  | .list a, b => by
    cases b with
    | list b =>
      have := decEqItems a b
      exact decidable_of_iff (a = b) (by simp)
    | _ => exact .isFalse (by simp)
  | .table a, b => by
    cases b with
    | table b =>
      have := decEqEntries a b
      exact decidable_of_iff (a = b) (by simp)
    | _ => exact .isFalse (by simp)

def decEqItems : (a b : List Datum) → Decidable (a = b)
  | [], b => by
    cases b with
    | nil => exact .isTrue rfl
    | cons _ _ => exact .isFalse (by simp)
  | x :: a, b => by
    cases b with
    | nil => exact .isFalse (by simp)
    | cons y b =>
      have := decEq x y
      have := decEqItems a b
      exact decidable_of_iff (x = y ∧ a = b) (by simp)

def decEqEntries : (a b : List (String × Datum)) → Decidable (a = b)
  | [], b => by
    cases b with
    | nil => exact .isTrue rfl
    | cons _ _ => exact .isFalse (by simp)
  | (k, x) :: a, b => by
    cases b with
    | nil => exact .isFalse (by simp)
    | cons e b =>
      obtain ⟨l, y⟩ := e
      have := decEq x y
      have := decEqEntries a b
      exact decidable_of_iff ((k = l ∧ x = y) ∧ a = b) (by simp)

end

instance : DecidableEq Datum := decEq

def lookup (key : String) (entries : List (String × Datum)) : Option Datum :=
  (entries.find? (·.1 == key)).map (·.2)

/-- Gives a key a value: in place if it has one, else behind all other entries. -/
def insert (key : String) (value : Datum) : List (String × Datum) → List (String × Datum)
  | [] => [(key, value)]
  | (k, v) :: rest => if k = key then (k, value) :: rest else (k, v) :: insert key value rest

/-- Whether a datum counts as present where an absent one may be written as null, zero or
empty. -/
def isTruthy : Datum → Bool
  | .null => false
  | .bool b => b
  | .int n => n != 0
  | .float x => !x.isZero
  | .text s => s != ""
  | .moment _ => true
  | .list items => !items.isEmpty
  | .table entries => !entries.isEmpty

/-- The datum itself where it counts as present, and the other one where it does not. -/
def orElse (d : Datum) (other : Datum) : Datum := if d.isTruthy then d else other

def typeName : Datum → String
  | .null => "NoneType"
  | .bool _ => "bool"
  | .int _ => "int"
  | .float _ => "float"
  | .text _ => "str"
  | .moment (.date _) => "datetime.date"
  | .moment (.time _) => "datetime.time"
  | .moment (.both ..) => "datetime.datetime"
  | .list _ => "list"
  | .table _ => "dict"

end Datum

end LintGate
