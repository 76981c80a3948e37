import LintGate.Datum.Order
import LintGate.Sorting.Runs
import LintGate.Violation

/-!
# Comparing keys as multisets

What one list of keys holds more often than another one, and the order in which such keys are
shown: by line, then by text. Keys whose texts are texts have a total order. Where engines report
other data, an order may be missing, and sorting then fails at the first two keys without one
that it compares.
-/

namespace LintGate.Key

/-- The one key that stands for all that are equal to this one. -/
def canonical (k : Key) : Key := ⟨k.line, k.text.canonical⟩

def occurrences (k : Key) (ks : List Key) : Nat :=
  ks.countP fun l => l.canonical = k.canonical

/-- The list without the keys that equal an earlier one. -/
def distinct (ks : List Key) : List Key :=
  ks.foldl (fun seen k => if k.occurrences seen = 0 then seen ++ [k] else seen) []

/-- Each key of the first list as often as the first list holds it more often than the second. -/
def surplus (ks other : List Key) : List Key :=
  (distinct ks).flatMap fun k => List.replicate (k.occurrences ks - k.occurrences other) k

/-- Keys can be counted where their texts can. -/
def checkCountable (ks : List Key) : Except Fault Unit :=
  match ks.find? (! ·.text.isCountable) with
  | some k => .error (.notHashable k.text.typeName)
  | none => .ok ()

def hasText (k : Key) : Bool :=
  match k.text with
  | .text _ => true
  | _ => false

/-- By line, then by the code points of the text. -/
def le (k l : Key) : Bool :=
  k.line < l.line || (k.line == l.line && !(l.text.render < k.text.render))

/-- Whether the first key comes before the second one. Equal texts need no order. -/
def less (k l : Key) : Except Fault Bool :=
  if k.line ≠ l.line then .ok (k.line < l.line)
  else if k.text.canonical = l.text.canonical then .ok false
  else k.text.less l.text

def sort (ks : List Key) : Except Fault (List Key) :=
  if ks.all hasText then .ok (ks.mergeSort le) else Sorting.sort less ks

end LintGate.Key
