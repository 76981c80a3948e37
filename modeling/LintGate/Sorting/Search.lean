/-!
# Searching a sorted list

Where an item belongs in a sorted list, asked of a comparison that may fail. A search starts at an
index that is likely, strides away from it with growing steps until the place is passed, and halves
what lies between. Which comparisons are made, and in what order, decides which fault a failing
comparison raises, so the functions here fix both.
-/

namespace LintGate.Sorting

variable {α ε : Type}

/-- The first index from `low` up to `high` at which a test holds that goes on to hold. -/
def bisect (test : Nat → Except ε Bool) (low high : Nat) : Except ε Nat :=
  if low < high then do
    let middle := low + (high - low) / 2
    if ← test middle then bisect test low middle else bisect test (middle + 1) high
  else .ok low
termination_by high - low

/-- Goes on to greater distances for as long as a test holds: the last distance at which it did,
and the first one at which it did not, or the limit. -/
def stride (test : Nat → Except ε Bool) (limit last next : Nat) : Except ε (Nat × Nat) :=
  if next < limit then do
    if ← test next then stride test limit next (2 * next + 1) else return (last, next)
  else .ok (last, limit)
termination_by limit - next

/-- The first of some indices at which a test holds that goes on to hold, sought from a likely
one. -/
def gallop (test : Nat → Except ε Bool) (size hint : Nat) : Except ε Nat := do
  if ← test hint then
    let (last, next) ← stride (fun d => test (hint - d)) (hint + 1) 0 1
    bisect test (hint + 1 - next) (hint - last)
  else
    let (last, next) ← stride (fun d => (! ·) <$> test (hint + d)) (size - hint) 0 1
    bisect test (hint + last + 1) (hint + next)

def precedes (less : α → α → Except ε Bool) (item : α) (items : List α) (i : Nat) :
    Except ε Bool :=
  match items[i]? with
  | some other => less item other
  | none => .ok true

def admits (less : α → α → Except ε Bool) (item : α) (items : List α) (i : Nat) :
    Except ε Bool :=
  match items[i]? with
  | some other => (! ·) <$> less other item
  | none => .ok true

def placeBehind (less : α → α → Except ε Bool) (item : α) (items : List α) (hint : Nat) :
    Except ε Nat :=
  gallop (precedes less item items) items.length hint

def placeInFront (less : α → α → Except ε Bool) (item : α) (items : List α) (hint : Nat) :
    Except ε Nat :=
  gallop (admits less item items) items.length hint

def insertAll (less : α → α → Except ε Bool) (sorted : List α) : List α → Except ε (List α)
  | [] => .ok sorted
  | item :: rest => do
    let i ← bisect (precedes less item sorted) 0 sorted.length
    insertAll less (sorted.take i ++ item :: sorted.drop i) rest

end LintGate.Sorting
