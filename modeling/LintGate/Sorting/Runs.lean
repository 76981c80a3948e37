import LintGate.Sorting.Merge

/-!
# Sorting by runs

A stable sort that makes use of the order a list has already. The list is cut into runs that are
sorted or strictly falling, short ones are filled up by insertion, and neighbouring runs are merged,
those first that lie closest together when the whole list is halved again and again.
-/

namespace LintGate.Sorting

variable {α ε : Type}

structure Run (α : Type) where
  /-- The index of the first item in the whole list. -/
  start : Nat
  items : List α
  /-- How closely the run belongs with the one behind it; the less the closer. -/
  power : Nat
  deriving Repr

/-- The runs that are not merged yet, the last one first, and the patience of the next merge. -/
structure Pending (α : Type) where
  runs : List (Run α)
  patience : Nat
  deriving Repr

def furtherItems (less : α → α → Except ε Bool) (falling : Bool) (last : α) :
    List α → Except ε Nat
  | [] => .ok 0
  | item :: rest => do
    if (← less item last) = falling then return (← furtherItems less falling item rest) + 1
    else return 0

def firstRun (less : α → α → Except ε Bool) : List α → Except ε (List α)
  | a :: b :: rest => do
    let falling ← less b a
    let n ← furtherItems less falling b rest
    let run := a :: b :: rest.take n
    return if falling then run.reverse else run
  | items => .ok items

/-- The least length of a run in a list of some length: the length itself if it is small, and else
such that the runs are nearly a power of two in number. -/
def leastRun (length : Nat) : Nat :=
  let part := Nat.pow 2 (length.log2 - 5)
  (length + part - 1) / part

/-- After how many halvings of the whole the middles of two neighbouring runs lie in different
parts. -/
def boundaryPower (total start left right : Nat) : Nat :=
  let middle := 2 * start + left
  let next := middle + left + right
  let apart (k : Nat) : Bool := middle * Nat.pow 2 k / total != next * Nat.pow 2 k / total
  ((List.range (total.log2 + 2)).find? apart).getD 0 + 1

def joinRuns (less : α → α → Except ε Bool) (patience : Nat) (front back : Run α) :
    Except ε (Run α × Nat) := do
  let merged ← merge less patience front.items back.items
  return (⟨front.start, merged.items, back.power⟩, merged.patience)

/-- Merges the last runs for as long as they belong together more closely than a boundary. -/
def settle (less : α → α → Except ε Bool) (power patience : Nat) :
    List (Run α) → Except ε (Pending α)
  | back :: front :: rest =>
    if power < front.power then do
      let (run, patience) ← joinRuns less patience front back
      settle less power patience (run :: rest)
    else .ok ⟨back :: front :: rest, patience⟩
  | runs => .ok ⟨runs, patience⟩
termination_by runs => runs.length

def Pending.push (less : α → α → Except ε Bool) (total start : Nat) (items : List α)
    (pending : Pending α) : Except ε (Pending α) :=
  match pending.runs with
  | [] => .ok { pending with runs := [⟨start, items, 0⟩] }
  | last :: _ => do
    let power := boundaryPower total last.start last.items.length items.length
    let settled ← settle less power pending.patience pending.runs
    let runs := match settled.runs with
      | last :: rest => { last with power } :: rest
      | [] => []
    return { settled with runs := ⟨start, items, 0⟩ :: runs }

/-- Merges all runs that are pending. Of three, the middle one goes with the shorter of the
others. -/
def mergeAll (less : α → α → Except ε Bool) (patience : Nat) : List (Run α) → Except ε (List α)
  | [] => .ok []
  | [run] => .ok run.items
  | [back, front] => do return (← joinRuns less patience front back).1.items
  | back :: middle :: front :: rest => do
    if front.items.length < back.items.length then
      let (run, patience) ← joinRuns less patience front middle
      mergeAll less patience (back :: run :: rest)
    else
      let (run, patience) ← joinRuns less patience middle back
      mergeAll less patience (run :: front :: rest)
termination_by runs => runs.length

/-- Cuts what is left of a list into runs and merges all. -/
def sortFrom (less : α → α → Except ε Bool) (total : Nat) (pending : Pending α) :
    List α → Except ε (List α)
  | [] => mergeAll less pending.patience pending.runs
  | item :: rest => do
    let run ← firstRun less (item :: rest)
    let size := max run.length (leastRun total)
    let filled ← insertAll less run (((item :: rest).take size).drop run.length)
    let pending ← pending.push less total (total - (rest.length + 1)) filled
    sortFrom less total pending (rest.drop (size - 1))
termination_by items => items.length

/-- Sorts a list; equal items keep their order. The first comparison that fails ends it. -/
def sort (less : α → α → Except ε Bool) (items : List α) : Except ε (List α) :=
  sortFrom less items.length ⟨[], longStretch⟩ items

end LintGate.Sorting
