import LintGate.Datum.Basic
import LintGate.Toml.Fault

/-!
# Tables under construction

What a TOML document has said so far: its entries, the keys that no header may open again, the
keys whose values were written inline and must stay as they are, and the keys that become closed
to headers when the next one comes.
-/

namespace LintGate.Toml

abbrev Entries := List (String × Datum)

/-- Changes the table behind a key, which is made if it is not there. Where `intoLists` allows
it, a list stands for its last element. `none` when something on the way is no table. -/
def change? (intoLists : Bool) (edit : Entries → Option Entries) : Key → Entries → Option Entries
  | [], entries => edit entries
  | part :: key, entries =>
    match Datum.lookup part entries with
    | none => (change? intoLists edit key []).map fun t => Datum.insert part (.table t) entries
    | some (.table inner) =>
      (change? intoLists edit key inner).map fun t => Datum.insert part (.table t) entries
    | some (.list items) =>
      match intoLists, items.getLast? with
      | true, some (.table inner) =>
        (change? intoLists edit key inner).map fun t =>
          Datum.insert part (.list (items.dropLast ++ [.table t])) entries
      | _, _ => none
    | some _ => none

def addValue? (part : String) (d : Datum) (entries : Entries) : Option Entries :=
  if (Datum.lookup part entries).isSome then none else some (entries ++ [(part, d)])

/-- Adds a table to the list behind a key part, which is made if it is not there. -/
def addTable? (part : String) (entries : Entries) : Option Entries :=
  match Datum.lookup part entries with
  | none => some (entries ++ [(part, .list [.table []])])
  | some (.list items) => some (Datum.insert part (.list (items ++ [.table []])) entries)
  | some _ => none

/-- Whether a value was written as a list or a table of its own. -/
def isNested : Datum → Bool
  | .list _ | .table _ => true
  | _ => false

structure Namespace where
  entries : Entries
  /-- Keys that a header may not open. -/
  closed : List Key
  /-- Keys of inline lists and tables; they and everything below them stay as they are. -/
  frozen : List Key
  /-- Keys that become closed at the next header. -/
  pending : List Key

namespace Namespace

def empty : Namespace := ⟨[], [], [], []⟩

def isClosed (n : Namespace) (key : Key) : Bool := n.closed.contains key

def isFrozen (n : Namespace) (key : Key) : Bool := n.frozen.any (·.isPrefixOf key)

/-- The document turns to another table. -/
def turn (n : Namespace) : Namespace := { n with closed := n.pending ++ n.closed, pending := [] }

def openTable (n : Namespace) (key : Key) : Except Problem Namespace :=
  if n.isClosed key || n.isFrozen key then .error (.declaredTwice key)
  else
    match change? true some key n.entries with
    | none => .error .overwritten
    | some entries => .ok { n with entries, closed := key :: n.closed }

/-- Opens a new table in the list of a header. The keys below it are free again. -/
def openListed (n : Namespace) (key : Key) : Except Problem Namespace :=
  if n.isFrozen key then .error (.immutable key)
  else
    match change? true (addTable? (key.getLastD "")) key.dropLast n.entries with
    | none => .error .overwritten
    | some entries =>
      .ok { n with
        entries
        closed := key :: n.closed.filter (! key.isPrefixOf ·)
        frozen := n.frozen.filter (! key.isPrefixOf ·) }

/-- The tables that a dotted key passes through, from the header's table on. -/
def passedThrough (header key : Key) : List Key :=
  (List.range (key.length - 1)).map fun i => header ++ key.take (i + 1)

def assign (n : Namespace) (header key : Key) (d : Datum) : Except Problem Namespace :=
  let above := header ++ key.dropLast
  match (passedThrough header key).find? n.isClosed with
  | some passed => .error (.redefined passed)
  | none =>
    if n.isFrozen above then .error (.immutable above)
    else
      match change? true (addValue? (key.getLastD "") d) above n.entries with
      | none => .error .overwritten
      | some entries =>
        .ok { n with
          entries
          frozen := if isNested d then (header ++ key) :: n.frozen else n.frozen
          pending := passedThrough header key ++ n.pending }

end Namespace

/-- An inline table under construction: its entries, and the keys in it that stay as they are. -/
structure InlineTable where
  entries : Entries
  frozen : List Key

def InlineTable.assign (t : InlineTable) (key : Key) (d : Datum) : Except Problem InlineTable :=
  let part := key.getLastD ""
  if t.frozen.any (·.isPrefixOf key) then .error (.immutable key)
  else
    match change? false some key.dropLast t.entries with
    | none => .error .overwritten
    | some _ =>
      match change? false (addValue? part d) key.dropLast t.entries with
      | none => .error (.duplicateKey part)
      | some entries => .ok ⟨entries, if isNested d then key :: t.frozen else t.frozen⟩

end LintGate.Toml
