import LintGate.Sorting.Search

/-!
# Merging two sorted lists

Two sorted lists are merged from the end at which the shorter one is used up. As long as the lists
take turns they are compared item by item; where one of them gives many items in a row, the merge
goes over to stretches, whose length a search finds. How many in a row that takes is the patience
of the merge. It changes with its success, and is handed on to the next merge.
-/

namespace LintGate.Sorting

variable {α ε : Type}

structure Merged (α : Type) where
  items : List α
  patience : Nat
  deriving Repr

/-- How a merge goes on: item by item, after so many in a row from the left and the right list,
or by stretches. -/
inductive Pace
  | byItem (left right : Nat)
  | byStretch
  deriving DecidableEq, Repr

def longStretch : Nat := 7

/-- Item by item, until one list has given as many in a row as patience allows. -/
def Pace.next (patience left right : Nat) : Pace :=
  if patience ≤ max left right then byStretch else byItem left right

/-- The pace after stretches from both lists, and the patience: worth the search they make it
shorter, else longer. -/
def Pace.after (patience left right : Nat) : Pace × Nat :=
  if longStretch ≤ max left right then (byStretch, if 1 < patience then patience - 1 else patience)
  else (byItem 0 0, patience + 1)

/-- Puts items in front of a merge. -/
def Merged.behind (front : List α) (m : Merged α) : Merged α := { m with items := front ++ m.items }

/-- Merges two lists from the front. One last item of the left list is not compared: it comes
behind all others. -/
def mergeForward (less : α → α → Except ε Bool) (pace : Pace) (patience : Nat) :
    List α → List α → Except ε (Merged α)
  | a :: a' :: as, b :: bs =>
    match pace with
    | .byItem left right => do
      if ← less b a then
        let rest ← mergeForward less (.next patience 0 (right + 1)) patience (a :: a' :: as) bs
        return rest.behind [b]
      else
        let rest ← mergeForward less (.next patience (left + 1) 0) patience (a' :: as) (b :: bs)
        return rest.behind [a]
    | .byStretch => do
      let i ← placeBehind less b (a :: a' :: as) 0
      let front := (a :: a' :: as).take i
      match _left : (a :: a' :: as).drop i with
      | c :: c' :: cs =>
        let j ← placeInFront less c bs 0
        let front := front ++ b :: bs.take j
        match _right : bs.drop j with
        | d :: ds =>
          if cs.isEmpty then return ⟨front ++ c :: d :: ds ++ [c'], patience⟩
          else
            let (pace, patience) := Pace.after patience i j
            let rest ← mergeForward less pace patience (c' :: cs) (d :: ds)
            return rest.behind (front ++ [c])
        | [] => return ⟨front ++ c :: c' :: cs, patience⟩
      | cs => return ⟨front ++ b :: bs ++ cs, patience⟩
  | as, bs => .ok ⟨bs ++ as, patience⟩
termination_by as bs => as.length + bs.length
decreasing_by
  all_goals simp_wf
  all_goals
    have hl := congrArg List.length _left
    have hr := congrArg List.length _right
    simp at hl hr
    omega

/-- Merges two lists from the back, in front of what is merged already; both come with their last
item first. One last item of the right list is not compared: it comes in front of all others. -/
def mergeBackward (less : α → α → Except ε Bool) (pace : Pace) (patience : Nat) (done : List α) :
    List α → List α → Except ε (Merged α)
  | a :: as, b :: b' :: bs =>
    match pace with
    | .byItem left right => do
      if ← less b a then
        mergeBackward less (.next patience (left + 1) 0) patience (a :: done) as (b :: b' :: bs)
      else
        mergeBackward less (.next patience 0 (right + 1)) patience (b :: done) (a :: as) (b' :: bs)
    | .byStretch => do
      let i := as.length + 1 - (← placeBehind less b (a :: as).reverse as.length)
      let done := ((a :: as).take i).reverse ++ done
      match _left : (a :: as).drop i with
      | [] => return ⟨(b :: b' :: bs).reverse ++ done, patience⟩
      | c :: cs =>
        let done := b :: done
        if bs.isEmpty then return ⟨b' :: (c :: cs).reverse ++ done, patience⟩
        else
          let j := bs.length + 1 - (← placeInFront less c (b' :: bs).reverse bs.length)
          let done := ((b' :: bs).take j).reverse ++ done
          match _right : (b' :: bs).drop j with
          | d :: d' :: ds =>
            if cs.isEmpty then return ⟨(d :: d' :: ds).reverse ++ c :: done, patience⟩
            else
              let (pace, patience) := Pace.after patience i j
              mergeBackward less pace patience (c :: done) cs (d :: d' :: ds)
          | ds => return ⟨ds ++ (c :: cs).reverse ++ done, patience⟩
  | as, bs => .ok ⟨(as ++ bs).reverse ++ done, patience⟩
termination_by as bs => as.length + bs.length
decreasing_by
  all_goals simp_wf
  all_goals
    have hl := congrArg List.length _left
    have hr := congrArg List.length _right
    simp at hl hr
    omega

/-- Merges two lists of which the first item of the right one is less than the first of the left
one, and the last of the left one is not less than any other. -/
def mergeInner (less : α → α → Except ε Bool) (patience : Nat) (as bs : List α) :
    Except ε (Merged α) :=
  if as.length ≤ bs.length then
    (mergeForward less (.byItem 0 0) patience as bs.tail).map (Merged.behind (bs.take 1))
  else
    mergeBackward less (.byItem 0 0) patience (as.drop (as.length - 1)) as.reverse.tail bs.reverse

/-- Merges two sorted lists. Items of the left one that come first, and of the right one that come
last, stay where they are. -/
def merge (less : α → α → Except ε Bool) (patience : Nat) (as bs : List α) :
    Except ε (Merged α) :=
  match bs with
  | [] => .ok ⟨as, patience⟩
  | b :: _ => do
    let i ← placeBehind less b as 0
    match (as.drop i).getLast? with
    | none => return ⟨as ++ bs, patience⟩
    | some a =>
      let j ← placeInFront less a bs (bs.length - 1)
      let inner ← mergeInner less patience (as.drop i) (bs.take j)
      return ⟨as.take i ++ inner.items ++ bs.drop j, inner.patience⟩

end LintGate.Sorting
