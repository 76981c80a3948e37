import LintGate.Proofs.Gate
import LintGate.Verification.Suite
import Mathlib.Data.List.Forall2

/-! # Tasks that take turns

Tasks take turns over a file tree: each starts from the tree that the one before it left. Done in
sequence up to the first that fails, or all of them by a pool that puts the results back in order,
oblivious tasks come to what they come to at their turns.
-/

namespace LintGate

open Gate

variable {α : Type}

/-- What tasks come to when each starts from the tree that the one before it left. -/
def Gate.inTurn : List (Gate α) → FileTree → List α
  | [], _ => []
  | task :: rest, t => task.value t :: inTurn rest (task.after t)

theorem Gate.length_inTurn (tasks : List (Gate α)) (t : FileTree) :
    (inTurn tasks t).length = tasks.length := by
  induction tasks generalizing t with
  | nil => rfl
  | cons task rest ih => simp [inTurn, ih]

namespace Runner

theorem inSequence_yields {tasks : List (Gate (Except Fault α))}
    (h : ∀ task ∈ tasks, task.Oblivious) (t : FileTree) :
    ∃ u es, (inSequence tasks).Yields t (collect (inTurn tasks t)) u es := by
  induction tasks generalizing t with
  | nil => exact ⟨t, [], .pure _ t⟩
  | cons task rest ih =>
    have htask := h task (by simp) t
    obtain ⟨u, es, hrest⟩ := ih (fun g hg => h g (by simp [hg])) (task.after t)
    rw [inSequence, inTurn]
    cases hvalue : task.value t with
    | error fault =>
      rw [hvalue] at htask
      exact ⟨_, _, htask.bind (.pure _ _)⟩
    | ok a =>
      rw [hvalue] at htask
      rw [collect]
      cases hcollect : collect (inTurn rest (task.after t)) with
      | error fault =>
        rw [hcollect] at hrest
        exact ⟨_, _, htask.bind (hrest.bind (.pure _ _))⟩
      | ok as =>
        rw [hcollect] at hrest
        exact ⟨_, _, htask.bind (hrest.bind (.pure _ _))⟩

def pooledTask (tasks : List (Gate α)) (i : Nat) : Gate (Option (Nat × α)) :=
  match tasks[i]? with
  | none => return none
  | some task => return some (i, ← task)

theorem filterMapM_yields {tasks : List (Gate α)} {order : List Nat} {chosen : List (Gate α)}
    (horder : List.Forall₂ (fun i task => tasks[i]? = some task) order chosen)
    (h : ∀ task ∈ chosen, task.Oblivious) (t : FileTree) :
    ∃ u es, (order.filterMapM (pooledTask tasks)).Yields t (order.zip (inTurn chosen t)) u es := by
  induction horder generalizing t with
  | nil => exact ⟨t, [], .pure _ t⟩
  | @cons i task order chosen htask _ ih =>
    obtain ⟨u, es, hrest⟩ := ih (fun g hg => h g (by simp [hg])) (task.after t)
    have hfirst : (pooledTask tasks i).Yields t (some (i, task.value t)) (task.after t)
        (task.events t ++ []) := by
      rw [pooledTask, htask]
      exact (h task (by simp) t).bind (.pure _ _)
    rw [List.filterMapM_cons]
    exact ⟨_, _, hfirst.bind (hrest.bind (.pure _ u))⟩

theorem lookup_zip_range' (as : List α) (start i : Nat) :
    ((List.range' start as.length).zip as).lookup (start + i) = as[i]? := by
  induction as generalizing start i with
  | nil => rfl
  | cons a as ih =>
    rw [List.length_cons, List.range'_succ, List.zip_cons_cons, List.lookup_cons]
    cases i with
    | zero => simp
    | succ i =>
      have hne : (start + (i + 1) == start) = false := by
        rw [beq_eq_false_iff_ne]
        omega
      have hnext : start + (i + 1) = start + 1 + i := by omega
      rw [hne, hnext]
      simpa using ih (start + 1) i

theorem filterMap_getElem? (as : List α) : (List.range as.length).filterMap (as[·]?) = as := by
  induction as with
  | nil => rfl
  | cons a as ih =>
    rw [List.length_cons, List.range_succ_eq_map, List.filterMap_cons, List.filterMap_map]
    exact congrArg (a :: ·) ih

theorem filterMap_lookup_zip (as : List α) :
    (List.range as.length).filterMap (((List.range as.length).zip as).lookup ·) = as := by
  have hlookup : ∀ i ∈ List.range as.length,
      ((List.range as.length).zip as).lookup i = as[i]? := by
    intro i _
    have h := lookup_zip_range' as 0 i
    rwa [Nat.zero_add, ← List.range_eq_range'] at h
  rw [List.filterMap_congr hlookup, filterMap_getElem?]

theorem forall₂_range (tasks : List α) :
    List.Forall₂ (fun i task => tasks[i]? = some task) (List.range tasks.length) tasks := by
  rw [List.forall₂_iff_get]
  refine ⟨List.length_range, fun i hi hi' => ?_⟩
  simp

theorem pooled_eq (tasks : List (Gate (Except Fault α))) (order : List Nat) :
    pooled tasks order = (do
      let done ← order.filterMapM (pooledTask tasks)
      return collect ((List.range tasks.length).filterMap (done.lookup ·))) := by
  rw [pooled]
  congr 2
  funext i
  rw [pooledTask]
  cases tasks[i]? <;> rfl

theorem pooled_yields {tasks : List (Gate (Except Fault α))}
    (h : ∀ task ∈ tasks, task.Oblivious) (t : FileTree) :
    ∃ u es, (pooled tasks (List.range tasks.length)).Yields t (collect (inTurn tasks t)) u es := by
  obtain ⟨u, es, hdone⟩ := filterMapM_yields (forall₂_range tasks) h t
  have hresults := filterMap_lookup_zip (inTurn tasks t)
  rw [length_inTurn] at hresults
  rw [pooled_eq]
  refine ⟨u, es ++ [], hdone.bind ?_⟩
  rw [hresults]
  exact .pure _ u

end Runner

end LintGate
