import LintGate.Proofs.Turns
import LintGate.Proofs.Uniform

/-! # Tasks of a pool

Tasks that are uniform come to the same in whatever order they are done: one after the other, by a
pool that takes them up in any order, or step by step in turns. Their results are put back in order,
and as long as none of them is a fault, what is written down is what the tasks write down alone, in
some order.
-/

namespace LintGate

open Gate

/-- An action in steps: the step to be taken at a place, and all that is left from there on. -/
structure Stepwise (σ α : Type) where
  next : σ → Gate σ
  finish : σ → Gate α
  finish_eq_next : ∀ p, finish p = next p >>= finish

namespace Stepwise

variable {σ α : Type}

def turn (m : Stepwise σ α) (places : List σ) (i : Nat) : Gate (List σ) :=
  match places[i]? with
  | none => return places
  | some p => return places.set i (← m.next p)

def play (m : Stepwise σ α) : List Nat → List σ → Gate (List σ)
  | [], places => return places
  | i :: turns, places => do m.play turns (← m.turn places i)

/-- Gives turns to the tasks in some order, and then asks for their results one after the other, up
to the first fault. What is left of a task is done when it is asked for; what is left of those
behind a fault is not done at all. -/
def interleaved (m : Stepwise σ (Except Fault α)) (turns : List Nat) (places : List σ) :
    Gate (Except Fault (List α)) := do
  Runner.inSequence ((← m.play turns places).map m.finish)

variable {m : Stepwise σ α} {t u : FileTree} {W : FileTree → Prop} {S : σ → Prop}
  {es fs : List Event} {places : List σ} {p : σ}

/-- The action is uniform from each place of a set on, and its steps stay in the set. -/
structure Uniform (m : Stepwise σ α) (S : σ → Prop) (t : FileTree) (W : FileTree → Prop) :
    Prop where
  next : ∀ p, S p → (m.next p).Uniform t W ∧ S ((m.next p).value t)
  finish : ∀ p, S p → (m.finish p).Uniform t W

/-- What tasks come to, each alone over the tree. -/
def values (m : Stepwise σ α) (t : FileTree) (places : List σ) : List α :=
  (places.map m.finish).map (·.value t)

def events (m : Stepwise σ α) (t : FileTree) (places : List σ) : List Event :=
  (places.map m.finish).flatMap (·.events t)

/-- Behind some events, the tasks have come to places from where they come to the same, and write
down what is missing. -/
structure Continues (m : Stepwise σ α) (t : FileTree) (start : List σ) (es : List Event)
    (places : List σ) : Prop where
  values : m.values t places = m.values t start
  events : (es ++ m.events t places).Perm (m.events t start)

namespace Continues

theorem refl (m : Stepwise σ α) (t : FileTree) (places : List σ) :
    m.Continues t places [] places := ⟨rfl, .refl _⟩

theorem trans {start later : List σ} (h : m.Continues t start es places)
    (h' : m.Continues t places fs later) : m.Continues t start (es ++ fs) later := by
  refine ⟨h'.values.trans h.values, ?_⟩
  rw [List.append_assoc]
  exact (h'.events.append_left es).trans h.events

end Continues

namespace Uniform

/-- A step taken by one of the tasks makes no difference to what all of them come to. -/
theorem continues (h : m.Uniform S t W) (ht : W t) (hp : S p) (before behind : List σ) :
    m.Continues t (before ++ p :: behind) ((m.next p).events t)
      (before ++ (m.next p).value t :: behind) := by
  obtain ⟨hnext, hleft⟩ := h.next p hp
  have hfinish := h.finish _ hleft
  have hvalue : (m.finish p).value t = (m.finish ((m.next p).value t)).value t := by
    rw [m.finish_eq_next p, hnext.value_bind ht hfinish]
  have hevents : (m.finish p).events t =
      (m.next p).events t ++ (m.finish ((m.next p).value t)).events t := by
    rw [m.finish_eq_next p, hnext.events_bind ht hfinish]
  constructor
  · simp [values, hvalue]
  · simp only [events, List.map_append, List.map_cons, List.flatMap_append, List.flatMap_cons,
      hevents, List.append_assoc]
    -- What the step wrote moves in front of what the tasks before it will write.
    exact List.perm_append_comm_assoc _ _ _

theorem turn_yields (h : m.Uniform S t W) (ht : W t) (hplaces : ∀ p ∈ places, S p) (hu : W u)
    (i : Nat) :
    ∃ later v es, (m.turn places i).Yields u later v es ∧ W v ∧ (∀ p ∈ later, S p) ∧
      m.Continues t places es later := by
  rw [turn]
  cases hi : places[i]? with
  | none => exact ⟨places, u, [], .pure _ u, hu, hplaces, .refl m t places⟩
  | some p =>
    have hp : S p := hplaces p (List.mem_of_getElem? hi)
    obtain ⟨hnext, hleft⟩ := h.next p hp
    obtain ⟨hyields, hv⟩ := hnext u hu
    refine ⟨_, _, _, hyields.bind (.pure _ _), hv, ?_, ?_⟩
    · intro q hq
      rcases List.mem_or_eq_of_mem_set hq with hq | rfl
      · exact hplaces q hq
      · exact hleft
    · obtain ⟨hlength, hget⟩ := List.getElem?_eq_some_iff.mp hi
      obtain ⟨before, behind, hsplit, -, hset⟩ :
          ∃ before behind, places = before ++ places[i] :: behind ∧ before.length = i ∧
            places.set i ((m.next p).value t) = before ++ (m.next p).value t :: behind :=
        List.exists_of_set hlength
      have hcontinues := h.continues ht hp before behind
      rw [hget] at hsplit
      rwa [← hset, ← hsplit, ← List.append_nil ((m.next p).events t)] at hcontinues

theorem play_yields (h : m.Uniform S t W) (ht : W t) (hplaces : ∀ p ∈ places, S p) (hu : W u)
    (turns : List Nat) :
    ∃ later v es, (m.play turns places).Yields u later v es ∧ W v ∧ (∀ p ∈ later, S p) ∧
      m.Continues t places es later := by
  induction turns generalizing places u with
  | nil => exact ⟨places, u, [], .pure _ u, hu, hplaces, .refl m t places⟩
  | cons i turns ih =>
    obtain ⟨later, v, es, hturn, hv, hlater, hcontinues⟩ := h.turn_yields ht hplaces hu i
    -- The tree has changed, but only within the family, to which the rest of the turns applies.
    obtain ⟨last, w, fs, hplay, hw, hlast, hcontinues'⟩ := ih hlater hv
    exact ⟨last, w, es ++ fs, hturn.bind hplay, hw, hlast, hcontinues.trans hcontinues'⟩

end Uniform

end Stepwise

/-- The results of tasks are collected, up to the first fault in their order. As long as there is
none, what is written down is what the tasks write down, each alone over the tree, in some order. -/
def Gate.Gathers {α : Type} (g : Gate (Except Fault (List α)))
    (tasks : List (Gate (Except Fault α))) (t : FileTree) (W : FileTree → Prop) : Prop :=
  ∀ u, W u → ∃ v es, g.Yields u (Runner.collect (tasks.map (·.value t))) v es ∧ W v ∧
    ∀ as, Runner.collect (tasks.map (·.value t)) = .ok as → es.Perm (tasks.flatMap (·.events t))

namespace Runner

variable {α : Type} {tasks : List (Gate (Except Fault α))} {t u : FileTree} {W : FileTree → Prop}

theorem inSequence_gathers (h : ∀ task ∈ tasks, task.Uniform t W) :
    (inSequence tasks).Gathers tasks t W := by
  induction tasks with
  | nil => exact fun u hu => ⟨u, [], .pure _ u, hu, fun _ _ => .refl _⟩
  | cons task rest ih =>
    intro u hu
    obtain ⟨htask, hleft⟩ := h task (by simp) u hu
    obtain ⟨v, es, hrest, hv, hperm⟩ := ih (fun g hg => h g (by simp [hg])) _ hleft
    rw [inSequence, List.map_cons]
    cases hvalue : task.value t with
    | error fault =>
      rw [hvalue] at htask
      exact ⟨_, _, htask.bind (.pure _ _), hleft, fun as has => by cases has⟩
    | ok a =>
      rw [hvalue] at htask
      rw [collect]
      cases hcollect : collect (rest.map (·.value t)) with
      | error fault =>
        rw [hcollect] at hrest
        exact ⟨_, _, htask.bind (hrest.bind (.pure _ _)), hv, fun as has => by cases has⟩
      | ok as =>
        rw [hcollect] at hrest
        refine ⟨_, _, htask.bind (hrest.bind (.pure _ _)), hv, fun _ _ => ?_⟩
        rw [List.append_nil, List.flatMap_cons]
        exact (hperm as hcollect).append_left _

theorem filterMapM_gathers (h : ∀ task ∈ tasks, task.Uniform t W) (order : List Nat) (hu : W u) :
    ∃ v, (order.filterMapM (pooledTask tasks)).Yields u
      (order.filterMap fun i => tasks[i]?.map fun task => (i, task.value t)) v
      ((order.filterMap (tasks[·]?)).flatMap (·.events t)) ∧ W v := by
  induction order generalizing u with
  | nil => exact ⟨u, .pure _ u, hu⟩
  | cons i order ih =>
    rw [List.filterMapM_cons]
    cases hi : tasks[i]? with
    | none =>
      obtain ⟨v, hrest, hv⟩ := ih hu
      have hskip : (pooledTask tasks i).Yields u none u [] := by
        rw [pooledTask, hi]
        exact .pure _ u
      refine ⟨v, ?_, hv⟩
      simpa [hi] using hskip.bind hrest
    | some task =>
      obtain ⟨htask, hleft⟩ := h task (List.mem_of_getElem? hi) u hu
      obtain ⟨v, hrest, hv⟩ := ih hleft
      have hdone : (pooledTask tasks i).Yields u (some (i, task.value t)) (task.after u)
          (task.events t) := by
        rw [pooledTask, hi, ← List.append_nil (task.events t)]
        exact htask.bind (.pure _ _)
      refine ⟨v, ?_, hv⟩
      simp only [List.filterMap_cons, hi, Option.map_some, List.flatMap_cons]
      rw [← List.append_nil (List.flatMap _ _)]
      exact hdone.bind (hrest.bind (.pure _ v))

theorem lookup_filterMap {β : Type} (result : Nat → Option β) (order : List Nat) (i : Nat) :
    (order.filterMap fun j => (result j).map fun b => (j, b)).lookup i =
      if i ∈ order then result i else none := by
  induction order with
  | nil => rfl
  | cons j order ih =>
    rw [List.filterMap_cons]
    by_cases hij : i = j
    · subst hij
      cases hresult : result i with
      | none => simp [ih, hresult]
      | some b => simp
    · cases hresult : result j with
      | none => simp [ih, hij]
      | some b =>
        have hne : (i == j) = false := by simp [hij]
        simp [List.lookup_cons, ih, hij, hne]

/-- The pool may take up the tasks in any order. -/
theorem pooled_gathers (h : ∀ task ∈ tasks, task.Uniform t W) {order : List Nat}
    (horder : order.Perm (List.range tasks.length)) :
    (pooled tasks order).Gathers tasks t W := by
  intro u hu
  obtain ⟨v, hdone, hv⟩ := filterMapM_gathers h order hu
  have hresults : (List.range tasks.length).filterMap
      ((order.filterMap fun i => tasks[i]?.map fun task => (i, task.value t)).lookup ·) =
        tasks.map (·.value t) := by
    have hlookup : ∀ i ∈ List.range tasks.length,
        (order.filterMap fun i => tasks[i]?.map fun task => (i, task.value t)).lookup i =
          (tasks.map (·.value t))[i]? := by
      intro i hi
      have hfound := lookup_filterMap (fun i => tasks[i]?.map (·.value t)) order i
      rw [if_pos (horder.mem_iff.mpr hi)] at hfound
      simpa [Option.map_map, Function.comp_def] using hfound
    have hmap := filterMap_getElem? (tasks.map (·.value t))
    rw [List.length_map] at hmap
    rw [List.filterMap_congr hlookup, hmap]
  have hperm : (order.filterMap (tasks[·]?)).Perm tasks := by
    have htasks := horder.filterMap (tasks[·]?)
    rwa [filterMap_getElem?] at htasks
  rw [pooled_eq, ← hresults]
  refine ⟨v, _, hdone.bind (.pure _ v), hv, fun _ _ => ?_⟩
  rw [List.append_nil]
  exact hperm.flatMap_right _

end Runner

/-- Tasks that take their steps in turns come to what they come to alone. -/
theorem Stepwise.interleaved_gathers {σ α : Type} {m : Stepwise σ (Except Fault α)}
    {S : σ → Prop} {t : FileTree} {W : FileTree → Prop} (h : m.Uniform S t W) (ht : W t)
    (turns : List Nat) {places : List σ} (hplaces : ∀ p ∈ places, S p) :
    (m.interleaved turns places).Gathers (places.map m.finish) t W := by
  intro u hu
  obtain ⟨later, v, es, hplay, hv, hlater, hcontinues⟩ := h.play_yields ht hplaces hu turns
  have hfinish : ∀ task ∈ later.map m.finish, task.Uniform t W := by
    intro task htask
    obtain ⟨p, hp, rfl⟩ := List.mem_map.mp htask
    exact h.finish p (hlater p hp)
  obtain ⟨w, fs, hrest, hw, hperm⟩ := Runner.inSequence_gathers hfinish v hv
  have hvalues : (later.map m.finish).map (·.value t) = (places.map m.finish).map (·.value t) :=
    hcontinues.values
  rw [hvalues] at hrest hperm
  refine ⟨w, es ++ fs, hplay.bind hrest, hw, fun as has => ?_⟩
  exact ((hperm as has).append_left es).trans hcontinues.events

end LintGate
