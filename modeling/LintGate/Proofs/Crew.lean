import LintGate.Proofs.SessionPhase
import Mathlib.Logic.Function.Basic

/-! # Crews

A crew is a number of workers that share one gate. Each holds sessions one after the other, and each
turn takes one step of the session that its worker is at. A worker whose session asks for the run
lock while it is held does nothing with its turn. The crew keeps a trace: what was written down, by
which worker, and in which of its sessions. Where every session deals with the lock and the cache in
the same order, at most one of them is inside, and no two share what is in the cache.
-/

namespace LintGate

/-- How far a worker is: the captures of its sessions that are over, and where the next one
stands. -/
structure Worker where
  captures : List Capture
  phase : Session.Phase

/-- Goes on to a phase, and to the next session from the last phase of one. -/
def Worker.enter (w : Worker) : Session.Phase → Worker
  | .ended capture => ⟨w.captures ++ [capture], .requested⟩
  | p => ⟨w.captures, p⟩

theorem Worker.enter_of_ne_ended (w : Worker) {p : Session.Phase}
    (h : ∀ capture, p ≠ .ended capture) : w.enter p = ⟨w.captures, p⟩ := by
  cases p with
  | ended capture => exact absurd rfl (h capture)
  | _ => rfl

/-- The next step of the session takes the run lock. -/
def Session.Phase.wantsLock : Phase → Bool
  | .opening (.lock :: _) => true
  | _ => false

abbrev Slot (ι : Type) := ι × Nat

abbrev Trace (ι : Type) := List (Slot ι × Event)

structure Crew (ι : Type) where
  gate : GateState
  worker : ι → Worker
  trace : Trace ι

namespace Crew

variable {ι : Type}

def start (t : FileTree) : Crew ι := ⟨.start t, fun _ => ⟨[], .requested⟩, []⟩

def slot (c : Crew ι) (i : ι) : Slot ι := (i, (c.worker i).captures.length)

def turn [DecidableEq ι] (sessions : ι → List Session) (c : Crew ι) (i : ι) : Crew ι :=
  match (sessions i)[(c.slot i).2]? with
  | none => c
  | some s =>
    if (c.worker i).phase.wantsLock && c.gate.locked then c
    else
      let (p, g) := (s.next (c.worker i).phase).run c.gate
      { gate := g
        worker := Function.update c.worker i ((c.worker i).enter p)
        trace := c.trace ++ (g.journal.drop c.gate.journal.length).map (c.slot i, ·) }

def play [DecidableEq ι] (sessions : ι → List Session) (turns : List ι) (c : Crew ι) : Crew ι :=
  turns.foldl (turn sessions) c

variable [DecidableEq ι] {sessions : ι → List Session} {c : Crew ι} {i : ι} {s : Session}
  {q : Session.Phase} {es : List Event}

theorem turn_eq (hs : (sessions i)[(c.slot i).2]? = some s)
    (hfree : ((c.worker i).phase.wantsLock && c.gate.locked) = false)
    (h : s.Moves c.gate.files (c.worker i).phase q es) :
    c.turn sessions i =
      ⟨⟨c.gate.files, es.foldl Event.holds c.gate.locked, c.gate.journal ++ es⟩,
        Function.update c.worker i ((c.worker i).enter q), c.trace ++ es.map (c.slot i, ·)⟩ := by
  rw [turn, hs]
  simp [hfree, h c.gate rfl]

theorem turn_of_none (hs : (sessions i)[(c.slot i).2]? = none) : c.turn sessions i = c := by
  rw [turn, hs]

theorem turn_of_held (hheld : ((c.worker i).phase.wantsLock && c.gate.locked) = true) :
    c.turn sessions i = c := by
  rw [turn]
  cases (sessions i)[(c.slot i).2]? <;> simp [hheld]

end Crew

namespace Event

/-- The run lock changes hands, a session is opened, or the cache is cleared. -/
def isMark : Event → Bool
  | .locked | .opened .. | .cacheCleared | .unlocked => true
  | _ => false

def isProcessing : Event → Bool
  | .processed .. | .analyzed _ | .heard _ => true
  | _ => false

/-- What a session may do next for what it has done with the run lock and the cache: take the lock,
be opened, process files, clear the cache, and give the lock back. -/
inductive Follows : List Event → Event → Prop
  | other {l : List Event} {e : Event} (mark : e.isMark = false)
      (processing : e.isProcessing = false) : Follows l e
  | locked : Follows [] .locked
  | opened {engine : String} {config : Path} : Follows [.locked] (.opened engine config)
  | processing {engine : String} {config : Path} {e : Event}
      (processing : e.isProcessing = true) : Follows [.locked, .opened engine config] e
  | cleared {engine : String} {config : Path} :
      Follows [.locked, .opened engine config] .cacheCleared
  | unlocked {engine : String} {config : Path} :
      Follows [.locked, .opened engine config, .cacheCleared] .unlocked

/-- Each of the events may come next. -/
def FollowAll : List Event → List Event → Prop
  | _, [] => True
  | l, e :: es => e.Follows l ∧ FollowAll (l ++ [e].filter isMark) es

end Event

namespace Trace

theorem concat_eq {α : Type} {old before rest : List α} {a last : α}
    (h : old ++ [last] = before ++ a :: rest) :
    (rest = [] ∧ old = before ∧ a = last) ∨
      ∃ more, rest = more ++ [last] ∧ old = before ++ a :: more := by
  rcases List.eq_nil_or_concat rest with rfl | ⟨more, b, rfl⟩
  · obtain ⟨hbefore, hlast⟩ := List.append_inj' h rfl
    exact .inl ⟨rfl, hbefore, (List.singleton_inj.mp hlast).symm⟩
  · rw [List.concat_eq_append, ← List.cons_append, ← List.append_assoc] at h
    obtain ⟨hold, hlast⟩ := List.append_inj' h rfl
    rw [← List.singleton_inj.mp hlast]
    exact .inr ⟨more, List.concat_eq_append, hold⟩

variable {ι : Type}

/-- The session has taken the run lock and not given it back. -/
def Inside (trace : Trace ι) (σ : Slot ι) : Prop :=
  (σ, .locked) ∈ trace ∧ (σ, .unlocked) ∉ trace

/-- Between the processing of two different sessions the cache was cleared. -/
def Apart (trace : Trace ι) : Prop :=
  ∀ before σ e between τ f behind, trace = before ++ (σ, e) :: (between ++ (τ, f) :: behind) →
    e.isProcessing = true → f.isProcessing = true → σ ≠ τ →
      ∃ entry ∈ between, entry.2 = .cacheCleared

variable {trace : Trace ι} {σ τ : Slot ι} {e : Event}

theorem inside_concat_iff (hlocked : e ≠ .locked) (hunlocked : e ≠ .unlocked) :
    Inside (trace ++ [(σ, e)]) τ ↔ trace.Inside τ := by
  simp [Inside, hlocked.symm, hunlocked.symm]

variable [DecidableEq ι]

/-- What a trace says of one session's dealings with the run lock and the cache. -/
def marks (trace : Trace ι) (σ : Slot ι) : List Event :=
  trace.filterMap fun entry => if entry.1 = σ && entry.2.isMark then some entry.2 else none

theorem mem_marks : e ∈ trace.marks σ ↔ (σ, e) ∈ trace ∧ e.isMark = true := by
  simp only [marks, List.mem_filterMap, Option.ite_none_right_eq_some, Bool.and_eq_true,
    decide_eq_true_eq, Option.some.injEq]
  constructor
  · rintro ⟨⟨ρ, f⟩, hmem, ⟨rfl, hmark⟩, rfl⟩
    exact ⟨hmem, hmark⟩
  · rintro ⟨hmem, hmark⟩
    exact ⟨(σ, e), hmem, ⟨rfl, hmark⟩, rfl⟩

theorem inside_iff : trace.Inside σ ↔ .locked ∈ trace.marks σ ∧ .unlocked ∉ trace.marks σ := by
  simp [Inside, mem_marks, Event.isMark]

theorem marks_concat (trace : Trace ι) (σ τ : Slot ι) (e : Event) :
    marks (trace ++ [(σ, e)]) τ =
      trace.marks τ ++ if σ = τ ∧ e.isMark = true then [e] else [] := by
  by_cases h : σ = τ ∧ e.isMark = true
  · simp [marks, h]
  · simp [marks, h]

theorem marks_append (es : List Event) :
    marks (trace ++ es.map (σ, ·)) τ =
      trace.marks τ ++ if σ = τ then es.filter Event.isMark else [] := by
  rw [marks, List.filterMap_append, List.filterMap_map]
  congr 1
  split_ifs with h
  · subst h
    rw [← List.filterMap_eq_filter]
    congr 1
    funext e
    simp [Option.guard]
  · simp [h]

theorem marks_append_own (i : ι) (n : Nat) (es : List Event) :
    (fun k => marks (trace ++ es.map ((i, n), ·)) (i, k)) =
      Function.update (fun k => trace.marks (i, k)) n
        (trace.marks (i, n) ++ es.filter Event.isMark) := by
  funext k
  rw [marks_append]
  by_cases hk : k = n
  · subst hk
    simp
  · have hslot : (i, n) ≠ (i, k) := fun h => hk (Prod.mk.inj h).2.symm
    simp [hslot, hk]

theorem marks_append_other {i j : ι} (h : j ≠ i) (n : Nat) (es : List Event) :
    (fun k => marks (trace ++ es.map ((i, n), ·)) (j, k)) = fun k => trace.marks (j, k) := by
  funext k
  have hslot : (i, n) ≠ (j, k) := fun heq => h (Prod.mk.inj heq).1.symm
  simp [marks_append, hslot]

theorem marks_concat_of_ne (h : σ ≠ τ) : marks (trace ++ [(σ, e)]) τ = trace.marks τ := by
  simp [marks_concat, h]

theorem marks_concat_of_not_mark (h : e.isMark = false) :
    marks (trace ++ [(σ, e)]) τ = trace.marks τ := by
  simp [marks_concat, h]

theorem marks_concat_self (h : e.isMark = true) :
    marks (trace ++ [(σ, e)]) σ = trace.marks σ ++ [e] := by
  simp [marks_concat, h]

/-- The run lock is held just in case a session is inside, and then only one is. What the sessions
that are not inside have left in the cache is cleared. -/
structure Disciplined (trace : Trace ι) (locked : Bool) : Prop where
  locked_iff : locked = true ↔ ∃ σ, trace.Inside σ
  unique : ∀ σ τ, trace.Inside σ → trace.Inside τ → σ = τ
  fouled : ∀ before σ e rest, trace = before ++ (σ, e) :: rest → e.isProcessing = true →
    (∃ entry ∈ rest, entry.2 = .cacheCleared) ∨
      ∃ engine config, trace.marks σ = [.locked, .opened engine config]
  apart : trace.Apart

theorem disciplined_nil : Disciplined ([] : Trace ι) false := by
  refine ⟨by simp [Inside], by simp [Inside], ?_, ?_⟩
  · intro before σ e rest h
    simp at h
  · intro before σ e between τ f behind h
    simp at h

theorem inside_of_marks {engine : String} {config : Path}
    (h : trace.marks σ = [.locked, .opened engine config]) : trace.Inside σ := by
  rw [inside_iff, h]
  simp

theorem marks_of_processing (h : e.Follows (trace.marks σ)) (he : e.isProcessing = true) :
    ∃ engine config, trace.marks σ = [.locked, .opened engine config] := by
  generalize hl : trace.marks σ = l at h
  cases h with
  | other hmark hprocessing =>
    rw [he] at hprocessing
    cases hprocessing
  | processing hprocessing => exact ⟨_, _, rfl⟩
  | _ => cases he

theorem not_mark_of_processing (h : e.isProcessing = true) : e.isMark = false := by
  cases e <;> first | rfl | cases h

namespace Disciplined

variable {locked : Bool}

theorem concat_fouled (h : trace.Disciplined locked) (hfollows : e.Follows (trace.marks σ)) :
    ∀ before τ f rest, trace ++ [(σ, e)] = before ++ (τ, f) :: rest → f.isProcessing = true →
      (∃ entry ∈ rest, entry.2 = .cacheCleared) ∨
        ∃ engine config, marks (trace ++ [(σ, e)]) τ = [.locked, .opened engine config] := by
  intro before τ f rest hsplit hf
  rcases concat_eq hsplit with ⟨-, -, hlast⟩ | ⟨more, rfl, hold⟩
  · cases hlast
    rw [marks_concat_of_not_mark (not_mark_of_processing hf)]
    exact .inr (marks_of_processing hfollows hf)
  · rcases h.fouled before τ f more hold hf with
      ⟨entry, hentry, hcleared⟩ | ⟨engine, config, hmarks⟩
    · exact .inl ⟨entry, by simp [hentry], hcleared⟩
    · by_cases hτ : σ = τ
      · subst hτ
        rw [hmarks] at hfollows
        cases hfollows with
        | other hmark _ =>
          exact .inr ⟨engine, config, by rw [marks_concat_of_not_mark hmark, hmarks]⟩
        | processing hprocessing =>
          have hmark := not_mark_of_processing hprocessing
          exact .inr ⟨engine, config, by rw [marks_concat_of_not_mark hmark, hmarks]⟩
        | cleared => exact .inl ⟨(σ, .cacheCleared), by simp, rfl⟩
      · exact .inr ⟨engine, config, by rw [marks_concat_of_ne hτ, hmarks]⟩

theorem concat_apart (h : trace.Disciplined locked) (hfollows : e.Follows (trace.marks σ)) :
    Apart (trace ++ [(σ, e)]) := by
  intro before τ f between ρ g behind hsplit hf hg hne
  rw [← List.cons_append, ← List.append_assoc] at hsplit
  rcases concat_eq hsplit with ⟨-, hold, hlast⟩ | ⟨more, -, hold⟩
  · cases hlast
    rcases h.fouled before τ f between hold hf with hcleared | ⟨engine, config, hmarks⟩
    · exact hcleared
    · obtain ⟨engine', config', hmarks'⟩ := marks_of_processing hfollows hg
      exact absurd (h.unique τ σ (inside_of_marks hmarks) (inside_of_marks hmarks')) hne
  · rw [List.append_assoc, List.cons_append] at hold
    exact h.apart before τ f between ρ g more hold hf hg hne

/-- An event that is neither about taking nor about giving back leaves the lock as it is. -/
theorem concat_of_ne (h : trace.Disciplined locked) (hfollows : e.Follows (trace.marks σ))
    (hlocked : e ≠ .locked) (hunlocked : e ≠ .unlocked) :
    Disciplined (trace ++ [(σ, e)]) (e.holds locked) := by
  have hholds : e.holds locked = locked := by
    cases e <;> first | rfl | contradiction
  refine ⟨?_, ?_, h.concat_fouled hfollows, h.concat_apart hfollows⟩
  · simp only [hholds, h.locked_iff, inside_concat_iff hlocked hunlocked]
  · simp only [inside_concat_iff hlocked hunlocked]
    exact h.unique

theorem concat_locked (h : trace.Disciplined locked)
    (hfollows : Event.locked.Follows (trace.marks σ)) (hfree : locked = false) :
    Disciplined (trace ++ [(σ, .locked)]) true := by
  have hnone : ∀ τ, ¬ trace.Inside τ := by
    intro τ hτ
    have hheld := h.locked_iff.mpr ⟨τ, hτ⟩
    rw [hfree] at hheld
    cases hheld
  have hmarks : trace.marks σ = [] := by
    generalize hl : trace.marks σ = l at hfollows
    cases hfollows with
    | other hmark _ => cases hmark
    | locked => rfl
    | processing hprocessing => cases hprocessing
  have hinside : ∀ τ, Inside (trace ++ [(σ, .locked)]) τ ↔ τ = σ := by
    intro τ
    by_cases hτ : σ = τ
    · subst hτ
      rw [inside_iff, marks_concat_self rfl, hmarks]
      simp
    · rw [inside_iff, marks_concat_of_ne hτ, ← inside_iff]
      exact iff_of_false (hnone τ) (Ne.symm hτ)
  refine ⟨?_, ?_, h.concat_fouled hfollows, h.concat_apart hfollows⟩
  · simp [hinside]
  · simp only [hinside]
    rintro _ _ rfl rfl
    rfl

theorem concat_unlocked (h : trace.Disciplined locked)
    (hfollows : Event.unlocked.Follows (trace.marks σ)) :
    Disciplined (trace ++ [(σ, .unlocked)]) false := by
  have hbefore : trace.Inside σ := by
    rw [inside_iff]
    generalize trace.marks σ = l at hfollows
    cases hfollows with
    | other hmark _ => cases hmark
    | processing hprocessing => cases hprocessing
    | unlocked => simp
  have hnone : ∀ τ, ¬ Inside (trace ++ [(σ, .unlocked)]) τ := by
    intro τ hτ
    by_cases hne : σ = τ
    · subst hne
      exact hτ.2 (by simp)
    · rw [inside_iff, marks_concat_of_ne hne, ← inside_iff] at hτ
      exact hne (h.unique σ τ hbefore hτ)
  refine ⟨?_, ?_, h.concat_fouled hfollows, h.concat_apart hfollows⟩
  · simp [hnone]
  · intro τ ρ hτ
    exact absurd hτ (hnone τ)

/-- One more event keeps the discipline, if the session may do it and the lock is free where it
takes it. -/
theorem concat (h : trace.Disciplined locked) (hfollows : e.Follows (trace.marks σ))
    (hfree : e = .locked → locked = false) :
    Disciplined (trace ++ [(σ, e)]) (e.holds locked) := by
  by_cases hlocked : e = .locked
  · subst hlocked
    exact h.concat_locked hfollows (hfree rfl)
  · by_cases hunlocked : e = .unlocked
    · subst hunlocked
      exact h.concat_unlocked hfollows
    · exact h.concat_of_ne hfollows hlocked hunlocked

theorem append {es : List Event} (h : trace.Disciplined locked)
    (hfollow : Event.FollowAll (trace.marks σ) es)
    (hfree : .locked ∈ es → es = [.locked] ∧ locked = false) :
    Disciplined (trace ++ es.map (σ, ·)) (es.foldl Event.holds locked) := by
  induction es generalizing trace locked with
  | nil =>
    rw [List.map_nil, List.append_nil]
    exact h
  | cons e rest ih =>
    obtain ⟨hfollows, hrest⟩ := hfollow
    have hmarks : marks (trace ++ [(σ, e)]) σ = trace.marks σ ++ [e].filter Event.isMark := by
      rw [marks_concat]
      cases hmark : e.isMark <;> simp [hmark]
    have hconcat := h.concat hfollows fun he => (hfree (by simp [he])).2
    have happend := ih hconcat (by rwa [hmarks]) fun hlocked => by
      rw [(List.cons_eq_cons.mp (hfree (List.mem_cons_of_mem e hlocked)).1).2] at hlocked
      cases hlocked
    rwa [List.append_assoc] at happend

end Disciplined

end Trace

end LintGate
