import LintGate.Proofs.Composition
import LintGate.Proofs.SessionHistory

/-! # Episodes

An episode is the history of one session, from its request to its end. Where the history of sessions
is a row of episodes, no session is opened while another one is open, none is closed twice, and all
that were opened are closed. The history of a check, and so that of anything that runs checks one
after the other, is such a row.
-/

namespace LintGate

open Gate

/-- A session as its history tells it: the engine and the configuration that it was requested with,
and unless it was refused, the files of each run beside what the listener heard of it. -/
structure Episode where
  engine : String
  config : Path
  runs : Option (List (List Path × List Finding))

namespace Episode

def course (engine : String) (config : Path) (runs : List (List Path × List Finding)) :
    List Event :=
  runs.flatMap fun run => .processed engine config run.1 :: run.2.map .heard

def events (e : Episode) : List Event :=
  .requested e.engine e.config ::
    match e.runs with
    | none => []
    | some runs => .opened e.engine e.config ::
        (course e.engine e.config runs ++ [.closed e.engine e.config])

end Episode

namespace Event

def opens (p : String → Bool) : Event → Bool
  | .opened engine _ => p engine
  | _ => false

def closes (p : String → Bool) : Event → Bool
  | .closed engine _ => p engine
  | _ => false

theorem isSession_of_opens {p : String → Bool} {e : Event} (h : e.opens p = true) :
    e.isSession = true := by
  cases e with
  | opened engine config => rfl
  | _ => cases h

theorem isSession_of_closes {p : String → Bool} {e : Event} (h : e.closes p = true) :
    e.isSession = true := by
  cases e with
  | closed engine config => rfl
  | _ => cases h

end Event

theorem occurrences_history {q : Event → Bool} (h : ∀ e, q e = true → e.isSession = true)
    (es : List Event) : occurrences q (history es) = occurrences q es := by
  rw [occurrences, history, List.countP_filter]
  refine List.countP_congr fun e _ => ?_
  rw [Bool.and_eq_true]
  exact ⟨And.left, fun he => ⟨he, h e he⟩⟩

/-- Of the sessions of such engines, none is closed that is not open, at most one is open at a time,
and none is left open. -/
structure Bracketed (p : String → Bool) (es : List Event) : Prop where
  inside : ∀ past, past <+: es →
    occurrences (Event.closes p) past ≤ occurrences (Event.opens p) past
  apart : ∀ past, past <+: es →
    occurrences (Event.opens p) past ≤ occurrences (Event.closes p) past + 1
  released : occurrences (Event.opens p) es = occurrences (Event.closes p) es

namespace Bracketed

variable {p : String → Bool} {es fs : List Event}

protected theorem append (he : Bracketed p es) (hf : Bracketed p fs) : Bracketed p (es ++ fs) := by
  have hsplit : ∀ past, past <+: es ++ fs →
      past <+: es ∨ ∃ more, past = es ++ more ∧ more <+: fs := by
    rintro past ⟨rest, h⟩
    rcases List.append_eq_append_iff.mp h with ⟨tail, htail, -⟩ | ⟨more, hmore, htail⟩
    · exact .inl ⟨tail, htail.symm⟩
    · exact .inr ⟨more, hmore, rest, htail.symm⟩
  have hbalance := he.released
  simp only [occurrences] at hbalance
  constructor
  · intro past hpast
    rcases hsplit past hpast with hpast | ⟨more, rfl, hmore⟩
    · exact he.inside past hpast
    · have hinside := hf.inside more hmore
      simp only [occurrences, List.countP_append] at hinside ⊢
      omega
  · intro past hpast
    rcases hsplit past hpast with hpast | ⟨more, rfl, hmore⟩
    · exact he.apart past hpast
    · have hapart := hf.apart more hmore
      simp only [occurrences, List.countP_append] at hapart ⊢
      omega
  · have hreleased := hf.released
    simp only [occurrences, List.countP_append] at hreleased ⊢
    omega

theorem of_idle (h : ∀ e ∈ es, e.opens p = false ∧ e.closes p = false) : Bracketed p es := by
  have hopens : ∀ past, past <+: es → occurrences (Event.opens p) past = 0 := fun past hpast =>
    List.countP_eq_zero.mpr fun e he => by simp [(h e (hpast.subset he)).1]
  have hcloses : ∀ past, past <+: es → occurrences (Event.closes p) past = 0 := fun past hpast =>
    List.countP_eq_zero.mpr fun e he => by simp [(h e (hpast.subset he)).2]
  refine ⟨fun past hpast => ?_, fun past hpast => ?_, ?_⟩
  · rw [hcloses past hpast]
    exact Nat.zero_le _
  · rw [hopens past hpast]
    exact Nat.zero_le _
  · rw [hopens es List.prefix_rfl, hcloses es List.prefix_rfl]

/-- A session that is opened and closed is bracketed, if none is opened or closed in between. -/
theorem bracket (engine : String) (config : Path)
    (h : ∀ e ∈ es, e.opens p = false ∧ e.closes p = false) :
    Bracketed p (.opened engine config :: (es ++ [.closed engine config])) := by
  have hopens : ∀ past, past <+: es ++ [.closed engine config] →
      List.countP (Event.opens p) past = 0 := by
    intro past hpast
    rw [List.countP_eq_zero]
    intro e he
    rcases List.mem_append.mp (hpast.subset he) with he | he
    · simp [(h e he).1]
    · rw [List.mem_singleton.mp he]
      simp [Event.opens]
  have hcloses : List.countP (Event.closes p) (es ++ [.closed engine config]) =
      (p engine).toNat := by
    have hidle : List.countP (Event.closes p) es = 0 :=
      List.countP_eq_zero.mpr fun e he => by simp [(h e he).2]
    rw [List.countP_append, hidle, List.countP_singleton]
    cases hp : p engine <;> simp [Event.closes, hp]
  have hopened : ∀ past, past <+: es ++ [.closed engine config] →
      List.countP (Event.opens p) (.opened engine config :: past) = (p engine).toNat := by
    intro past hpast
    rw [List.countP_cons, hopens past hpast]
    cases hp : p engine <;> simp [Event.opens, hp]
  have hcons : ∀ past, List.countP (Event.closes p) (.opened engine config :: past) =
      List.countP (Event.closes p) past := fun past => by
    rw [List.countP_cons]
    rfl
  have hone : (p engine).toNat ≤ 1 := Bool.toNat_le _
  -- A prefix is empty, or has the one opening and at most the one closing.
  refine ⟨fun past hpast => ?_, fun past hpast => ?_, ?_⟩
  · rcases List.prefix_cons_iff.mp hpast with rfl | ⟨more, rfl, hmore⟩
    · exact Nat.le_refl 0
    · have hle := hmore.sublist.countP_le (p := Event.closes p)
      simp only [occurrences, hopened more hmore, hcons]
      omega
  · rcases List.prefix_cons_iff.mp hpast with rfl | ⟨more, rfl, hmore⟩
    · exact Nat.zero_le _
    · simp only [occurrences, hopened more hmore]
      omega
  · simp only [occurrences, hopened _ List.prefix_rfl, hcons, hcloses]

/-- Only the history of sessions matters. -/
theorem of_history (h : Bracketed p (history es)) : Bracketed p es := by
  have hopens := occurrences_history fun e => Event.isSession_of_opens (p := p) (e := e)
  have hcloses := occurrences_history fun e => Event.isSession_of_closes (p := p) (e := e)
  refine ⟨fun past hpast => ?_, fun past hpast => ?_, ?_⟩
  · rw [← hopens, ← hcloses]
    exact h.inside _ (hpast.filter _)
  · rw [← hopens, ← hcloses]
    exact h.apart _ (hpast.filter _)
  · rw [← hopens, ← hcloses]
    exact h.released

end Bracketed

theorem Episode.course_idle (p : String → Bool) (engine : String) (config : Path)
    (runs : List (List Path × List Finding)) :
    ∀ e ∈ course engine config runs, e.opens p = false ∧ e.closes p = false := by
  intro e he
  obtain ⟨run, -, he⟩ := List.mem_flatMap.mp he
  rcases List.mem_cons.mp he with rfl | he
  · exact ⟨rfl, rfl⟩
  · obtain ⟨f, -, rfl⟩ := List.mem_map.mp he
    exact ⟨rfl, rfl⟩

theorem Episode.bracketed (p : String → Bool) (e : Episode) : Bracketed p e.events := by
  have hrequest : Bracketed p [.requested e.engine e.config] :=
    .of_idle (by simp [Event.opens, Event.closes])
  rw [events]
  cases e.runs with
  | none => exact hrequest
  | some runs => exact hrequest.append (.bracket e.engine e.config (course_idle p _ _ runs))

theorem Episode.bracketed_flatMap (p : String → Bool) (episodes : List Episode) :
    Bracketed p (episodes.flatMap events) := by
  induction episodes with
  | nil => exact .of_idle (by simp)
  | cons e rest ih => exact (e.bracketed p).append ih

/-- Over every tree, the history of the action is a row of episodes. -/
def Gate.Episodic {α : Type} (g : Gate α) : Prop :=
  ∀ t, ∃ a u, ∃ episodes : List Episode, g.Recounts t a u (episodes.flatMap Episode.events)

namespace Gate.Episodic

variable {α β : Type} {g : Gate α}

protected theorem pure (a : α) : (pure a : Gate α).Episodic := fun t => ⟨a, t, [], .pure a t⟩

protected theorem files : Gate.files.Episodic := fun t => ⟨t, t, [], .files t⟩

protected theorem tell (level : Level) (message : String) : (Gate.tell level message).Episodic :=
  fun t => ⟨(), t, [], .tell level message t⟩

protected theorem bind {f : α → Gate β} (hg : g.Episodic) (hf : ∀ a, (f a).Episodic) :
    (g >>= f).Episodic := by
  intro t
  obtain ⟨a, u, before, hg⟩ := hg t
  obtain ⟨b, v, behind, hf⟩ := hf a u
  refine ⟨b, v, before ++ behind, ?_⟩
  rw [List.flatMap_append]
  exact hg.bind hf

theorem composes : Gate.Composes @Gate.Episodic := ⟨.pure, .bind, .files, .tell⟩

end Gate.Episodic

end LintGate
