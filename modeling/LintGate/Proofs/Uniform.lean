import LintGate.Proofs.LogGrowth
import LintGate.Proofs.SessionPhase

/-! # Actions that are uniform over a family of trees

Over each tree of a family, a uniform action comes to the same, writes the same down, and leaves a
tree of the family. Actions put together of uniform ones are uniform. A session is so if its steps
and its runs are, and this is passed on from phase to phase; the verification of a check is so if
its engine is and no tree of the family has another fixture for it.
-/

namespace LintGate

open Gate

namespace Gate

variable {α β : Type}

/-- Over each tree of a family, the action comes to what it comes to over one of them, writes the
same down, and leaves a tree of the family. -/
def Uniform (g : Gate α) (t : FileTree) (W : FileTree → Prop) : Prop :=
  ∀ u, W u → g.Yields u (g.value t) (g.after u) (g.events t) ∧ W (g.after u)

variable {g : Gate α} {t u : FileTree} {W : FileTree → Prop}

theorem uniform_of_yields (ht : W t) {a : α} {es : List Event}
    (h : ∀ u, W u → ∃ v, g.Yields u a v es ∧ W v) : g.Uniform t W := by
  obtain ⟨_, hstart, -⟩ := h t ht
  intro u hu
  obtain ⟨v, hyields, hv⟩ := h u hu
  rw [hstart.value_eq, hstart.events_eq, hyields.after_eq]
  exact ⟨hyields, hv⟩

namespace Uniform

protected theorem pure (a : α) : (pure a : Gate α).Uniform t W := fun u hu => ⟨.pure a u, hu⟩

protected theorem record (e : Event) : (Gate.record e).Uniform t W := fun u hu => ⟨.record e u, hu⟩

protected theorem tell (level : Level) (message : String) : (Gate.tell level message).Uniform t W :=
  .record _

/-- A uniform action, and then one that is uniform where the first one leads. -/
theorem bind_yields {f : α → Gate β} (hg : g.Uniform t W) (hf : (f (g.value t)).Uniform t W)
    (hu : W u) :
    (g >>= f).Yields u ((f (g.value t)).value t) ((f (g.value t)).after (g.after u))
      (g.events t ++ (f (g.value t)).events t) ∧ W ((f (g.value t)).after (g.after u)) := by
  obtain ⟨hfirst, hleft⟩ := hg u hu
  obtain ⟨hthen, hleft'⟩ := hf _ hleft
  exact ⟨hfirst.bind hthen, hleft'⟩

protected theorem bind (ht : W t) {f : α → Gate β} (hg : g.Uniform t W)
    (hf : (f (g.value t)).Uniform t W) : (g >>= f).Uniform t W :=
  uniform_of_yields ht fun _ hu => ⟨_, hg.bind_yields hf hu⟩

theorem bind_leads (ht : W t) {P : β → Prop} {f : α → Gate β} (hg : g.Uniform t W)
    (hf : (f (g.value t)).Uniform t W ∧ P ((f (g.value t)).value t)) :
    (g >>= f).Uniform t W ∧ P ((g >>= f).value t) := by
  refine ⟨hg.bind ht hf.1, ?_⟩
  rw [(hg.bind_yields hf.1 ht).1.value_eq]
  exact hf.2

theorem value_bind (ht : W t) {f : α → Gate β} (hg : g.Uniform t W)
    (hf : (f (g.value t)).Uniform t W) : (g >>= f).value t = (f (g.value t)).value t :=
  (hg.bind_yields hf ht).1.value_eq

theorem events_bind (ht : W t) {f : α → Gate β} (hg : g.Uniform t W)
    (hf : (f (g.value t)).Uniform t W) :
    (g >>= f).events t = g.events t ++ (f (g.value t)).events t :=
  (hg.bind_yields hf ht).1.events_eq

theorem files_leads (ht : W t) {P : β → Prop} {f : FileTree → Gate β} (h : ∀ u, W u → f u = f t)
    (hf : (f t).Uniform t W ∧ P ((f t).value t)) :
    (Gate.files >>= f).Uniform t W ∧ P ((Gate.files >>= f).value t) := by
  have hread : ∀ u, W u → (Gate.files >>= f).Yields u ((f t).value t) ((f t).after u)
      ([] ++ (f t).events t) := by
    intro u hu
    refine (Yields.files u).bind ?_
    rw [h u hu]
    exact (hf.1 u hu).1
  refine ⟨uniform_of_yields ht fun u hu => ⟨_, hread u hu, (hf.1 u hu).2⟩, ?_⟩
  rw [(hread t ht).value_eq]
  exact hf.2

theorem files_bind (ht : W t) {f : FileTree → Gate β} (h : ∀ u, W u → f u = f t)
    (hf : (f t).Uniform t W) : (Gate.files >>= f).Uniform t W :=
  (files_leads ht (P := fun _ => True) h ⟨hf, trivial⟩).1

theorem warn (ht : W t) {rest : PUnit → Gate α} (h : (rest ()).Uniform t W) (passed : Bool)
    (message : String) :
    (if passed = true then rest () else Gate.tell .warning message >>= rest).Uniform t W := by
  cases passed with
  | true => exact h
  | false => exact (Uniform.tell _ _).bind ht h

end Uniform

end Gate

theorem SessionStep.run_uniform {step : SessionStep} {t : FileTree} {W : FileTree → Prop} (ht : W t)
    (h : ∀ u, W u → step.refusal? u = step.refusal? t) : step.run.Uniform t W := by
  have hstep : ∀ u, W u → step.run.Yields u (step.refusal? t) u step.written := by
    intro u hu
    rw [← h u hu]
    refine ⟨fun s hs => ?_, fun s hs => ?_, fun s hs => ?_⟩
    all_goals rw [step.run_eq, hs]
  exact uniform_of_yields ht fun u hu => ⟨u, hstep u hu, hu⟩

namespace Session

/-- The steps of opening and closing that are left of a session in a phase. -/
def Phase.steps (s : Session) : Phase → List SessionStep
  | .requested => s.opening ++ s.closing
  | .opening left => left ++ s.closing
  | .running _ _ | .hearing _ _ _ => s.closing
  | .closing _ left => left
  | .ended _ => []

structure Uniform (s : Session) (p : Phase) (t : FileTree) (W : FileTree → Prop) : Prop where
  steps : ∀ step ∈ p.steps s, step.run.Uniform t W
  runs : ∀ run ∈ p.runs s, run.Uniform t W

namespace Uniform

variable {s : Session} {p q : Phase} {t : FileTree} {W : FileTree → Prop}

theorem of_subset (h : s.Uniform p t W) (hsteps : q.steps s ⊆ p.steps s)
    (hruns : q.runs s ⊆ p.runs s) : s.Uniform q t W :=
  ⟨fun step hstep => h.steps step (hsteps hstep), fun run hrun => h.runs run (hruns hrun)⟩

theorem next (h : s.Uniform p t W) (ht : W t) :
    (s.next p).Uniform t W ∧ s.Uniform ((s.next p).value t) t W := by
  cases p with
  | requested => exact ⟨(Uniform.record _).bind ht (.pure _), h.of_subset (fun _ => id) fun _ => id⟩
  | opening left =>
    cases left with
    | nil => exact ⟨(Uniform.record _).bind ht (.pure _), h.of_subset (fun _ => id) fun _ => id⟩
    | cons step left =>
      refine (h.steps step (by simp [Phase.steps])).bind_leads ht (P := (s.Uniform · t W)) ?_
      cases step.run.value t with
      | some fault => exact ⟨.pure _, h.of_subset (List.nil_subset _) (List.nil_subset _)⟩
      | none => exact ⟨.pure _, h.of_subset (List.subset_cons_self _ _) fun _ => id⟩
  | running c left =>
    cases left with
    | nil => exact ⟨.pure _, h.of_subset (fun _ => id) fun _ => id⟩
    | cons run left =>
      refine (h.runs run (by simp [Phase.runs])).bind_leads ht (P := (s.Uniform · t W)) ?_
      exact ⟨.pure _, h.of_subset (fun _ => id) (List.subset_cons_self _ _)⟩
  | hearing c e left =>
    rcases e with ⟨_ | ⟨f, findings⟩, failure⟩
    · cases failure with
      | none => exact ⟨.pure _, h.of_subset (fun _ => id) fun _ => id⟩
      | some fault => exact ⟨.pure _, h.of_subset (fun _ => id) (List.nil_subset _)⟩
    · refine (Uniform.record _).bind_leads ht (P := (s.Uniform · t W)) ?_
      rcases c.record f with ⟨c', _ | fault⟩
      · exact ⟨.pure _, h.of_subset (fun _ => id) fun _ => id⟩
      · exact ⟨.pure _, h.of_subset (fun _ => id) (List.nil_subset _)⟩
  | closing capture left =>
    cases left with
    | nil => exact ⟨(Uniform.record _).bind ht (.pure _), h.of_subset (fun _ => id) fun _ => id⟩
    | cons step left =>
      refine (h.steps step (by simp [Phase.steps])).bind_leads ht (P := (s.Uniform · t W)) ?_
      cases step.run.value t with
      | some fault => exact ⟨.pure _, h.of_subset (List.nil_subset _) fun _ => id⟩
      | none => exact ⟨.pure _, h.of_subset (List.subset_cons_self _ _) fun _ => id⟩
  | ended capture => exact ⟨.pure _, h⟩

/-- What is left of a uniform session is uniform, by induction on how much is left. -/
theorem finish (h : s.Uniform p t W) (ht : W t) : (s.finish p).Uniform t W := by
  induction hload : s.load t p using Nat.strong_induction_on generalizing p with
  | h n ih =>
    rcases p.ended_or with ⟨capture, rfl⟩ | hended
    · exact .pure _
    · obtain ⟨hnext, hleft⟩ := h.next ht
      rw [s.finish_eq_next p]
      exact hnext.bind ht (ih _ (hload ▸ s.load_next_lt t hended) hleft rfl)

end Uniform

end Session

namespace SessionStep

/-- The step looks at no file but the given one. -/
def LooksAt (path : Path) : SessionStep → Prop
  | requireFile _ p | requireToml _ p => p = path
  | _ => True

/-- A step that looks at one file refuses the same where that file is the same. -/
theorem refusal?_of_looksAt {step : SessionStep} {path : Path} (h : step.LooksAt path)
    {t u : FileTree} {content : List UInt8}
    (hfile : t.look path.toString = .ok (some (.file content)))
    (hlook : u.look path.toString = t.look path.toString) : step.refusal? u = step.refusal? t := by
  cases step with
  | requireFile engine p =>
    cases h
    exact refusal?_requireFile_congr hlook engine
  | requireToml engine p =>
    cases h
    have hread := FileTree.read_eq_ok_iff.mpr hfile
    have hread' := FileTree.read_eq_ok_iff.mpr (hlook.trans hfile)
    simp only [refusal?, checkToml, hread, hread']
  | _ => rfl

end SessionStep

/-- The engine answers the same over each tree of the family: its runs are uniform, and its sessions
are opened and closed alike for a configuration that is the same file. -/
structure Engine.Uniform (e : Engine) (t : FileTree) (W : FileTree → Prop) : Prop where
  steps : ∀ config content, t.look config.toString = .ok (some (.file content)) →
    ∀ u, W u → u.look config.toString = t.look config.toString →
      ∀ step ∈ e.opening config ++ e.closing config, step.refusal? u = step.refusal? t
  runs : ∀ config files, (e.run config files).Uniform t W

theorem Engine.Uniform.session {e : Engine} {t : FileTree} {W : FileTree → Prop}
    (h : e.Uniform t W) (ht : W t) {config : Path} {content : List UInt8}
    (hconfig : t.look config.toString = .ok (some (.file content)))
    (hstays : ∀ u, W u → u.look config.toString = t.look config.toString)
    (batches : List (List Path)) : (e.session config batches).Uniform .requested t W := by
  refine ⟨fun step hstep => SessionStep.run_uniform ht fun u hu => ?_, fun run hrun => ?_⟩
  · exact h.steps config content hconfig u hu (hstays u hu) step hstep
  · obtain ⟨files, -, rfl⟩ := List.mem_map.mp hrun
    exact (Uniform.record _).bind ht (h.runs config files)

namespace Ruff

variable {r : Ruff} {t : FileTree}

theorem conclude_uniform (config : Path) (subject : String) (result : ProcessResult)
    {W : FileTree → Prop} (ht : W t) : (conclude config subject result).Uniform t W := by
  rw [conclude]
  by_cases hstatus : abnormalStatus ≤ result.status
  · rw [if_pos hstatus]
    exact .pure _
  · rw [if_neg hstatus]
    by_cases hcomplaint : result.stderr.stripped ≠ ""
    · change (if result.stderr.stripped ≠ "" then _ else _ : Gate Emission).Uniform t W
      rw [if_pos hcomplaint]
      refine (Uniform.record _).bind ht ?_
      cases RuffOutput.read subject result.stdout <;> exact .pure _
    · change (if result.stderr.stripped ≠ "" then _ else _ : Gate Emission).Uniform t W
      rw [if_neg hcomplaint]
      cases RuffOutput.read subject result.stdout <;> exact .pure _

theorem keep_uniform (h : ∀ u, r.Grown t u → ∀ config result, (r.kept u config result).2 = none)
    (config : Path) (result : ProcessResult) : (r.keep config result).Uniform t (r.Grown t) := by
  have hkept : ∀ u, r.Grown t u →
      (r.keep config result).Yields u none (r.kept u config result).1 [] := by
    intro u hu
    rw [← h u hu config result]
    exact r.keep_yields u config result
  refine uniform_of_yields .start fun u hu => ⟨_, hkept u hu, ?_⟩
  exact .keep hu (Prod.ext rfl (h u hu config result))

/-- As long as its raw output can be kept, Ruff is uniform over the trees that grow by it. -/
theorem engine_uniform (h : ∀ u, r.Grown t u → ∀ config result, (r.kept u config result).2 = none)
    (completion : Path → List Path → Completion) :
    (r.engine completion).Uniform t (r.Grown t) := by
  have ht : r.Grown t t := .start
  constructor
  · intro config content hconfig u hu hlook step hstep
    refine SessionStep.refusal?_of_looksAt ?_ hconfig hlook
    simp only [engine, opening, closing, List.cons_append, List.nil_append, List.mem_cons,
      List.not_mem_nil, or_false] at hstep
    rcases hstep with rfl | rfl | rfl
    · rfl
    · trivial
    · trivial
  · intro config files
    change (r.run config files (completion config files)).Uniform t (r.Grown t)
    refine (Uniform.record _).bind ht ?_
    cases completion config files with
    | notFound => exact .pure _
    | denied => exact .pure _
    | failed fault => exact .pure _
    | timedOut => cases Text.Numeral.write? r.timeout <;> exact .pure _
    | returned result =>
      refine (keep_uniform h config result).bind ht ?_
      cases (r.keep config result).value t with
      | some fault => exact .pure _
      | none => exact conclude_uniform _ _ _ ht

end Ruff

namespace Pylint

theorem engine_uniform (runOf : Path → List Path → PylintRun) {t : FileTree}
    {W : FileTree → Prop} (ht : W t) : (engine runOf).Uniform t W := by
  constructor
  · intro config content hconfig u hu hlook step hstep
    refine SessionStep.refusal?_of_looksAt ?_ hconfig hlook
    have htoml : ∀ step ∈ if config.suffix = ".toml" then
        [SessionStep.requireToml engineName config] else [], step.LooksAt config := by
      split_ifs
      · simp [SessionStep.LooksAt]
      · simp
    simp only [engine, opening, closing, List.mem_append, List.mem_cons, List.not_mem_nil,
      or_false] at hstep
    rcases hstep with ((rfl | hstep) | rfl | rfl) | rfl | rfl | rfl
    · rfl
    · exact htoml step hstep
    all_goals trivial
  · intro config files
    exact (Uniform.record _).bind ht (.pure _)

end Pylint

namespace Runner

structure Uniform (r : Runner) (t : FileTree) (W : FileTree → Prop) : Prop where
  start : W t
  engines : ∀ entry ∈ r.engines, entry.2.Uniform t W

end Runner

end LintGate
