import LintGate.Proofs.EngineRuns
import LintGate.Proofs.SessionPhase

/-! # The history of sessions

Some events of a journal make up the life of a session: it is requested, and unless it is refused it
is opened, its runs process files and call the listener, and it is closed. An action recounts a
history when it writes down these events in this order, whatever else it writes down between them.
Histories follow one another as actions do, and that of a session is known from what its runs emit.
-/

namespace LintGate

open Gate

def Event.isSession : Event → Bool
  | .requested .. | .opened .. | .processed .. | .heard _ | .closed .. => true
  | _ => false

def history (es : List Event) : List Event := es.filter Event.isSession

@[simp] theorem history_append (es fs : List Event) :
    history (es ++ fs) = history es ++ history fs := List.filter_append es fs

theorem heard_history (es : List Event) : heard (history es) = heard es := by
  induction es with
  | nil => rfl
  | cons e es ih =>
    cases e with
    | heard f => exact congrArg (f :: ·) ih
    | _ => exact ih

@[simp] theorem heard_map_heard (fs : List Finding) : heard (fs.map .heard) = fs := by
  induction fs with
  | nil => rfl
  | cons f fs ih => exact congrArg (f :: ·) ih

namespace Gate

variable {α β : Type}

/-- Over a tree, the action comes to the value, leaves the second tree, and writes down the history
of sessions. -/
def Recounts (g : Gate α) (t : FileTree) (a : α) (u : FileTree) (hs : List Event) : Prop :=
  ∃ es, g.Yields t a u es ∧ history es = hs

namespace Recounts

variable {g : Gate α} {t u v : FileTree} {a : α} {hs gs : List Event}

theorem value_eq (h : g.Recounts t a u hs) : g.value t = a := by
  obtain ⟨es, hg, -⟩ := h
  exact hg.value_eq

theorem after_eq (h : g.Recounts t a u hs) : g.after t = u := by
  obtain ⟨es, hg, -⟩ := h
  exact hg.after_eq

theorem history_eq (h : g.Recounts t a u hs) : history (g.events t) = hs := by
  obtain ⟨es, hg, rfl⟩ := h
  rw [hg.events_eq]

theorem heard_eq (h : g.Recounts t a u hs) : heard (g.events t) = heard hs := by
  rw [← h.history_eq, heard_history]

theorem mem_events (h : g.Recounts t a u hs) {e : Event} (he : e ∈ hs) : e ∈ g.events t := by
  rw [← h.history_eq] at he
  exact List.mem_of_mem_filter he

protected theorem pure (a : α) (t : FileTree) : (pure a : Gate α).Recounts t a t [] :=
  ⟨[], .pure a t, rfl⟩

protected theorem files (t : FileTree) : Gate.files.Recounts t t t [] := ⟨[], .files t, rfl⟩

theorem record {e : Event} (he : e.isSession = true) (t : FileTree) :
    (Gate.record e).Recounts t () t [e] :=
  ⟨[e], .record e t, List.filter_cons_of_pos he⟩

theorem record_other {e : Event} (he : e.isSession = false) (t : FileTree) :
    (Gate.record e).Recounts t () t [] :=
  ⟨[e], .record e t, List.filter_cons_of_neg (by simp [he])⟩

protected theorem tell (level : Level) (message : String) (t : FileTree) :
    (Gate.tell level message).Recounts t () t [] := record_other rfl t

protected theorem bind {f : α → Gate β} {b : β} (hg : g.Recounts t a u hs)
    (hf : (f a).Recounts u b v gs) : (g >>= f).Recounts t b v (hs ++ gs) := by
  obtain ⟨es, hg, rfl⟩ := hg
  obtain ⟨fs, hf, rfl⟩ := hf
  exact ⟨_, hg.bind hf, history_append es fs⟩

theorem after_record {e : Event} (he : e.isSession = true) (hg : g.Recounts t a u hs) :
    (do Gate.record e; g : Gate α).Recounts t a u (e :: hs) :=
  (record he t).bind hg

theorem discard (hg : g.Recounts t a u hs) : (discard g).Recounts t () u hs := by
  obtain ⟨es, hg, hes⟩ := hg
  exact ⟨es, hg.discard, hes⟩

end Recounts

end Gate

namespace SessionStep

theorem run_recounts (step : SessionStep) (t : FileTree) :
    step.run.Recounts t (step.refusal? t) t [] := by
  have hyields : step.run.Yields t (step.refusal? t) t step.written := by
    constructor
    all_goals
      rintro s rfl
      rw [step.run_eq]
  refine ⟨_, hyields, ?_⟩
  cases step <;> rfl

theorem runAll_recounts (steps : List SessionStep) (t : FileTree) :
    (runAll steps).Recounts t (steps.findSome? (refusal? t)) t [] := by
  induction steps with
  | nil => exact .pure none t
  | cons step rest ih =>
    have hstep := run_recounts step t
    rw [runAll, List.findSome?_cons]
    cases hrefusal : step.refusal? t with
    | some fault =>
      rw [hrefusal] at hstep
      exact hstep.bind (.pure _ t)
    | none =>
      rw [hrefusal] at hstep
      exact hstep.bind ih

end SessionStep

/-- The findings that reach a listener: all of them, or up to the first without a violation. -/
def Finding.delivered : List Finding → List Finding
  | [] => []
  | f :: rest =>
    match f.toViolation with
    | .ok _ => f :: delivered rest
    | .error _ => [f]

theorem Finding.delivered_eq_self {fs : List Finding} (h : ∀ f ∈ fs, ∃ v, f.toViolation = .ok v) :
    delivered fs = fs := by
  induction fs with
  | nil => rfl
  | cons f rest ih =>
    rw [List.forall_mem_cons] at h
    obtain ⟨⟨v, hv⟩, hrest⟩ := h
    rw [delivered, hv, ih hrest]

theorem Finding.delivered_singleton (f : Finding) : delivered [f] = [f] := by
  rw [delivered]
  cases f.toViolation <;> rfl

/-- The violations of an emission, or the fault that ends it: that of its first finding without a
violation, or else its own. -/
def Emission.violations (e : Emission) : Except Fault (List Violation) := do
  let vs ← e.findings.mapM Finding.toViolation
  match e.failure with
  | some fault => .error fault
  | none => return vs

namespace Emission

variable {e : Emission} {vs : List Violation} {fault : Fault}

theorem violations_eq_ok_iff :
    e.violations = .ok vs ↔ e.findings.mapM Finding.toViolation = .ok vs ∧ e.failure = none := by
  rw [violations, bind_eq_ok_iff]
  cases e.failure with
  | some fault => simp
  | none => simp [pure, Except.pure]

theorem delivered_findings (h : e.violations = .ok vs) :
    Finding.delivered e.findings = e.findings :=
  Finding.delivered_eq_self (exists_mapM_eq_ok_iff.mp ⟨vs, (violations_eq_ok_iff.mp h).1⟩)

theorem violations_eq_error_iff (h : ∀ f ∈ e.findings, ∃ v, f.toViolation = .ok v) :
    e.violations = .error fault ↔ e.failure = some fault := by
  obtain ⟨vs, hvs⟩ := exists_mapM_eq_ok_iff.mpr h
  rw [violations, hvs]
  cases e.failure with
  | some own => simp [bind, Except.bind]
  | none => simp [bind, Except.bind, pure, Except.pure]

end Emission

structure Collector.Takes (c : Collector) (x : Except Fault (List Violation)) (capture : Capture) :
    Prop where
  ok : ∀ vs, x = .ok vs → capture = ⟨⟨c.violations ++ vs, c.invocations + vs.length⟩, none⟩
  error : ∀ fault, x = .error fault → capture.fault = some fault

namespace Collector.Takes

variable {c : Collector} {e : Emission} {capture : Capture} {vs : List Violation} {fault : Fault}

theorem of_ok (c : Collector) (vs : List Violation) :
    c.Takes (.ok vs) ⟨⟨c.violations ++ vs, c.invocations + vs.length⟩, none⟩ := by
  refine ⟨?_, nofun⟩
  rintro _ ⟨⟩
  rfl

theorem nothing (c : Collector) : c.Takes (.ok []) ⟨c, none⟩ := by
  have htakes := of_ok c []
  rwa [List.append_nil] at htakes

theorem of_fault (h : capture.fault = some fault) : c.Takes (.error fault) capture := by
  refine ⟨nofun, ?_⟩
  rintro _ ⟨⟩
  exact h

/-- What was taken before stands in front. -/
theorem prepend (vs : List Violation) {x : Except Fault (List Violation)}
    (h : Collector.Takes ⟨c.violations ++ vs, c.invocations + vs.length⟩ x capture) :
    c.Takes (x.map (vs ++ ·)) capture := by
  cases x with
  | error fault => exact of_fault (h.error fault rfl)
  | ok ws =>
    rw [h.ok ws rfl, List.append_assoc, Nat.add_assoc, ← List.length_append]
    exact of_ok c (vs ++ ws)

theorem fault_eq (h : c.Takes e.violations capture)
    (hall : ∀ f ∈ e.findings, ∃ v, f.toViolation = .ok v) : capture.fault = e.failure := by
  cases hviolations : e.violations with
  | ok vs =>
    rw [h.ok vs hviolations]
    exact (Emission.violations_eq_ok_iff.mp hviolations).2.symm
  | error fault =>
    rw [h.error fault hviolations]
    exact ((Emission.violations_eq_error_iff hall).mp hviolations).symm

end Collector.Takes

namespace Collector

variable {t u v : FileTree} {hs gs : List Event} {e : Emission} {run : Gate Emission}

theorem record_of_ok (c : Collector) {f : Finding} {w : Violation} (h : f.toViolation = .ok w) :
    c.record f = (⟨c.violations ++ [w], c.invocations + 1⟩, none) := by
  rw [record, h]

theorem record_of_error (c : Collector) {f : Finding} {fault : Fault}
    (h : f.toViolation = .error fault) :
    c.record f = ({ c with invocations := c.invocations + 1 }, some fault) := by
  rw [record, h]

theorem hear_recounts (fs : List Finding) (c : Collector) (t : FileTree) :
    ∃ capture, (c.hear fs).Recounts t capture t ((Finding.delivered fs).map .heard) ∧
      c.Takes (fs.mapM Finding.toViolation) capture := by
  induction fs generalizing c with
  | nil => exact ⟨⟨c, none⟩, .pure _ t, .nothing c⟩
  | cons f rest ih =>
    have hrecord := Recounts.record (e := .heard f) rfl t
    rw [hear, Finding.delivered, List.mapM_cons]
    cases hf : f.toViolation with
    | error fault =>
      rw [c.record_of_error hf]
      exact ⟨_, hrecord.bind (.pure _ t), .of_fault rfl⟩
    | ok w =>
      rw [c.record_of_ok hf]
      obtain ⟨capture, hrest, htakes⟩ := ih ⟨c.violations ++ [w], c.invocations + 1⟩
      exact ⟨capture, hrecord.bind hrest, htakes.prepend [w]⟩

theorem receive_recounts (e : Emission) (c : Collector) (t : FileTree) :
    ∃ capture, (c.receive e).Recounts t capture t ((Finding.delivered e.findings).map .heard) ∧
      c.Takes e.violations capture := by
  obtain ⟨capture, hhear, htakes⟩ := c.hear_recounts e.findings t
  rw [receive, ← List.append_nil (List.map _ _), Emission.violations]
  cases hvs : e.findings.mapM Finding.toViolation with
  | error fault =>
    have hfault := htakes.error fault hvs
    refine ⟨capture, hhear.bind ?_, .of_fault hfault⟩
    rw [hfault]
    exact .pure _ t
  | ok vs =>
    rw [htakes.ok vs hvs] at hhear
    refine ⟨_, hhear.bind (.pure _ t), ?_⟩
    cases e.failure with
    | some fault => exact .of_fault rfl
    | none => exact .of_ok c vs

theorem follow_nil_recounts (c : Collector) (t : FileTree) :
    (c.follow []).Recounts t ⟨c, none⟩ t [] := .pure _ t

theorem follow_stops (c : Collector) {fault : Fault} (hrun : run.Recounts t e u hs)
    (h : e.violations = .error fault) (runs : List (Gate Emission)) :
    ∃ capture, (c.follow (run :: runs)).Recounts t capture u
        (hs ++ (Finding.delivered e.findings).map .heard) ∧ capture.fault = some fault := by
  obtain ⟨capture, hreceive, -, herror⟩ := c.receive_recounts e u
  have hfault := herror fault h
  refine ⟨capture, ?_, hfault⟩
  rw [follow, ← List.append_nil (List.map _ _)]
  refine hrun.bind (hreceive.bind ?_)
  rw [hfault]
  exact .pure _ u

theorem follow_goes_on (c : Collector) {vs : List Violation} {capture : Capture}
    {runs : List (Gate Emission)} (hrun : run.Recounts t e u hs) (h : e.violations = .ok vs)
    (hrest : (follow ⟨c.violations ++ vs, c.invocations + vs.length⟩ runs).Recounts u capture v
      gs) :
    (c.follow (run :: runs)).Recounts t capture v (hs ++ (e.findings.map .heard ++ gs)) := by
  obtain ⟨heard, hreceive, hok, -⟩ := c.receive_recounts e u
  rw [Emission.delivered_findings h] at hreceive
  rw [follow]
  refine hrun.bind (hreceive.bind ?_)
  rw [hok vs h]
  exact hrest

theorem follow_one_recounts (c : Collector) (hrun : run.Recounts t e u hs) :
    ∃ capture, (c.follow [run]).Recounts t capture u
        (hs ++ (Finding.delivered e.findings).map .heard) ∧ c.Takes e.violations capture := by
  cases h : e.violations with
  | error fault =>
    obtain ⟨capture, hfollow, hfault⟩ := c.follow_stops hrun h []
    exact ⟨capture, hfollow, .of_fault hfault⟩
  | ok vs =>
    have hfollow := c.follow_goes_on hrun h (follow_nil_recounts _ u)
    rw [List.append_nil] at hfollow
    rw [Emission.delivered_findings h]
    exact ⟨_, hfollow, .of_ok c vs⟩

end Collector

namespace Session

variable {t u : FileTree}

/-- Of a session that is refused, nothing but the request is told. -/
theorem hold_recounts_request (s : Session) {fault : Fault}
    (h : s.opening.findSome? (SessionStep.refusal? t) = some fault) :
    s.hold.Recounts t (.refused fault) t [.requested s.engine s.config] := by
  have hopening := SessionStep.runAll_recounts s.opening t
  rw [h] at hopening
  exact (Recounts.record rfl t).bind (hopening.bind (.pure _ t))

/-- A session that is granted is opened before its runs and closed behind them. -/
theorem hold_recounts (s : Session) {capture : Capture} {hs : List Event}
    (h : s.opening.findSome? (SessionStep.refusal? t) = none)
    (hruns : (Collector.empty.follow s.runs).Recounts t capture u hs) :
    s.hold.Recounts t capture u (.requested s.engine s.config :: .opened s.engine s.config ::
      (hs ++ [.closed s.engine s.config])) := by
  have hopening := SessionStep.runAll_recounts s.opening t
  have hclosing := SessionStep.runAll_recounts s.closing u
  rw [h] at hopening
  exact (Recounts.record rfl t).bind (hopening.bind ((Recounts.record rfl t).bind
    (hruns.bind (hclosing.discard.bind ((Recounts.record rfl u).bind (.pure _ u))))))

end Session

/-- Why an engine refuses a session with a configuration, if it does. -/
def Engine.refusal? (e : Engine) (config : Path) (t : FileTree) : Option Fault :=
  (e.opening config).findSome? (SessionStep.refusal? t)

/-- The engine's runs see nothing of the gate but the file tree, and leave the life of sessions to
it. -/
def Engine.Discreet (e : Engine) : Prop :=
  ∀ config files t, ∃ emission u, (e.run config files).Recounts t emission u []

theorem Engine.scripted_discreet (name : String) (refusal : Option Fault)
    (script : Path → Emission) : (scripted name refusal script).Discreet := by
  intro config files t
  cases files with
  | nil => exact ⟨_, _, .pure _ t⟩
  | cons file files => exact ⟨_, _, .pure _ t⟩

theorem Pylint.run_recounts (config : Path) (files : List Path) (r : PylintRun) (t : FileTree) :
    (run config files r).Recounts t (emission config r) t [] :=
  (Recounts.record_other rfl t).bind (.pure _ t)

theorem Pylint.engine_discreet (runOf : Path → List Path → PylintRun) : (engine runOf).Discreet :=
  fun config files t => ⟨_, _, run_recounts config files (runOf config files) t⟩

namespace Ruff

theorem conclude_recounts (config : Path) (subject : String) (result : ProcessResult)
    (t : FileTree) :
    (conclude config subject result).Recounts t (conclusion config subject result) t [] := by
  rw [conclude, conclusion]
  by_cases hstatus : abnormalStatus ≤ result.status
  · rw [if_pos hstatus, if_pos hstatus]
    exact .pure _ t
  · rw [if_neg hstatus, if_neg hstatus]
    cases RuffOutput.read subject result.stdout
    all_goals
      by_cases hcomplaint : result.stderr.stripped ≠ ""
      · change Gate.Recounts (if result.stderr.stripped ≠ "" then _ else _) t _ t _
        rw [if_pos hcomplaint]
        exact (Recounts.record_other rfl t).bind (.pure _ t)
      · change Gate.Recounts (if result.stderr.stripped ≠ "" then _ else _) t _ t _
        rw [if_neg hcomplaint]
        exact .pure _ t

variable {r : Ruff} {t u : FileTree} {config : Path} {result : ProcessResult}

theorem keep_recounts (r : Ruff) (t : FileTree) (config : Path) (result : ProcessResult) :
    (r.keep config result).Recounts t (r.kept t config result).2 (r.kept t config result).1 [] :=
  ⟨[], r.keep_yields t config result, rfl⟩

/-- What a run that returned emits is known once its raw output was kept; until then it has told of
nothing. -/
theorem run_recounts_kept (files : List Path) (h : r.kept t config result = (u, none)) :
    (r.run config files (.returned result)).Recounts t
      (conclusion config (Path.listing files) result) u [] := by
  have hkeep := r.keep_recounts t config result
  rw [h] at hkeep
  exact (Recounts.record_other rfl t).bind (hkeep.bind (conclude_recounts _ _ _ u))

theorem run_recounts_unkept (files : List Path) {fault : Fault}
    (h : r.kept t config result = (u, some fault)) :
    (r.run config files (.returned result)).Recounts t (.fail fault) u [] := by
  have hkeep := r.keep_recounts t config result
  rw [h] at hkeep
  exact (Recounts.record_other rfl t).bind (hkeep.bind (.pure _ u))

theorem run_discreet (r : Ruff) (config : Path) (files : List Path) (completion : Completion)
    (t : FileTree) : ∃ e u, (r.run config files completion).Recounts t e u [] := by
  cases completion with
  | returned result =>
    rcases hkept : r.kept t config result with ⟨u, _ | fault⟩
    · exact ⟨_, _, run_recounts_kept files hkept⟩
    · exact ⟨_, _, run_recounts_unkept files hkept⟩
  | notFound => exact ⟨_, _, (Recounts.record_other rfl t).bind (.pure _ t)⟩
  | denied => exact ⟨_, _, (Recounts.record_other rfl t).bind (.pure _ t)⟩
  | failed fault => exact ⟨_, _, (Recounts.record_other rfl t).bind (.pure _ t)⟩
  | timedOut =>
    rw [run]
    cases Text.Numeral.write? r.timeout with
    | none => exact ⟨_, _, (Recounts.record_other rfl t).bind (.pure _ t)⟩
    | some seconds => exact ⟨_, _, (Recounts.record_other rfl t).bind (.pure _ t)⟩

theorem engine_discreet (r : Ruff) (completion : Path → List Path → Completion) :
    (r.engine completion).Discreet :=
  fun config files t => r.run_discreet config files (completion config files) t

end Ruff

end LintGate
