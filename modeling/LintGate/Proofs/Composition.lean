import LintGate.Verification.Suite

/-! # Suites by their parts

What holds of an action as soon as it holds of its parts holds of a suite that is carried out in
sequence as soon as it holds of what its checks capture.
-/

namespace LintGate

/-- The property is one of the simplest actions, and of one action after another if it is one of
both. -/
structure Gate.Composes (P : ∀ {α : Type}, Gate α → Prop) : Prop where
  pure : ∀ {α : Type} (a : α), P (pure a)
  bind : ∀ {α β : Type} {g : Gate α} {f : α → Gate β}, P g → (∀ a, P (f a)) → P (g >>= f)
  files : P Gate.files
  tell : ∀ level message, P (Gate.tell level message)

namespace Gate.Composes

variable {P : ∀ {α : Type}, Gate α → Prop} {r : Runner} {check : Check}

theorem verifyViolating (h : Composes P) (hcapture : P (r.capture check Sample.invalid)) :
    P (r.verifyViolating check) := by
  refine h.bind hcapture fun capture => ?_
  cases capture.fault with
  | some fault => exact h.pure _
  | none =>
    refine h.bind h.files fun t => ?_
    cases r.differences t check capture.collector with
    | error fault => exact h.pure _
    | ok d =>
      dsimp only
      cases d.isEmpty with
      | true => exact h.pure _
      | false => exact h.bind (h.tell _ _) fun _ => h.pure _

theorem verifyClean (h : Composes P) (hcapture : P (r.capture check Sample.valid)) :
    P (r.verifyClean check) := by
  refine h.bind hcapture fun capture => ?_
  cases capture.fault with
  | some fault => exact h.pure _
  | none =>
    cases capture.collector.keys with
    | error fault => exact h.pure _
    | ok keys =>
      cases capture.collector.summary with
      | error fault => exact h.pure _
      | ok summary =>
        dsimp only
        cases (Runner.cleanOutcome check capture.collector keys summary).passed with
        | true => exact h.pure _
        | false => exact h.bind (h.tell _ _) fun _ => h.pure _

theorem guarded (h : Composes P) (check : Check) (sample : String)
    {protocol : Gate (Except Fault Outcome)} (hprotocol : P protocol) :
    P (Runner.guarded check sample protocol) := by
  refine h.bind hprotocol fun result => ?_
  cases result with
  | ok outcome => exact h.pure _
  | error fault =>
    dsimp only
    cases fault.isGate with
    | true => exact h.bind (h.tell _ _) fun _ => h.pure _
    | false => exact h.pure _

theorem verify (h : Composes P) (hcapture : ∀ sample, P (r.capture check sample)) :
    P (r.verify check) := by
  refine h.bind (h.guarded _ _ (h.verifyViolating (hcapture _))) fun violating => ?_
  cases violating with
  | error fault => exact h.pure _
  | ok violating =>
    refine h.bind (h.guarded _ _ (h.verifyClean (hcapture _))) fun clean => ?_
    cases clean with
    | error fault => exact h.pure _
    | ok clean => exact h.pure _

theorem inSequence (h : Composes P) {α : Type} {tasks : List (Gate (Except Fault α))}
    (htasks : ∀ task ∈ tasks, P task) : P (Runner.inSequence tasks) := by
  induction tasks with
  | nil => exact h.pure _
  | cons task rest ih =>
    rw [List.forall_mem_cons] at htasks
    refine h.bind htasks.1 fun result => ?_
    cases result with
    | error fault => exact h.pure _
    | ok a =>
      refine h.bind (ih htasks.2) fun results => ?_
      cases results with
      | error fault => exact h.pure _
      | ok as => exact h.pure _

theorem tellResult (h : Composes P) (report : Report) : P (Runner.tellResult report) := by
  rw [Runner.tellResult]
  split
  · exact h.tell _ _
  · exact h.tell _ _

theorem verifySuite (h : Composes P) (registry : Registry) {workers : Int} (hworkers : workers ≤ 1)
    (hcapture : ∀ check ∈ registry.checks, ∀ sample, P (r.capture check sample)) :
    P (r.verifySuite registry workers) := by
  rw [Runner.verifySuite]
  cases Text.Numeral.write? workers with
  | none => exact h.pure _
  | some shown =>
    refine h.bind (h.tell _ _) fun _ => ?_
    have htasks : ∀ task ∈ registry.checks.map r.verify, P task := by
      intro task htask
      obtain ⟨check, hcheck, rfl⟩ := List.mem_map.mp htask
      exact h.verify (hcapture check hcheck)
    rw [Runner.outcomes, if_pos hworkers]
    refine h.bind (h.inSequence htasks) fun perCheck => ?_
    cases perCheck with
    | error fault => exact h.pure _
    | ok perCheck => exact h.bind (h.tellResult _) fun _ => h.pure _

end Gate.Composes

end LintGate
