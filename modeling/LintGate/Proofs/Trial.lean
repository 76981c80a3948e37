import LintGate.Proofs.Pool
import LintGate.Proofs.Agreement

/-! # The verification of a check step by step

A check that shares the gate with others is verified in steps. For each of its protocols it looks
for its parts, holds a session, makes something of what was captured, and passes the guard. Taking a
step and then finishing comes to the same as finishing, and what is left at the start is the
verification as it is done alone. Where the engines are uniform and the fixture of the check stays
as it is, so are the steps.
-/

namespace LintGate

open Gate

namespace Runner

def compareCapture (r : Runner) (check : Check) (capture : Capture) :
    Gate (Except Fault Outcome) := do
  match capture.fault with
  | some fault => return .error fault
  | none =>
    match r.differences (← Gate.files) check capture.collector with
    | .error fault => return .error fault
    | .ok d =>
      unless d.isEmpty do
        Gate.tell .warning s!"{check}: reported violations don't match expectations"
      return violatingOutcome check capture.collector d

def judgeCapture (check : Check) (capture : Capture) : Gate (Except Fault Outcome) := do
  match capture.fault with
  | some fault => return .error fault
  | none =>
    match capture.collector.keys, capture.collector.summary with
    | .ok keys, .ok summary =>
      let outcome := cleanOutcome check capture.collector keys summary
      unless outcome.passed do
        Gate.tell .warning s!"{check}: log should be empty for valid files"
      return .ok outcome
    | .error fault, _ => return .error fault
    | _, .error fault => return .error fault

theorem verifyViolating_eq (r : Runner) (check : Check) :
    r.verifyViolating check = r.capture check Sample.invalid >>= r.compareCapture check := by
  unfold verifyViolating compareCapture
  refine bind_congr fun capture => ?_
  cases capture.fault <;> rfl

theorem verifyClean_eq (r : Runner) (check : Check) :
    r.verifyClean check = r.capture check Sample.valid >>= judgeCapture check := by
  unfold verifyClean judgeCapture
  refine bind_congr fun capture => ?_
  cases capture.fault with
  | some fault => rfl
  | none => cases capture.collector.keys <;> cases capture.collector.summary <;> rfl

theorem guarded_bind {β : Type} (check : Check) (sample : String) (g : Gate β)
    (f : β → Gate (Except Fault Outcome)) :
    guarded check sample (g >>= f) = g >>= fun b => guarded check sample (f b) := by
  simp only [guarded, bind_assoc]

end Runner

/-- Where the verification of a check stands. The protocol on the invalid sample comes first; its
outcome is there when the other one begins. -/
inductive Trial
  | ready (earlier : Option Outcome)
  | inSession (earlier : Option Outcome) (session : Session) (phase : Session.Phase)
  | captured (earlier : Option Outcome) (capture : Capture)
  | concluded (earlier : Option Outcome) (result : Except Fault Outcome)
  | ended (result : Except Fault (List Outcome))

namespace Trial

def sample : Option Outcome → String
  | none => Sample.invalid
  | some _ => Sample.valid

def conclude (r : Runner) (check : Check) (earlier : Option Outcome) (capture : Capture) :
    Gate (Except Fault Outcome) :=
  match earlier with
  | none => r.compareCapture check capture
  | some _ => Runner.judgeCapture check capture

/-- The protocol that comes next, with the guard around it. -/
def protocol (r : Runner) (check : Check) (earlier : Option Outcome) :
    Gate (Except Fault Outcome) :=
  Runner.guarded check (sample earlier)
    (r.capture check (sample earlier) >>= conclude r check earlier)

def next (r : Runner) (check : Check) : Trial → Gate Trial
  | .ready earlier => do
    match r.target (← Gate.files) check (sample earlier) with
    | .error fault => return .captured earlier (.refused fault)
    | .ok target =>
      Gate.tell .debug s!"Running {check} on {target.sample.name}"
      return .inSession earlier (target.engine.session target.config [[target.sample]]) .requested
  | .inSession earlier _ (.ended capture) => return .captured earlier capture
  | .inSession earlier session phase => return .inSession earlier session (← session.next phase)
  | .captured earlier capture => return .concluded earlier (← conclude r check earlier capture)
  | .concluded earlier result => do
    match earlier, ← Runner.guarded check (sample earlier) (pure result) with
    | some violating, clean => return .ended (clean.map fun clean => [violating, clean])
    | none, .error fault => return .ended (.error fault)
    | none, .ok violating => return .ready (some violating)
  | .ended result => return .ended result

def proceed (r : Runner) (check : Check) :
    Option Outcome → Except Fault Outcome → Gate (Except Fault (List Outcome))
  | some violating, clean => return clean.map fun clean => [violating, clean]
  | none, .error fault => return .error fault
  | none, .ok violating => do
    return (← protocol r check (some violating)).map fun clean => [violating, clean]

def finish (r : Runner) (check : Check) : Trial → Gate (Except Fault (List Outcome))
  | .ready earlier => protocol r check earlier >>= proceed r check earlier
  | .inSession earlier session phase => do
    let capture ← session.finish phase
    Runner.guarded check (sample earlier) (conclude r check earlier capture) >>=
      proceed r check earlier
  | .captured earlier capture =>
    Runner.guarded check (sample earlier) (conclude r check earlier capture) >>=
      proceed r check earlier
  | .concluded earlier result =>
    Runner.guarded check (sample earlier) (pure result) >>= proceed r check earlier
  | .ended result => return result

variable {r : Runner} {check : Check} {earlier : Option Outcome}

theorem protocol_none : protocol r check none =
    Runner.guarded check Sample.invalid (r.verifyViolating check) := by
  rw [r.verifyViolating_eq]
  rfl

theorem protocol_some (violating : Outcome) : protocol r check (some violating) =
    Runner.guarded check Sample.valid (r.verifyClean check) := by
  rw [r.verifyClean_eq]
  rfl

theorem finish_ready (r : Runner) (check : Check) :
    finish r check (.ready none) = r.verify check := by
  rw [finish, Runner.verify, protocol_none]
  refine bind_congr fun violating => ?_
  cases violating with
  | error fault => rfl
  | ok violating =>
    rw [proceed, protocol_some]
    refine bind_congr fun clean => ?_
    cases clean <;> rfl

theorem finish_ready_eq_next (r : Runner) (check : Check) (earlier : Option Outcome) :
    finish r check (.ready earlier) = next r check (.ready earlier) >>= finish r check := by
  rw [finish, protocol, Runner.capture, next]
  simp only [Runner.guarded_bind, bind_assoc]
  refine bind_congr fun t => ?_
  cases r.target t check (sample earlier) with
  | error fault => simp only [pure_bind, finish]
  | ok target =>
    simp only [bind_assoc, pure_bind, finish]
    rfl

theorem finish_inSession_eq_next (r : Runner) (check : Check) (earlier : Option Outcome)
    (session : Session) (phase : Session.Phase) :
    finish r check (.inSession earlier session phase) =
      next r check (.inSession earlier session phase) >>= finish r check := by
  rcases phase.ended_or with ⟨capture, rfl⟩ | hended
  · simp [finish, next, Session.finish]
  · have hnext : next r check (.inSession earlier session phase) =
        session.next phase >>= fun q => pure (.inSession earlier session q) := by
      cases phase with
      | ended capture => exact absurd rfl (hended capture)
      | _ => rfl
    rw [hnext, finish, session.finish_eq_next phase]
    simp only [bind_assoc, pure_bind, finish]

/-- A step taken first makes no difference to what is left. -/
theorem finish_eq_next (r : Runner) (check : Check) (p : Trial) :
    finish r check p = next r check p >>= finish r check := by
  cases p with
  | ready earlier => exact finish_ready_eq_next r check earlier
  | inSession earlier session phase => exact finish_inSession_eq_next r check earlier session phase
  | captured earlier capture =>
    have hguard :=
      Runner.guarded_bind check (sample earlier) (conclude r check earlier capture) pure
    rw [bind_pure] at hguard
    simp only [finish, next, bind_assoc, pure_bind, hguard]
  | concluded earlier result =>
    simp only [finish, next, bind_assoc]
    refine bind_congr fun settled => ?_
    cases earlier with
    | some violating => simp [finish, proceed]
    | none =>
      cases settled with
      | error fault => simp [finish, proceed]
      | ok violating =>
        simp only [finish, proceed, pure_bind]
        rfl
  | ended result => simp [finish, next]

end Trial

namespace Runner

variable {r : Runner} {t : FileTree} {W : FileTree → Prop} {check : Check}

theorem Uniform.session (h : r.Uniform t W) (hagree : ∀ u, W u → r.fixtures.Agree t u check)
    {sample : String} {target : Target} (htarget : r.target t check sample = .ok target) :
    (target.engine.session target.config [[target.sample]]).Uniform .requested t W := by
  have hengine := h.engines _ (mem_of_engineFor (engineFor_of_target htarget))
  obtain ⟨f, hload, hconfig⟩ := load_of_target htarget
  obtain ⟨content, hcontent⟩ :=
    SessionStep.read_of_refusal? (refusal?_of_target htarget target.engine.name)
  refine hengine.session h.start (FileTree.read_eq_ok_iff.mp hcontent) (fun u hu => ?_) _
  rw [hconfig]
  exact (hagree u hu).config f hload

theorem Uniform.capture (h : r.Uniform t W) (hagree : ∀ u, W u → r.fixtures.Agree t u check)
    {sample : String} (hsample : sample = Sample.invalid ∨ sample = Sample.valid) :
    (r.capture check sample).Uniform t W := by
  refine Uniform.files_bind h.start (fun u hu => ?_) ?_
  · simp only [target_congr (hagree u hu) hsample]
  · cases htarget : r.target t check sample with
    | error fault => exact .pure _
    | ok target =>
      exact (Uniform.tell _ _).bind h.start ((h.session hagree htarget).finish h.start)

theorem Uniform.compareCapture (h : r.Uniform t W)
    (hagree : ∀ u, W u → r.fixtures.Agree t u check) (capture : Capture) :
    (r.compareCapture check capture).Uniform t W := by
  rw [Runner.compareCapture]
  cases capture.fault with
  | some fault => exact .pure _
  | none =>
    refine Uniform.files_bind h.start (fun u hu => ?_) ?_
    · simp only [differences_eq, expected_congr (hagree u hu)]
    · cases r.differences t check capture.collector with
      | error fault => exact .pure _
      | ok d =>
        refine Uniform.warn h.start ?_ d.isEmpty _
        exact .pure _

theorem judgeCapture_uniform (ht : W t) (check : Check) (capture : Capture) :
    (judgeCapture check capture).Uniform t W := by
  rw [judgeCapture]
  cases capture.fault with
  | some fault => exact .pure _
  | none =>
    cases capture.collector.keys with
    | error fault => cases capture.collector.summary <;> exact .pure _
    | ok keys =>
      cases capture.collector.summary with
      | error fault => exact .pure _
      | ok summary =>
        refine Uniform.warn ht ?_ (cleanOutcome check capture.collector keys summary).passed _
        exact .pure _

theorem guarded_uniform (ht : W t) {protocol : Gate (Except Fault Outcome)}
    (h : protocol.Uniform t W) (check : Check) (sample : String) :
    (guarded check sample protocol).Uniform t W := by
  refine h.bind ht ?_
  cases protocol.value t with
  | ok outcome => exact .pure _
  | error fault =>
    dsimp only
    split_ifs
    · exact (Uniform.tell _ _).bind ht (.pure _)
    · exact .pure _

end Runner

namespace Trial

variable {r : Runner} {t : FileTree} {W : FileTree → Prop} {check : Check}

/-- The session that the check is in, if there is one, is uniform. -/
def Uniform (t : FileTree) (W : FileTree → Prop) : Trial → Prop
  | .inSession _ session phase => session.Uniform phase t W
  | _ => True

theorem sample_or (earlier : Option Outcome) :
    sample earlier = Sample.invalid ∨ sample earlier = Sample.valid := by
  cases earlier with
  | none => exact .inl rfl
  | some violating => exact .inr rfl

section Steps

variable (h : r.Uniform t W) (hagree : ∀ u, W u → r.fixtures.Agree t u check)

include h hagree

theorem conclude_uniform (earlier : Option Outcome) (capture : Capture) :
    (conclude r check earlier capture).Uniform t W := by
  cases earlier with
  | none => exact h.compareCapture hagree capture
  | some violating => exact Runner.judgeCapture_uniform h.start check capture

theorem protocol_uniform (earlier : Option Outcome) : (protocol r check earlier).Uniform t W := by
  refine Runner.guarded_uniform h.start ?_ check _
  exact (h.capture hagree (sample_or earlier)).bind h.start (conclude_uniform h hagree earlier _)

theorem proceed_uniform (earlier : Option Outcome) (result : Except Fault Outcome) :
    (proceed r check earlier result).Uniform t W := by
  cases earlier with
  | some violating => exact .pure _
  | none =>
    cases result with
    | error fault => exact .pure _
    | ok violating => exact (protocol_uniform h hagree _).bind h.start (.pure _)

theorem guarded_proceed_uniform (earlier : Option Outcome) {protocol : Gate (Except Fault Outcome)}
    (hprotocol : protocol.Uniform t W) :
    (Runner.guarded check (sample earlier) protocol >>= proceed r check earlier).Uniform t W :=
  (Runner.guarded_uniform h.start hprotocol check _).bind h.start
    (proceed_uniform h hagree earlier _)

/-- What is left of a check is uniform. -/
theorem finish_uniform {p : Trial} (hp : p.Uniform t W) : (p.finish r check).Uniform t W := by
  cases p with
  | ready earlier =>
    exact (protocol_uniform h hagree earlier).bind h.start (proceed_uniform h hagree earlier _)
  | inSession earlier session phase =>
    refine (hp.finish h.start).bind h.start ?_
    exact guarded_proceed_uniform h hagree earlier (conclude_uniform h hagree earlier _)
  | captured earlier capture =>
    exact guarded_proceed_uniform h hagree earlier (conclude_uniform h hagree earlier capture)
  | concluded earlier result => exact guarded_proceed_uniform h hagree earlier (.pure _)
  | ended result => exact .pure _

theorem next_uniform {p : Trial} (hp : p.Uniform t W) :
    (p.next r check).Uniform t W ∧ ((p.next r check).value t).Uniform t W := by
  have ht := h.start
  cases p with
  | ready earlier =>
    refine Uniform.files_leads ht (P := Uniform t W) (fun u hu => ?_) ?_
    · simp only [Runner.target_congr (hagree u hu) (sample_or earlier)]
    · cases htarget : r.target t check (sample earlier) with
      | error fault => exact ⟨.pure _, trivial⟩
      | ok target =>
        exact (Uniform.tell _ _).bind_leads ht (P := Uniform t W)
          ⟨.pure _, h.session hagree htarget⟩
  | inSession earlier session phase =>
    obtain ⟨hnext, hleft⟩ := hp.next ht
    have hstep := hnext.bind_leads ht (P := Uniform t W)
      (f := fun q => pure (.inSession earlier session q)) ⟨.pure _, hleft⟩
    cases phase with
    | ended capture => exact ⟨.pure _, trivial⟩
    | _ => exact hstep
  | captured earlier capture =>
    exact (conclude_uniform h hagree earlier capture).bind_leads ht (P := Uniform t W)
      ⟨.pure _, trivial⟩
  | concluded earlier result =>
    refine (Runner.guarded_uniform ht (.pure result) check (sample earlier)).bind_leads ht
      (P := Uniform t W) ?_
    cases earlier with
    | some violating => exact ⟨.pure _, trivial⟩
    | none =>
      cases (Runner.guarded check (sample none) (pure result)).value t with
      | error fault => exact ⟨.pure _, trivial⟩
      | ok violating => exact ⟨.pure _, trivial⟩
  | ended result => exact ⟨.pure _, trivial⟩

end Steps

end Trial

/-- The verification of checks in steps. -/
def Runner.trials (r : Runner) : Stepwise (Check × Trial) (Except Fault (List Outcome)) where
  next p := do return (p.1, ← p.2.next r p.1)
  finish p := p.2.finish r p.1
  finish_eq_next p := by
    rw [p.2.finish_eq_next r p.1]
    simp

/-- Checks whose fixtures stay as they are take uniform steps. -/
theorem Runner.Uniform.trials {r : Runner} {t : FileTree} {W : FileTree → Prop}
    (h : r.Uniform t W) {checks : List Check}
    (hagree : ∀ check ∈ checks, ∀ u, W u → r.fixtures.Agree t u check) :
    r.trials.Uniform (fun p => p.1 ∈ checks ∧ p.2.Uniform t W) t W where
  next := by
    rintro ⟨check, p⟩ ⟨hcheck, hp⟩
    obtain ⟨hnext, hleft⟩ := p.next_uniform h (hagree check hcheck) hp
    exact hnext.bind_leads h.start (P := fun q : Check × Trial => q.1 ∈ checks ∧ q.2.Uniform t W)
      ⟨.pure _, hcheck, hleft⟩
  finish := by
    rintro ⟨check, p⟩ ⟨hcheck, hp⟩
    exact p.finish_uniform h (hagree check hcheck) hp

end LintGate
