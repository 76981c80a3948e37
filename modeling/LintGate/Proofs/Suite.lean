import LintGate.Proofs.Protocol
import LintGate.Proofs.Turns

/-! # What a suite decides

A check matches its fixture over a file tree when both of its protocols can be carried out, what is
captured on the invalid sample is a permutation of what is expected, and nothing is heard on the
valid sample. As long as nothing but gate faults comes up, a suite returns a report, however many
workers it has, and the report passes exactly when every check matches at its turn.
-/

namespace LintGate

open Gate

namespace Runner

/-- What the guard makes of a protocol: a gate fault becomes an outcome. -/
def settle (check : Check) (sample : String) : Except Fault Outcome → Except Fault Outcome
  | .ok o => .ok o
  | .error fault =>
    if fault.isGate then .ok (.ofError check sample fault.message) else .error fault

theorem guarded_yields (check : Check) (sample : String) {protocol : Gate (Except Fault Outcome)}
    {t u : FileTree} {a : Except Fault Outcome} {es : List Event}
    (h : protocol.Yields t a u es) :
    ∃ fs, (guarded check sample protocol).Yields t (settle check sample a) u fs := by
  rw [guarded]
  cases a with
  | ok o => exact ⟨_, h.bind (.pure _ u)⟩
  | error fault =>
    rw [settle]
    by_cases hgate : fault.isGate
    · refine ⟨es ++ ([.told .error s!"{check} [{sample}]: {fault.message}"] ++ []), h.bind ?_⟩
      dsimp only
      rw [if_pos hgate, if_pos hgate]
      exact (Yields.tell _ _ u).bind (.pure _ u)
    · refine ⟨es ++ [], h.bind ?_⟩
      dsimp only
      rw [if_neg hgate, if_neg hgate]
      exact .pure _ u

variable {r : Runner} {check : Check} {t : FileTree}

theorem verify_yields {a b : Except Fault Outcome} {u v : FileTree} {es fs : List Event}
    (hviolating : (r.verifyViolating check).Yields t a u es)
    (hclean : (r.verifyClean check).Yields u b v fs) :
    ∃ w gs, (w = u ∨ w = v) ∧ (r.verify check).Yields t (do
      let violating ← settle check Sample.invalid a
      let clean ← settle check Sample.valid b
      return [violating, clean]) w gs := by
  obtain ⟨es', hviolating⟩ := guarded_yields check Sample.invalid hviolating
  obtain ⟨fs', hclean⟩ := guarded_yields check Sample.valid hclean
  rw [verify]
  cases ha : settle check Sample.invalid a with
  | error fault =>
    rw [ha] at hviolating
    exact ⟨_, _, .inl rfl, hviolating.bind (.pure _ _)⟩
  | ok violating =>
    rw [ha] at hviolating
    cases hb : settle check Sample.valid b with
    | error fault =>
      rw [hb] at hclean
      exact ⟨_, _, .inr rfl, hviolating.bind (hclean.bind (.pure _ _))⟩
    | ok clean =>
      rw [hb] at hclean
      exact ⟨_, _, .inr rfl, hviolating.bind (hclean.bind (.pure _ _))⟩

theorem verify_oblivious (hr : r.Lawful) (check : Check) : (r.verify check).Oblivious := by
  rw [oblivious_iff]
  intro t
  obtain ⟨w, gs, -, hverify⟩ := verify_yields (verifyViolating_oblivious hr check t)
    (verifyClean_oblivious hr check _)
  exact ⟨_, _, _, hverify⟩

theorem after_verifyViolating (hr : r.Lawful) (check : Check) (t : FileTree) :
    (r.verifyViolating check).after t = (r.capture check Sample.invalid).after t := by
  obtain ⟨c, u, es, hcapture, -⟩ := capture_yields hr check Sample.invalid t
  obtain ⟨fs, hyields⟩ := verifyViolating_yields hcapture
  rw [hyields.after_eq, hcapture.after_eq]

/-- A check comes to what the guard makes of its two protocols, one after the other. -/
theorem verify_settles (hr : r.Lawful) (check : Check) (t : FileTree) :
    (r.verify check).value t = do
      let violating ← settle check Sample.invalid ((r.verifyViolating check).value t)
      let clean ← settle check Sample.valid
        ((r.verifyClean check).value ((r.verifyViolating check).after t))
      return [violating, clean] := by
  obtain ⟨w, gs, -, hverify⟩ := verify_yields (verifyViolating_oblivious hr check t)
    (verifyClean_oblivious hr check _)
  exact hverify.value_eq

/-- Each check with the tree that it starts from when the checks take turns. -/
def turns (r : Runner) (t : FileTree) : List Check → List (Check × FileTree)
  | [] => []
  | check :: rest => (check, t) :: r.turns ((r.verify check).after t) rest

theorem inTurn_verify (r : Runner) (t : FileTree) (checks : List Check) :
    inTurn (checks.map r.verify) t =
      (r.turns t checks).map fun turn => (r.verify turn.1).value turn.2 := by
  induction checks generalizing t with
  | nil => rfl
  | cons check rest ih => simp [inTurn, turns, ih]

theorem outcomes_yields (hr : r.Lawful) (checks : List Check) (workers : Int) (t : FileTree) :
    ∃ u es, (r.outcomes checks workers).Yields t
      (collect ((r.turns t checks).map fun turn => (r.verify turn.1).value turn.2)) u es := by
  have htasks : ∀ task ∈ checks.map r.verify, task.Oblivious := by
    intro task htask
    obtain ⟨check, -, rfl⟩ := List.mem_map.mp htask
    exact verify_oblivious hr check
  rw [outcomes, ← inTurn_verify]
  by_cases hworkers : workers ≤ 1
  · rw [if_pos hworkers]
    exact inSequence_yields htasks t
  · have hlength : (checks.map r.verify).length = checks.length := List.length_map r.verify
    rw [if_neg hworkers, ← hlength]
    exact pooled_yields htasks t

theorem tellResult_yields (report : Report) (t : FileTree) :
    ∃ es, (tellResult report).Yields t () t es := by
  rw [tellResult]
  split
  · exact ⟨_, .tell _ _ t⟩
  · exact ⟨_, .tell _ _ t⟩

/-- As long as the number of workers can be written, a suite comes to what its checks come to at
their turns. -/
theorem verifySuite_turns (hr : r.Lawful) (registry : Registry) {workers : Int}
    (hworkers : workers.natAbs < Text.Numeral.bound) (t : FileTree) :
    ∃ u es, (r.verifySuite registry workers).Yields t
      ((collect ((r.turns t registry.checks).map fun turn => (r.verify turn.1).value turn.2)).map
        fun perCheck => ⟨perCheck.flatten⟩) u es := by
  obtain ⟨u, es, houtcomes⟩ := outcomes_yields hr registry.checks workers t
  have hwrite : Text.Numeral.write? workers = some (Text.Numeral.write workers) :=
    Text.Numeral.write?_eq_some_iff.mpr ⟨hworkers, rfl⟩
  rw [verifySuite, hwrite]
  cases hcollect : collect ((r.turns t registry.checks).map
      fun turn => (r.verify turn.1).value turn.2) with
  | error fault =>
    rw [hcollect] at houtcomes
    exact ⟨_, _, (Yields.tell _ _ t).bind (houtcomes.bind (.pure _ u))⟩
  | ok perCheck =>
    rw [hcollect] at houtcomes
    obtain ⟨fs, htell⟩ := tellResult_yields ⟨perCheck.flatten⟩ u
    exact ⟨_, _, (Yields.tell _ _ t).bind (houtcomes.bind (htell.bind (.pure _ u)))⟩

end Runner

end LintGate
