import LintGate.Proofs.Lookup
import LintGate.Proofs.Suite

/-! # What a check reads

A check reads its fixture and no other, and of this its configuration, its samples and its
expectations. In two trees that agree on them it finds the same targets and the same expectations.
What a check comes to over one tree is told by its two captures there.
-/

namespace LintGate

open Gate

/-- All that is read of the fixture of a check is the same in two trees. -/
structure Fixtures.Agree (fs : Fixtures) (t u : FileTree) (check : Check) : Prop where
  load : fs.load u check = fs.load t check
  config : ∀ f, fs.load t check = .ok f → u.look f.config.toString = t.look f.config.toString
  sample : ∀ f, fs.load t check = .ok f → ∀ stem, stem = Sample.invalid ∨ stem = Sample.valid →
    u.look (f.sample stem).toString = t.look (f.sample stem).toString
  expectations : ∀ f, fs.load t check = .ok f →
    u.look f.expectationsPath.toString = t.look f.expectationsPath.toString

namespace Fixtures.Agree

variable {fs : Fixtures} {t u v : FileTree} {check : Check}

theorem refl (fs : Fixtures) (t : FileTree) (check : Check) : fs.Agree t t check :=
  ⟨rfl, fun _ _ => rfl, fun _ _ _ _ => rfl, fun _ _ => rfl⟩

theorem trans (h : fs.Agree t u check) (h' : fs.Agree u v check) : fs.Agree t v check := by
  refine ⟨h'.load.trans h.load, ?_, ?_, ?_⟩
  · intro f hf
    exact (h'.config f (h.load.trans hf)).trans (h.config f hf)
  · intro f hf stem hstem
    exact (h'.sample f (h.load.trans hf) stem hstem).trans (h.sample f hf stem hstem)
  · intro f hf
    exact (h'.expectations f (h.load.trans hf)).trans (h.expectations f hf)

end Fixtures.Agree

namespace Runner

theorem capture_eq {r : Runner} (hr : r.Lawful) (check : Check) (sample : String) (t : FileTree) :
    (r.capture check sample).value t =
      match r.target t check sample with
      | .error fault => .refused fault
      | .ok target =>
        match (target.engine.opening target.config).findSome? (SessionStep.refusal? t) with
        | some fault => .refused fault
        | none => ((target.engine.run target.config [target.sample]).value t).capture := by
  obtain ⟨c, u, es, hcapture, hcaptures⟩ := capture_yields hr check sample t
  rw [hcapture.value_eq]
  generalize heard es = hs at hcaptures
  cases hcaptures with
  | missing htarget => rw [htarget]
  | refused hfound hrefusal =>
    rw [hfound]
    simp only [hrefusal]
  | ran hfound hopened hemits hcompletes =>
    obtain ⟨fs, hrun, -⟩ := hemits
    rw [hfound]
    simp [hopened, hrun.value_eq]

variable {r : Runner} {t u : FileTree} {check : Check}

theorem target_congr (h : r.fixtures.Agree t u check) {sample : String}
    (hsample : sample = Sample.invalid ∨ sample = Sample.valid) :
    r.target u check sample = r.target t check sample := by
  rw [target, target, h.load]
  cases hload : r.fixtures.load t check with
  | error fault => simp only [bind, Except.bind]
  | ok f =>
    have hpath : f.samplePath u sample = f.samplePath t sample := by
      rw [Fixture.samplePath, Fixture.samplePath, FileTree.requireFile, FileTree.requireFile,
        FileTree.require_congr (h.sample f hload sample hsample)]
    simp only [bind, Except.bind, hpath]

theorem expected_congr (h : r.fixtures.Agree t u check) :
    r.expected u check = r.expected t check := by
  rw [expected, expected, h.load]
  cases hload : r.fixtures.load t check with
  | error fault => simp only [bind, Except.bind]
  | ok f =>
    simp only [bind, Except.bind, f.expectations_eq, h.expectations f hload]

theorem load_of_target {sample : String} {target : Target}
    (h : r.target t check sample = .ok target) :
    ∃ f, r.fixtures.load t check = .ok f ∧ target.config = f.config := by
  simp only [Runner.target, bind_eq_ok_iff] at h
  obtain ⟨f, hload, path, -, engine, -, htarget⟩ := h
  cases htarget
  exact ⟨f, hload, rfl⟩

/-- The outcomes of a check over a tree that its runs do not sway. -/
def settled (r : Runner) (t : FileTree) (check : Check) : Except Fault (List Outcome) := do
  let violating ← settle check Sample.invalid
    (compared check ((r.capture check Sample.invalid).value t) (r.expected t check))
  let clean ← settle check Sample.valid (judged check ((r.capture check Sample.valid).value t))
  return [violating, clean]

theorem collect_map {α β : Type} (f : α → Except Fault β) (as : List α) :
    collect (as.map f) = as.mapM f := by
  induction as with
  | nil => rfl
  | cons a as ih =>
    rw [List.map_cons, List.mapM_cons]
    cases f a with
    | error fault => rfl
    | ok b =>
      rw [collect, ih]
      cases as.mapM f <;> rfl

end Runner

end LintGate
