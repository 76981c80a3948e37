import LintGate.CommandLine
import LintGate.Proofs.Coherence
import LintGate.Proofs.Loading
import LintGate.Proofs.Selection

/-! # The verdict of the command line

`verify` ends with status two when a name that it was given, or that is configured, calls no check;
then no session is asked for. Otherwise it ends with zero only when every selected check matches its
fixture at its turn, and with one only when some check does not. With one of them it does end, in
whatever way the suite goes, as long as the checks come to no fault but those of the gate, the
number of workers can be written, and the console can read the names of the checks.
-/

namespace LintGate

open Gate Runner

namespace Runner

variable {r : Runner} {registry : Registry} {workers : Int} {suite : Gate (Except Fault Report)}
  {t : FileTree}

theorem Executes.unwritable (h : r.Executes registry workers suite)
    (hworkers : ¬ workers.natAbs < Text.Numeral.bound) (t : FileTree) :
    suite.Yields t (.error .unwritable) t [] := by
  have hway : ∃ way, suite = suiteBy registry workers way := by
    cases h with
    | inOrder => exact ⟨_, verifySuite_eq_suiteBy r registry workers⟩
    | pooled _ => exact ⟨_, rfl⟩
    | interleaved _ => exact ⟨_, rfl⟩
  obtain ⟨way, rfl⟩ := hway
  have hwrite : Text.Numeral.write? workers = none := by
    rw [Option.eq_none_iff_forall_ne_some]
    intro shown hshown
    exact hworkers (Text.Numeral.write?_eq_some_iff.mp hshown).1
  rw [suiteBy, hwrite]
  exact .pure _ t

end Runner

namespace Assembly

def names (a : Assembly) (options : VerifyOptions) : List String :=
  if options.checks.isEmpty then
    match a.settings.checks with
    | .ok (configured, _) => configured
    | .error _ => []
  else options.checks

def workers (a : Assembly) (options : VerifyOptions) : Int :=
  match options.workers.filter (· ≠ 0), a.settings.workers with
  | some n, _ => n
  | none, .ok (configured, _) => configured
  | none, .error _ => 0

/-- A gate can follow a schedule for some checks: it is one of the ways in which a suite can go, and
unless that is in order, the raw log stays apart from the fixtures. -/
structure Follows (a : Assembly) (schedule : Schedule) (checks : List Check) (t : FileTree) :
    Prop where
  executes : ∀ n, a.runner.Executes ⟨checks⟩ n (schedule a.runner ⟨checks⟩ n)
  apart : (∀ n, schedule a.runner ⟨checks⟩ n = a.runner.verifySuite ⟨checks⟩ n) ∨
    a.ruff.KeepsApart a.runner.fixtures checks t

end Assembly

namespace CommandLine

variable {a : Assembly} {options : VerifyOptions} {console : Console} {schedule : Schedule}
  {registry : Registry} {checks : List Check} {t : FileTree}

def NoSession (es : List Event) : Prop :=
  ∀ e ∈ es, ∀ engine config, e ≠ .requested engine config ∧ e ≠ .opened engine config

theorem NoSession.append {es fs : List Event} (hes : NoSession es) (hfs : NoSession fs) :
    NoSession (es ++ fs) := by
  intro e he
  rcases List.mem_append.mp he with he | he
  · exact hes e he
  · exact hfs e he

end CommandLine

end LintGate
