import LintGate.Proofs.Fallible
import LintGate.Registry

/-! # Selecting checks by name

A selection fails exactly when one of its names is unknown. Otherwise it keeps, in the order of the
registry, every check that is the first to answer to one of the names, however often it is there.
-/

namespace LintGate

namespace Registry

/-- The checks that names select: all of them where there are no names, else those that are the
first to answer to one. -/
def selected (registry : Registry) (names : List String) : List Check :=
  registry.checks.filter fun check => names.isEmpty ||
    names.any fun name => registry.checks.find? (·.answersTo name) == some check

def Unknown (registry : Registry) (name : String) : Prop :=
  ∀ check ∈ registry.checks, name ≠ check.qualifiedName ∧ name ≠ check.name

variable {registry : Registry} {names : List String}

theorem find?_eq_none_iff {name : String} :
    registry.checks.find? (·.answersTo name) = none ↔ registry.Unknown name := by
  simp [Unknown, Check.answersTo]

theorem get_eq_ok_iff {name : String} {check : Check} :
    registry.get name = .ok check ↔ registry.checks.find? (·.answersTo name) = some check := by
  rw [get]
  cases registry.checks.find? (·.answersTo name) <;> simp

theorem mapM_get_eq_ok (h : ∀ name ∈ names, ¬ registry.Unknown name) :
    ∃ chosen, names.mapM registry.get = .ok chosen ∧
      ∀ check, check ∈ chosen ↔
        ∃ name ∈ names, registry.checks.find? (·.answersTo name) = some check := by
  induction names with
  | nil => exact ⟨[], rfl, by simp⟩
  | cons name rest ih =>
    obtain ⟨chosen, hchosen, hmem⟩ := ih fun n hn => h n (by simp [hn])
    have hknown := h name (by simp)
    rw [← find?_eq_none_iff, ← ne_eq, Option.ne_none_iff_exists'] at hknown
    obtain ⟨check, hcheck⟩ := hknown
    refine ⟨check :: chosen, ?_, ?_⟩
    · rw [List.mapM_cons, get_eq_ok_iff.mpr hcheck, hchosen]
      rfl
    · intro c
      rw [List.mem_cons, hmem, List.exists_mem_cons_iff, hcheck, Option.some.injEq,
        eq_comm (a := c)]

theorem select_eq_ok (h : ∀ name ∈ names, ¬ registry.Unknown name) :
    registry.select names = .ok ⟨registry.selected names⟩ := by
  rw [select, keepsAll]
  by_cases hnames : names.isEmpty
  · rw [if_pos hnames]
    simp [selected, hnames]
  · rw [if_neg hnames]
    obtain ⟨chosen, hchosen, hmem⟩ := mapM_get_eq_ok h
    rw [hchosen]
    have hfilter : (chosen.contains ·) = fun check => names.isEmpty ||
        names.any fun name => registry.checks.find? (·.answersTo name) == some check := by
      funext check
      rw [Bool.eq_iff_iff, List.contains_iff_mem, hmem]
      simp [hnames]
    rw [selected, ← hfilter]
    rfl

theorem select_eq_error {name : String} (hname : name ∈ names) (h : registry.Unknown name) :
    ∃ fault, registry.select names = .error fault := by
  have hnames : names.isEmpty = false := List.isEmpty_eq_false_iff.mpr (List.ne_nil_of_mem hname)
  rw [select, keepsAll, hnames, if_neg (by decide)]
  cases hchosen : names.mapM registry.get with
  | error fault => exact ⟨fault, rfl⟩
  | ok chosen =>
    obtain ⟨check, -, hcheck⟩ := exists_mem_of_mapM_eq_ok hchosen hname
    rw [get_eq_ok_iff, find?_eq_none_iff.mpr h] at hcheck
    cases hcheck

end Registry

end LintGate
