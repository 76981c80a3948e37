import LintGate.Proofs.Selection

/-! # First matches

Each name of a selection calls one check, the first in the registry that goes by it. What is
selected are all occurrences of the checks that are called, in the order of the registry. So only
the set of the names matters, and the names call the same checks in what they selected.
-/

namespace LintGate.Registry

/-- The check is the first one of the registry that goes by the name, qualified or bare. -/
def IsFirstMatch (registry : Registry) (name : String) (check : Check) : Prop :=
  (name = check.qualifiedName ∨ name = check.name) ∧
    ∃ before behind, registry.checks = before ++ check :: behind ∧
      ∀ other ∈ before, name ≠ other.qualifiedName ∧ name ≠ other.name

variable {registry : Registry} {names names' : List String} {name : String} {check : Check}

theorem find?_eq_some_iff_isFirstMatch :
    registry.checks.find? (·.answersTo name) = some check ↔ registry.IsFirstMatch name check := by
  rw [List.find?_eq_some_iff_append, IsFirstMatch]
  simp [Check.answersTo]

theorem not_unknown_iff :
    ¬ registry.Unknown name ↔
      ∃ check ∈ registry.checks, name = check.qualifiedName ∨ name = check.name := by
  simp only [Unknown, not_forall, not_and_or, not_not, exists_prop]

theorem exists_isFirstMatch (h : ¬ registry.Unknown name) :
    ∃ check, registry.IsFirstMatch name check := by
  rw [← find?_eq_none_iff, ← ne_eq, Option.ne_none_iff_exists'] at h
  simpa only [find?_eq_some_iff_isFirstMatch] using h

theorem IsFirstMatch.mem (h : registry.IsFirstMatch name check) : check ∈ registry.checks := by
  obtain ⟨-, before, behind, hchecks, -⟩ := h
  simp [hchecks]

theorem get_eq_ok_iff_isFirstMatch :
    registry.get name = .ok check ↔ registry.IsFirstMatch name check :=
  get_eq_ok_iff.trans find?_eq_some_iff_isFirstMatch

theorem get_eq_error (h : registry.Unknown name) :
    registry.get name = .error (.unknownCheck name registry.names) := by
  rw [get, find?_eq_none_iff.mpr h]

/-- The first name that no check goes by is the one that a selection fails with. -/
theorem select_eq_error_of_first {before behind : List String}
    (hnames : names = before ++ name :: behind) (hbefore : ∀ n ∈ before, ¬ registry.Unknown n)
    (hname : registry.Unknown name) :
    registry.select names = .error (.unknownCheck name registry.names) := by
  obtain ⟨chosen, hchosen, -⟩ := mapM_get_eq_ok hbefore
  have hmapM : names.mapM registry.get = .error (.unknownCheck name registry.names) := by
    rw [hnames, List.mapM_append, List.mapM_cons, hchosen, get_eq_error hname]
    rfl
  have hne : keepsAll names = false := by simp [keepsAll, hnames]
  rw [select, if_neg (by simp [hne]), hmapM]
  rfl

/-- Names call the checks that are the first match of one of them. -/
def calls (registry : Registry) (names : List String) (check : Check) : Bool :=
  names.any fun name => registry.checks.find? (·.answersTo name) == some check

theorem calls_iff :
    registry.calls names check = true ↔ ∃ name ∈ names, registry.IsFirstMatch name check := by
  simp [calls, find?_eq_some_iff_isFirstMatch]

theorem calls_congr (h : ∀ name, name ∈ names' ↔ name ∈ names) :
    registry.calls names' = registry.calls names := by
  funext check
  rw [Bool.eq_iff_iff, calls_iff, calls_iff]
  simp only [h]

theorem selected_eq_filter (hnames : names ≠ []) :
    registry.selected names = registry.checks.filter (registry.calls names) := by
  have hempty : names.isEmpty = false := List.isEmpty_eq_false_iff.mpr hnames
  simp only [selected, hempty, Bool.false_or]
  rfl

theorem select_eq_ok_iff (hnames : names ≠ []) {s : Registry} :
    registry.select names = .ok s ↔
      (∀ name ∈ names, ¬ registry.Unknown name) ∧
        s = ⟨registry.checks.filter (registry.calls names)⟩ := by
  constructor
  · intro h
    have hknown : ∀ name ∈ names, ¬ registry.Unknown name := by
      intro name hname hunknown
      obtain ⟨fault, hfault⟩ := select_eq_error hname hunknown
      rw [h] at hfault
      cases hfault
    rw [select_eq_ok hknown, selected_eq_filter hnames, Except.ok.injEq] at h
    exact ⟨hknown, h.symm⟩
  · rintro ⟨hknown, rfl⟩
    rw [select_eq_ok hknown, selected_eq_filter hnames]

/-- In what some names selected, each of them has the first match that it had. -/
theorem find?_filter_calls (hname : name ∈ names) (h : ¬ registry.Unknown name) :
    (registry.checks.filter (registry.calls names)).find? (·.answersTo name) =
      registry.checks.find? (·.answersTo name) := by
  obtain ⟨check, hfirst⟩ := exists_isFirstMatch h
  have hcalls : registry.calls names check = true := calls_iff.mpr ⟨name, hname, hfirst⟩
  have hcheck := find?_eq_some_iff_isFirstMatch.mpr hfirst
  rw [hcheck, List.find?_filter, List.find?_eq_some_iff_append]
  obtain ⟨hanswers, before, behind, hchecks, hbefore⟩ := List.find?_eq_some_iff_append.mp hcheck
  refine ⟨by simp [hcalls, hanswers], before, behind, hchecks, fun other hother => ?_⟩
  simp [(Bool.not_eq_true' _).mp (hbefore other hother)]

theorem select_select (hnames : names ≠ []) {s : Registry} (h : registry.select names = .ok s) :
    s.select names = .ok s := by
  obtain ⟨hknown, rfl⟩ := (select_eq_ok_iff hnames).mp h
  have hfind := fun name hname => find?_filter_calls hname (hknown name hname)
  rw [select_eq_ok_iff hnames]
  refine ⟨fun name hname => ?_, ?_⟩
  · have hname' := hknown name hname
    rwa [← find?_eq_none_iff, ← hfind name hname, find?_eq_none_iff] at hname'
  · congr 1
    symm
    rw [List.filter_eq_self]
    intro check hcheck
    obtain ⟨name, hname, hfirst⟩ := calls_iff.mp (List.mem_filter.mp hcheck).2
    refine calls_iff.mpr ⟨name, hname, ?_⟩
    rwa [← find?_eq_some_iff_isFirstMatch, hfind name hname, find?_eq_some_iff_isFirstMatch]

/-- A selection by names succeeds just in case each of them is known, and fails with the first one
that is not. What it selects is made of all occurrences of the checks that are the first match of a
name, in the order of the registry, and at least one check. The names may be given in another
order and repeated, and they select the same from what they selected. -/
theorem select_first_matches (registry : Registry) {names : List String} (hnames : names ≠ []) :
    ((∃ s, registry.select names = .ok s) ↔
        ∀ name ∈ names, ∃ check ∈ registry.checks,
          name = check.qualifiedName ∨ name = check.name) ∧
      (∀ before name behind, names = before ++ name :: behind →
        (∀ n ∈ before, ¬ registry.Unknown n) → registry.Unknown name →
        registry.select names = .error (.unknownCheck name registry.names)) ∧
      ∀ s, registry.select names = .ok s →
        (∃ called : Check → Bool,
          (∀ check, called check = true ↔ ∃ name ∈ names, registry.IsFirstMatch name check) ∧
            s.checks = registry.checks.filter called) ∧
          s.checks ≠ [] ∧
          (∀ names', (∀ name, name ∈ names' ↔ name ∈ names) → registry.select names' = .ok s) ∧
          s.select names = .ok s := by
  refine ⟨?_, fun before name behind h hbefore hname => select_eq_error_of_first h hbefore hname,
    fun s hs => ⟨⟨registry.calls names, fun check => calls_iff, ?_⟩, ?_, ?_,
      select_select hnames hs⟩⟩
  · simp only [select_eq_ok_iff hnames, ← not_unknown_iff, exists_and_left, exists_eq, and_true]
  · rw [((select_eq_ok_iff hnames).mp hs).2]
  · obtain ⟨hknown, rfl⟩ := (select_eq_ok_iff hnames).mp hs
    obtain ⟨name, hname⟩ := List.exists_mem_of_ne_nil names hnames
    obtain ⟨check, hfirst⟩ := exists_isFirstMatch (hknown name hname)
    exact List.ne_nil_of_mem
      (List.mem_filter.mpr ⟨hfirst.mem, calls_iff.mpr ⟨name, hname, hfirst⟩⟩)
  · intro names' hmem
    have hnames' : names' ≠ [] := by
      obtain ⟨name, hname⟩ := List.exists_mem_of_ne_nil names hnames
      exact List.ne_nil_of_mem ((hmem name).mpr hname)
    rw [select_eq_ok_iff hnames', calls_congr hmem]
    obtain ⟨hknown, rfl⟩ := (select_eq_ok_iff hnames).mp hs
    exact ⟨fun name hname => hknown name ((hmem name).mp hname), rfl⟩

/-- Two checks share a bare name, and the first one is registered twice. -/
theorem select_first_matches_shared :
    let registry : Registry :=
      ⟨[⟨"ruff", "BareExcept"⟩, ⟨"pylint", "BareExcept"⟩, ⟨"ruff", "BareExcept"⟩,
        ⟨"pylint", "UnusedImport"⟩]⟩
    let chosen : Registry :=
      ⟨[⟨"ruff", "BareExcept"⟩, ⟨"ruff", "BareExcept"⟩, ⟨"pylint", "UnusedImport"⟩]⟩
    ["UnusedImport", "BareExcept"] ≠ [] ∧
      registry.select ["UnusedImport", "BareExcept"] = .ok chosen ∧
      registry.select ["BareExcept", "UnusedImport", "BareExcept"] = .ok chosen ∧
      chosen.select ["UnusedImport", "BareExcept"] = .ok chosen := by
  intro registry chosen
  have hnames : ["UnusedImport", "BareExcept"] ≠ [] := by simp
  have hselect : registry.select ["UnusedImport", "BareExcept"] = .ok chosen := by decide +kernel
  obtain ⟨-, -, hchosen⟩ := select_first_matches registry hnames
  obtain ⟨-, -, hsame, hagain⟩ := hchosen chosen hselect
  refine ⟨hnames, hselect, hsame _ fun name => ?_, hagain⟩
  simp only [List.mem_cons, List.not_mem_nil, or_false]
  constructor
  · rintro (h | h | h) <;> simp [h]
  · rintro (h | h) <;> simp [h]

end LintGate.Registry
