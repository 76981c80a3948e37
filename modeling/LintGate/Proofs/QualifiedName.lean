import LintGate.Proofs.FirstMatch
import LintGate.Proofs.Lines
import Mathlib.Data.Finset.Card
import Mathlib.Data.List.TakeWhile

/-! # Qualified names

A check can be called by its qualified name unless another check that stands in front of it goes by
the same name, be it its qualified or its bare one. The names of all checks call all of them just in
case none is shadowed in this way, and none is where no bare name holds a slash.
-/

namespace LintGate

/-- A map of a list into itself that never leads further back and reaches each item leaves every
item where it is. -/
theorem forall_eq_self_of_reaches {α : Type} [DecidableEq α] {as : List α} {g : α → α}
    (hmem : ∀ a ∈ as, g a ∈ as) (hle : ∀ a ∈ as, as.idxOf (g a) ≤ as.idxOf a)
    (hreach : ∀ b ∈ as, ∃ a ∈ as, g a = b) : ∀ a ∈ as, g a = a := by
  have hinj : Set.InjOn g as.toFinset := by
    refine Finset.injOn_of_surjOn_of_card_le g ?_ ?_ le_rfl
    · intro a ha
      simpa using hmem a (by simpa using ha)
    · intro b hb
      obtain ⟨a, ha, hab⟩ := hreach b (by simpa using hb)
      exact ⟨a, by simpa using ha, hab⟩
  intro a ha
  induction hn : as.idxOf a using Nat.strong_induction_on generalizing a with
  | _ n ih =>
    subst hn
    by_contra hne
    -- An item that moves would move onto one in front of it, which stays.
    have hlt : as.idxOf (g a) < as.idxOf a := by
      refine lt_of_le_of_ne (hle a ha) fun hidx => hne ?_
      exact (List.idxOf_inj (hmem a ha)).mp hidx
    have hstays := ih _ hlt (g a) (hmem a ha) rfl
    exact hne (hinj (by simpa using hmem a ha) (by simpa using ha) hstays)

namespace Check

variable {c d : Check}

theorem toList_qualifiedName (c : Check) :
    c.qualifiedName.toList = c.engine.toList ++ '/' :: c.name.toList := by
  simp [qualifiedName]

theorem eq_of_qualifiedName_eq (hc : '/' ∉ c.name.toList) (hd : '/' ∉ d.name.toList)
    (h : c.qualifiedName = d.qualifiedName) : c = d := by
  have hlists := congrArg (·.toList.reverse) h
  simp only [toList_qualifiedName, List.reverse_append, List.reverse_cons, List.append_assoc,
    List.singleton_append] at hlists
  obtain ⟨hname, hengine⟩ :=
    Text.append_cons_inj (by simpa using hc) (by simpa using hd) hlists
  have hengine' : c.engine = d.engine :=
    String.toList_injective (List.reverse_injective hengine)
  have hname' : c.name = d.name := String.toList_injective (List.reverse_injective hname)
  cases c
  cases d
  simp_all

end Check

namespace Registry

variable {registry : Registry} {check found : Check}

/-- Another check, in front of the first occurrence of this one, goes by its qualified name. -/
def IsShadowed (registry : Registry) (check : Check) : Prop :=
  ∃ other ∈ registry.checks.takeWhile (· != check),
    check.qualifiedName = other.qualifiedName ∨ check.qualifiedName = other.name

/-- A check is the first match of its own qualified name unless it is shadowed. -/
theorem isFirstMatch_qualifiedName_iff (h : check ∈ registry.checks) :
    registry.IsFirstMatch check.qualifiedName check ↔ ¬ registry.IsShadowed check := by
  rw [IsFirstMatch, IsShadowed]
  simp only [true_or, true_and, not_exists, not_and, not_or]
  constructor
  · rintro ⟨before, behind, hchecks, hbefore⟩
    rw [hchecks, Text.takeWhile_append_cons fun hmem => (hbefore check hmem).1 rfl]
    exact hbefore
  · intro hshadow
    obtain ⟨before, behind, hchecks, hmem⟩ := List.eq_append_cons_of_mem h
    rw [hchecks, Text.takeWhile_append_cons hmem] at hshadow
    exact ⟨before, behind, hchecks, hshadow⟩

theorem IsFirstMatch.idxOf_le (h : registry.IsFirstMatch check.qualifiedName found) :
    registry.checks.idxOf found ≤ registry.checks.idxOf check := by
  obtain ⟨hfound, before, behind, hchecks, hbefore⟩ := h
  have hcheck : check ∉ before := fun hmem => (hbefore check hmem).1 rfl
  have hfound' : found ∉ before := fun hmem => by
    obtain ⟨hqualified, hbare⟩ := hbefore found hmem
    exact hfound.elim hqualified hbare
  rw [hchecks, List.idxOf_append_of_notMem hfound', List.idxOf_append_of_notMem hcheck]
  simp

theorem not_unknown_qualifiedName (h : check ∈ registry.checks) :
    ¬ registry.Unknown check.qualifiedName :=
  not_unknown_iff.mpr ⟨check, h, .inl rfl⟩

def callee (registry : Registry) (check : Check) : Check :=
  (registry.checks.find? (·.answersTo check.qualifiedName)).getD check

theorem callee_eq (h : registry.IsFirstMatch check.qualifiedName found) :
    registry.callee check = found := by
  rw [callee, find?_eq_some_iff_isFirstMatch.mpr h, Option.getD_some]

theorem isFirstMatch_callee (h : check ∈ registry.checks) :
    registry.IsFirstMatch check.qualifiedName (registry.callee check) := by
  obtain ⟨found, hfound⟩ := exists_isFirstMatch (not_unknown_qualifiedName h)
  rwa [callee_eq hfound]

/-- Where the qualified names call every check, each calls its own, since none calls a check behind
its own. -/
theorem callee_eq_self
    (hcalls : ∀ check ∈ registry.checks, registry.calls registry.names check = true) :
    ∀ check ∈ registry.checks, registry.callee check = check := by
  refine forall_eq_self_of_reaches (fun check hcheck => (isFirstMatch_callee hcheck).mem)
    (fun check hcheck => (isFirstMatch_callee hcheck).idxOf_le) fun found hfound => ?_
  obtain ⟨name, hname, hfirst⟩ := calls_iff.mp (hcalls found hfound)
  obtain ⟨check, hcheck, rfl⟩ := List.mem_map.mp hname
  exact ⟨check, hcheck, callee_eq hfirst⟩

theorem select_names_iff_calls :
    registry.select registry.names = .ok registry ↔
      ∀ check ∈ registry.checks, registry.calls registry.names check = true := by
  by_cases hnames : registry.names = []
  · have hchecks : registry.checks = [] := List.map_eq_nil_iff.mp hnames
    simp [select, keepsAll, hnames, hchecks]
  have hknown : ∀ name ∈ registry.names, ¬ registry.Unknown name := by
    intro name hname
    obtain ⟨check, hcheck, rfl⟩ := List.mem_map.mp hname
    exact not_unknown_qualifiedName hcheck
  rw [select_eq_ok_iff hnames, ← List.filter_eq_self]
  constructor
  · rintro ⟨-, hfilter⟩
    exact (congrArg Registry.checks hfilter).symm
  · intro hfilter
    exact ⟨hknown, by rw [hfilter]⟩

theorem select_names_iff :
    registry.select registry.names = .ok registry ↔
      ∀ check ∈ registry.checks, ¬ registry.IsShadowed check := by
  rw [select_names_iff_calls]
  constructor
  · intro hcalls check hcheck
    have hown := isFirstMatch_callee hcheck
    rwa [callee_eq_self hcalls check hcheck, isFirstMatch_qualifiedName_iff hcheck] at hown
  · intro hshadow check hcheck
    exact calls_iff.mpr ⟨check.qualifiedName, List.mem_map_of_mem hcheck,
      (isFirstMatch_qualifiedName_iff hcheck).mpr (hshadow check hcheck)⟩

theorem not_isShadowed_of_no_slash
    (h : ∀ check ∈ registry.checks, '/' ∉ check.name.toList) (hcheck : check ∈ registry.checks) :
    ¬ registry.IsShadowed check := by
  rintro ⟨other, hother, hname | hname⟩
  · have hmem := (List.takeWhile_sublist _).subset hother
    have heq := Check.eq_of_qualifiedName_eq (h check hcheck) (h other hmem) hname
    have hne := List.mem_takeWhile_imp hother
    simp [heq] at hne
  · have hmem := (List.takeWhile_sublist _).subset hother
    refine h other hmem ?_
    rw [← hname, Check.toList_qualifiedName]
    simp

/-- The qualified name of a registered check calls the first check that goes by it, which is the
check itself unless that is shadowed. The names of all checks select all of them just in case none
is shadowed, and none is where no bare name holds a slash, whatever the engines are called. -/
theorem get_qualifiedName (registry : Registry) :
    (∀ check ∈ registry.checks, ∃ found, registry.get check.qualifiedName = .ok found ∧
        registry.IsFirstMatch check.qualifiedName found ∧
        (found = check ↔ ¬ registry.IsShadowed check)) ∧
      (registry.select registry.names = .ok registry ↔
        ∀ check ∈ registry.checks, ¬ registry.IsShadowed check) ∧
      ((∀ check ∈ registry.checks, '/' ∉ check.name.toList) →
        ∀ check ∈ registry.checks, ¬ registry.IsShadowed check) := by
  refine ⟨fun check hcheck => ?_, select_names_iff,
    fun h check hcheck => not_isShadowed_of_no_slash h hcheck⟩
  have hfound := isFirstMatch_callee hcheck
  refine ⟨registry.callee check, get_eq_ok_iff_isFirstMatch.mpr hfound, hfound, ?_⟩
  rw [← isFirstMatch_qualifiedName_iff hcheck]
  constructor
  · intro hown
    rwa [hown] at hfound
  · exact callee_eq

theorem get_qualifiedName_default :
    (∀ check ∈ default.checks, '/' ∉ check.name.toList) ∧
      default.select default.names = .ok default := by
  obtain ⟨-, hselect, hshadow⟩ := get_qualifiedName default
  have hslash : ∀ check ∈ default.checks, '/' ∉ check.name.toList := by decide
  exact ⟨hslash, hselect.mpr (hshadow hslash)⟩

/-- A qualified name may be that of a check in front, or the bare name of one. -/
theorem get_qualifiedName_taken :
    let joined : Registry := ⟨[⟨"a", "b/c"⟩, ⟨"a/b", "c"⟩]⟩
    let bare : Registry := ⟨[⟨"pylint", "ruff/BareExcept"⟩, ⟨"ruff", "BareExcept"⟩]⟩
    (joined.checks.Nodup ∧ ⟨"a/b", "c"⟩ ∈ joined.checks ∧
        joined.get (Check.qualifiedName ⟨"a/b", "c"⟩) = .ok ⟨"a", "b/c"⟩ ∧
        joined.select joined.names = .ok ⟨[⟨"a", "b/c"⟩]⟩) ∧
      bare.checks.Nodup ∧ ⟨"ruff", "BareExcept"⟩ ∈ bare.checks ∧
        bare.get (Check.qualifiedName ⟨"ruff", "BareExcept"⟩) = .ok ⟨"pylint", "ruff/BareExcept"⟩ ∧
        bare.select bare.names = .ok ⟨[⟨"pylint", "ruff/BareExcept"⟩]⟩ := by
  decide +kernel

end Registry

end LintGate
