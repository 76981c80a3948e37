import LintGate.Proofs.SessionHistory

/-! # Steps of a session in a row

Steps that follow one another lead a session from one phase to another, and their events follow one
another, too. The steps of an opening that is granted lead through it, the findings of a run lead
through the hearing of them, and the steps of a closing lead to its end. Where they lead from the
request to the end, they say what the session comes to and in which state it leaves the gate.
-/

namespace LintGate

open Gate

namespace Session

/-- Over a file tree, steps lead from one phase to another and write events down. -/
inductive Leads (s : Session) (t : FileTree) : Phase → Phase → List Event → Prop
  | refl (p : Phase) : Leads s t p p []
  | step {p q r : Phase} {es fs : List Event} (first : s.Moves t p q es)
      (rest : Leads s t q r fs) : Leads s t p r (es ++ fs)

namespace Leads

variable {s : Session} {t : FileTree} {p q r : Phase} {es fs : List Event}

theorem single (h : s.Moves t p q es) : s.Leads t p q es := by
  rw [← List.append_nil es]
  exact .step h (.refl q)

theorem trans (h : s.Leads t p q es) (h' : s.Leads t q r fs) : s.Leads t p r (es ++ fs) := by
  induction h with
  | refl => exact h'
  | step first _ ih =>
    rw [List.append_assoc]
    exact .step first (ih h')

theorem finish_run (h : s.Leads t p q es) {g : GateState} (hg : g.files = t) :
    (s.finish p).run g =
      (s.finish q).run ⟨t, es.foldl Event.holds g.locked, g.journal ++ es⟩ := by
  -- The state that the first step leaves is the one in which the others start.
  induction h generalizing g with
  | refl p =>
    subst hg
    rw [List.append_nil]
    rfl
  | @step p q r es fs first rest ih =>
    have hnext : (s.finish p).run g =
        (s.finish q).run ⟨t, es.foldl Event.holds g.locked, g.journal ++ es⟩ := by
      rw [s.finish_eq_next p, StateT.run_bind, first g hg]
      rfl
    rw [hnext, ih rfl, List.foldl_append, List.append_assoc]

/-- Steps from the request of a session to its end say all of it. -/
theorem hold_run {capture : Capture} (h : s.Leads t .requested (.ended capture) es)
    {g : GateState} (hg : g.files = t) :
    s.hold.run g = (capture, ⟨t, es.foldl Event.holds g.locked, g.journal ++ es⟩) :=
  h.finish_run hg

end Leads

variable {t : FileTree}

theorem leads_opening (s : Session) {steps : List SessionStep}
    (h : steps.findSome? (SessionStep.refusal? t) = none) :
    s.Leads t (.opening steps) (.opening []) (steps.flatMap SessionStep.written) := by
  induction steps with
  | nil => exact .refl _
  | cons step left ih =>
    rw [List.findSome?_eq_none_iff, List.forall_mem_cons] at h
    rw [List.flatMap_cons]
    exact .step (.passed h.1) (ih (List.findSome?_eq_none_iff.mpr h.2))

theorem leads_closing (s : Session) (capture : Capture) {steps : List SessionStep}
    (h : steps.findSome? (SessionStep.refusal? t) = none) :
    s.Leads t (.closing capture steps) (.closing capture [])
      (steps.flatMap SessionStep.written) := by
  induction steps with
  | nil => exact .refl _
  | cons step left ih =>
    rw [List.findSome?_eq_none_iff, List.forall_mem_cons] at h
    rw [List.flatMap_cons]
    exact .step (.closing h.1) (ih (List.findSome?_eq_none_iff.mpr h.2))

/-- Findings that have violations are heard one by one, in their order, and held behind those that
are held. -/
theorem leads_hearing (s : Session) (t : FileTree) {fs held : List Finding} {c : Collector}
    (hc : c.Holds held) (h : ∀ f ∈ fs, ∃ v, f.toViolation = .ok v) (behind : List Finding)
    (failure : Option Fault) (left : List (Gate Emission)) :
    ∃ c', c'.Holds (held ++ fs) ∧
      s.Leads t (.hearing c ⟨fs ++ behind, failure⟩ left) (.hearing c' ⟨behind, failure⟩ left)
        (fs.map .heard) := by
  induction fs generalizing held c with
  | nil => exact ⟨c, by rwa [List.append_nil], .refl _⟩
  | cons f rest ih =>
    rw [List.forall_mem_cons] at h
    obtain ⟨⟨v, hv⟩, hrest⟩ := h
    have hrecord := c.record_of_ok hv
    obtain ⟨c', hc', hleads⟩ := ih (hc.record hrecord) hrest
    rw [List.append_cons]
    exact ⟨c', hc', .step (.heard hrecord) hleads⟩

end Session

end LintGate
