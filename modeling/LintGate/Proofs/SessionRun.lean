import LintGate.Engine
import LintGate.Proofs.FindingKey
import LintGate.Proofs.Gate
import LintGate.Verification.Runner

/-! # What a listener has heard

A session refuses at the first step that it cannot take, hands over one finding after the other,
and closes. If it ends without a fault, its collector holds exactly the findings that the journal
says were heard, in that order. This needs engines that are lawful: their runs see nothing of the
gate but the file tree, and they call no listener themselves.
-/

namespace LintGate

open Gate

namespace SessionStep

def refusal? (t : FileTree) : SessionStep → Option Fault
  | requireFile engine path =>
    match t.requireFile path (.configurationNotFound engine path) with
    | .error fault => some fault
    | .ok _ => none
  | requireToml engine path => checkToml engine path t
  | refuse fault => some fault
  | _ => none

theorem run_yields (step : SessionStep) (t : FileTree) :
    ∃ es, step.run.Yields t (step.refusal? t) t es ∧ heard es = [] := by
  cases step with
  | requireFile engine path =>
    rw [run, refusal?]
    refine ⟨[] ++ [], (Yields.files t).bind ?_, rfl⟩
    cases t.requireFile path (.configurationNotFound engine path) with
    | error fault => exact .pure _ t
    | ok u => exact .pure _ t
  | requireToml engine path => exact ⟨_, (Yields.files t).bind (.pure _ t), rfl⟩
  | refuse fault => exact ⟨_, .pure _ t, rfl⟩
  | announce message => exact ⟨_, (Yields.tell _ _ t).bind (.pure _ t), rfl⟩
  | lock => exact ⟨_, (Yields.setLocked _ t).bind ((Yields.record _ t).bind (.pure _ t)), rfl⟩
  | clearCache => exact ⟨_, (Yields.record _ t).bind (.pure _ t), rfl⟩
  | unlock => exact ⟨_, (Yields.setLocked _ t).bind ((Yields.record _ t).bind (.pure _ t)), rfl⟩

theorem runAll_yields (steps : List SessionStep) (t : FileTree) :
    ∃ es, (runAll steps).Yields t (steps.findSome? (refusal? t)) t es ∧ heard es = [] := by
  induction steps with
  | nil => exact ⟨[], .pure none t, rfl⟩
  | cons step rest ih =>
    obtain ⟨es, hstep, hes⟩ := run_yields step t
    rw [runAll, List.findSome?_cons]
    cases hrefusal : step.refusal? t with
    | some fault =>
      rw [hrefusal] at hstep
      exact ⟨_, hstep.bind (.pure _ t), by rw [heard_append, hes]; rfl⟩
    | none =>
      rw [hrefusal] at hstep
      obtain ⟨fs, hrest, hfs⟩ := ih
      exact ⟨_, hstep.bind hrest, by rw [heard_append, hes, hfs]; rfl⟩

end SessionStep

/-- An emission came behind findings that were held. Unless a fault ended it, which is that of a
finding without a violation or else the emission's own, all of it was heard and is held. Nothing was
heard just in case nothing was emitted. -/
structure Capture.Completes (c : Capture) (held : List Finding) (e : Emission)
    (hs : List Finding) : Prop where
  fault : ∀ fault, c.fault = some fault →
    ((∀ f ∈ e.findings, ∃ v, f.toViolation = .ok v) ∧ e.failure = some fault) ∨
      ∃ f ∈ e.findings, f.toViolation = .error fault
  complete : c.fault = none →
    e.failure = none ∧ hs = e.findings ∧ c.collector.Holds (held ++ e.findings)
  silent : hs = [] ↔ e.findings = []

namespace Collector

/-- Findings are handed over up to the first that has no violation. -/
theorem hear_yields (fs held : List Finding) {c : Collector} (hc : c.Holds held) :
    ∃ capture es, (∀ t, (c.hear fs).Yields t capture t es) ∧
      capture.Completes held ⟨fs, none⟩ (heard es) := by
  induction fs generalizing c held with
  | nil =>
    refine ⟨⟨c, none⟩, [], .pure _, ⟨by simp, fun _ => ⟨rfl, rfl, ?_⟩, by simp⟩⟩
    rwa [List.append_nil]
  | cons f rest ih =>
    rw [hear]
    rcases hrecord : c.record f with ⟨c', _ | fault⟩
    · obtain ⟨capture, es, hrest, hfault, hcomplete, -⟩ := ih (held ++ [f]) (hc.record hrecord)
      refine ⟨capture, _, fun t => (Yields.record _ t).bind (hrest t), ?_, fun h => ?_, by simp⟩
      · intro fault h
        rcases hfault fault h with ⟨-, hnone⟩ | ⟨g, hg, hviolation⟩
        · cases hnone
        · exact .inr ⟨g, List.mem_cons_of_mem f hg, hviolation⟩
      · obtain ⟨-, hrest, hholds⟩ := hcomplete h
        refine ⟨rfl, ?_, by simpa using hholds⟩
        simp [hrest]
    · refine ⟨⟨c', some fault⟩, _, fun t => (Yields.record _ t).bind (.pure _ t), ?_,
        (fun h => by cases h), by simp⟩
      rintro _ ⟨⟩
      refine .inr ⟨f, by simp, ?_⟩
      cases hviolation : f.toViolation with
      | ok v => rw [record, hviolation] at hrecord; cases hrecord
      | error fault' => rw [record, hviolation] at hrecord; cases hrecord; rfl

theorem receive_yields (e : Emission) (held : List Finding) {c : Collector} (hc : c.Holds held) :
    ∃ capture es, (∀ t, (c.receive e).Yields t capture t es) ∧
      capture.Completes held e (heard es) := by
  obtain ⟨⟨c', fault⟩, es, hhear, hfault, hcomplete, hsilent⟩ := hear_yields e.findings held hc
  cases fault with
  | some fault =>
    refine ⟨_, _, fun t => (hhear t).bind (.pure _ t), ?_, (fun h => by cases h),
      by simpa using hsilent⟩
    intro fault' h
    rcases hfault fault' h with ⟨-, hnone⟩ | h
    · cases hnone
    · exact .inr h
  | none =>
    obtain ⟨-, hheard, hholds⟩ := hcomplete rfl
    refine ⟨⟨c', e.failure⟩, _, fun t => (hhear t).bind (.pure _ t), fun fault h => .inl ⟨?_, h⟩,
      fun h => ⟨h, by simp [hheard], hholds⟩, by simpa using hsilent⟩
    intro f hf
    exact hholds.toViolation (List.mem_append_right held hf)

end Collector

def Emission.capture (e : Emission) : Capture := (Collector.empty.receive e).value ⟨[], []⟩

theorem Emission.capture_spec (e : Emission) :
    ∃ es, (∀ t, (Collector.empty.receive e).Yields t e.capture t es) ∧
      e.capture.Completes [] e (heard es) := by
  obtain ⟨c, es, hyields, hcompletes⟩ := Collector.receive_yields e [] Collector.empty_holds
  rw [capture, (hyields _).value_eq]
  exact ⟨es, hyields, hcompletes⟩

namespace Capture.Completes

variable {c : Capture} {e : Emission} {hs : List Finding}

/-- A capture of silence that returned is that of an emission of nothing. -/
theorem silence_iff (h : c.Completes [] e hs) :
    c.fault = none ∧ hs = [] ↔ e.findings = [] ∧ e.failure = none := by
  constructor
  · rintro ⟨hfault, hsilent⟩
    exact ⟨h.silent.mp hsilent, (h.complete hfault).1⟩
  · rintro ⟨hfindings, hfailure⟩
    refine ⟨?_, h.silent.mpr hfindings⟩
    rw [Option.eq_none_iff_forall_ne_some]
    intro fault hfault
    rcases h.fault fault hfault with ⟨-, hown⟩ | ⟨f, hf, -⟩
    · rw [hfailure] at hown
      cases hown
    · rw [hfindings] at hf
      cases hf

theorem mute_iff (h : c.Completes [] e hs) :
    c.fault ≠ none ∧ hs = [] ↔ e.findings = [] ∧ e.failure ≠ none := by
  have hsilence := h.silence_iff
  have hsilent := h.silent
  tauto

end Capture.Completes

/-- A run that yields an emission, whatever else it writes down, and calls no listener itself. -/
def Gate.Emits (run : Gate Emission) (t : FileTree) (e : Emission) (u : FileTree) : Prop :=
  ∃ es, run.Yields t e u es ∧ heard es = []

theorem Gate.Emits.unique {run : Gate Emission} {t u v : FileTree} {e e' : Emission}
    (h : run.Emits t e u) (h' : run.Emits t e' v) : e = e' ∧ u = v := by
  obtain ⟨es, hrun, -⟩ := h
  obtain ⟨fs, hrun', -⟩ := h'
  exact ⟨hrun.value_eq.symm.trans hrun'.value_eq, hrun.after_eq.symm.trans hrun'.after_eq⟩

theorem Gate.Emits.after_record {run : Gate Emission} {t u : FileTree} {e : Emission}
    (h : run.Emits t e u) {event : Event} (hevent : ∀ f, event ≠ .heard f) :
    (do Gate.record event; run : Gate Emission).Emits t e u := by
  obtain ⟨es, hrun, hes⟩ := h
  exact ⟨_, (Yields.record event t).bind hrun, by simp [hevent, hes]⟩

theorem Collector.follow_one {run : Gate Emission} {t u : FileTree} {e : Emission}
    (h : run.Emits t e u) :
    ∃ es, (empty.follow [run]).Yields t e.capture u es ∧
      e.capture.Completes [] e (heard es) := by
  obtain ⟨es, hrun, hes⟩ := h
  obtain ⟨fs, hreceive, hcompletes⟩ := e.capture_spec
  have hheard : heard (es ++ (fs ++ [])) = heard fs := by simp [hes]
  rw [← hheard] at hcompletes
  refine ⟨_, hrun.bind ((hreceive u).bind ?_), hcompletes⟩
  cases hfault : e.capture.fault with
  | some fault => exact .pure _ u
  | none =>
    have hcapture : e.capture = ⟨e.capture.collector, none⟩ := by rw [← hfault]
    rw [hcapture]
    exact .pure _ u

namespace Session

variable {t : FileTree}

/-- A session whose opening is refused has no run, and its listener hears nothing. -/
theorem hold_refused (s : Session) {fault : Fault}
    (h : s.opening.findSome? (SessionStep.refusal? t) = some fault) :
    ∃ es, s.hold.Yields t (.refused fault) t es ∧ heard es = [] := by
  obtain ⟨es, hopening, hes⟩ := SessionStep.runAll_yields s.opening t
  rw [h] at hopening
  exact ⟨_, (Yields.record _ t).bind (hopening.bind (.pure _ t)), by simp [hes]⟩

/-- A session that is opened comes to the capture of its run, however it is closed. -/
theorem hold_opened (s : Session) {run : Gate Emission} {u : FileTree} {e : Emission}
    (h : s.opening.findSome? (SessionStep.refusal? t) = none) (hruns : s.runs = [run])
    (hrun : run.Emits t e u) :
    ∃ es, s.hold.Yields t e.capture u es ∧ e.capture.Completes [] e (heard es) := by
  obtain ⟨es, hopening, hes⟩ := SessionStep.runAll_yields s.opening t
  rw [h] at hopening
  obtain ⟨fs, hfollow, hcompletes⟩ := Collector.follow_one hrun
  obtain ⟨gs, hclosing, hgs⟩ := SessionStep.runAll_yields s.closing u
  rw [hold, hruns]
  refine ⟨_, (Yields.record _ t).bind (hopening.bind ((Yields.record _ t).bind
    (hfollow.bind (hclosing.discard.bind ((Yields.record _ u).bind (.pure _ u)))))), ?_⟩
  simpa [hes, hgs] using hcompletes

end Session

/-- The engine's runs see nothing of the gate but the file tree, and call no listener. -/
def Engine.Lawful (e : Engine) : Prop :=
  ∀ config files t, ∃ emission u, (e.run config files).Emits t emission u

namespace Runner

/-- How a check runs on a sample over a file tree: the capture, the tree that is left, and what was
heard. -/
inductive Captures (r : Runner) (t : FileTree) (check : Check) (sample : String) :
    Capture → FileTree → List Finding → Prop
  /-- A part of the run is missing. -/
  | missing {fault : Fault} (target : r.target t check sample = .error fault) :
    r.Captures t check sample (.refused fault) t []
  /-- The engine refuses the configuration. -/
  | refused {target : Target} {fault : Fault} (found : r.target t check sample = .ok target)
      (refusal : (target.engine.opening target.config).findSome? (SessionStep.refusal? t) =
        some fault) :
    r.Captures t check sample (.refused fault) t []
  | ran {target : Target} {e : Emission} {u : FileTree} {hs : List Finding}
      (found : r.target t check sample = .ok target)
      (opened : (target.engine.opening target.config).findSome? (SessionStep.refusal? t) = none)
      (emits : (target.engine.run target.config [target.sample]).Emits t e u)
      (completes : e.capture.Completes [] e hs) :
    r.Captures t check sample e.capture u hs

/-- A capture without a fault holds what was heard. -/
theorem Captures.holds {r : Runner} {t u : FileTree} {check : Check} {sample : String}
    {capture : Capture} {hs : List Finding} (h : r.Captures t check sample capture u hs)
    (hfault : capture.fault = none) : capture.collector.Holds hs := by
  cases h with
  | missing target => cases hfault
  | refused found refusal => cases hfault
  | ran found opened emits completes =>
    obtain ⟨-, rfl, hholds⟩ := completes.complete hfault
    exact hholds

def Lawful (r : Runner) : Prop := ∀ entry ∈ r.engines, entry.2.Lawful

variable {r : Runner}

theorem engineFor_of_target {t : FileTree} {check : Check} {sample : String} {target : Target}
    (h : r.target t check sample = .ok target) : r.engineFor check = .ok target.engine := by
  simp only [Runner.target, bind_eq_ok_iff] at h
  obtain ⟨fixture, -, path, -, engine, hengine, h⟩ := h
  cases h
  exact hengine

theorem mem_of_engineFor {check : Check} {engine : Engine}
    (h : r.engineFor check = .ok engine) : (check.engine, engine) ∈ r.engines := by
  rw [Runner.engineFor] at h
  cases hlookup : r.engines.lookup check.engine with
  | none => rw [hlookup] at h; cases h
  | some engine' =>
    rw [hlookup] at h
    cases h
    obtain ⟨before, after, hentries, -⟩ := List.lookup_eq_some_iff.mp hlookup
    simp [hentries]

theorem Lawful.engineFor (h : r.Lawful) {check : Check} {engine : Engine}
    (hengine : r.engineFor check = .ok engine) : engine.Lawful :=
  h (check.engine, engine) (mem_of_engineFor hengine)

theorem capture_yields_of_target {check : Check} {sample : String} {t : FileTree}
    (h : ∀ target, r.target t check sample = .ok target → target.engine.Lawful) :
    ∃ capture u es, (r.capture check sample).Yields t capture u es ∧
      r.Captures t check sample capture u (heard es) := by
  rw [capture]
  cases htarget : r.target t check sample with
  | error fault =>
    refine ⟨.refused fault, t, [] ++ [], (Yields.files t).bind ?_, .missing htarget⟩
    rw [htarget]
    exact .pure _ t
  | ok target =>
    let session := target.engine.session target.config [[target.sample]]
    have hstart : ∀ {capture u es}, session.hold.Yields t capture u es →
        ∃ fs, (r.capture check sample).Yields t capture u fs ∧ heard fs = heard es := by
      intro capture u es hhold
      let start := Event.told .debug s!"Running {check} on {target.sample.name}"
      refine ⟨[] ++ ([start] ++ es), (Yields.files t).bind ?_, ?_⟩
      · rw [htarget]
        exact (Yields.tell _ _ t).bind hhold
      · simp [start]
    cases hopening : (target.engine.opening target.config).findSome? (SessionStep.refusal? t) with
    | some fault =>
      obtain ⟨es, hhold, hes⟩ := session.hold_refused hopening
      obtain ⟨fs, hcapture, hfs⟩ := hstart hhold
      exact ⟨_, _, _, hcapture, by rw [hfs, hes]; exact .refused htarget hopening⟩
    | none =>
      obtain ⟨e, u, hemits⟩ := h target htarget target.config [target.sample] t
      obtain ⟨es, hhold, hcompletes⟩ := session.hold_opened hopening rfl
        (hemits.after_record (fun f h => by cases h))
      obtain ⟨fs, hcapture, hfs⟩ := hstart hhold
      exact ⟨_, _, _, hcapture, by rw [hfs]; exact .ran htarget hopening hemits hcompletes⟩

theorem capture_yields (h : r.Lawful) (check : Check) (sample : String) (t : FileTree) :
    ∃ capture u es, (r.capture check sample).Yields t capture u es ∧
      r.Captures t check sample capture u (heard es) :=
  capture_yields_of_target fun _ htarget => h.engineFor (engineFor_of_target htarget)

end Runner

end LintGate
