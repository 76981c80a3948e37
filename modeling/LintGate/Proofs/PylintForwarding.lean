import LintGate.Proofs.CheckSession
import LintGate.Proofs.LineProjection
import LintGate.Proofs.RunLock
import LintGate.Proofs.SessionTrace
import LintGate.Proofs.SuiteOrder

/-! # What runs of Pylint hand on

A run of Pylint hands every message on as it is emitted, as one finding whose key is that of the
message. If it leaves by an exit status, that is the fault of its session, whatever was heard
before. The session clears the cache and gives the lock back all the same, and the guard of the
suite makes an outcome of the fault that holds nothing else. A line without a numeral ends the
session at its message, and a status that cannot be written is no fault of the configuration.
-/

namespace LintGate

open Gate

namespace Pylint

/-- What is captured of a message at a line: the line only if it is about a rule. -/
def key (m : PylintMessage) (line : Nat) : Key :=
  if m.symbol ∈ configSymbols then ⟨0, .text m.text⟩
  else if m.symbol ∈ processingSymbols then ⟨0, .text (m.text ++ s!" ({m.symbol})")⟩
  else ⟨line, .text m.text⟩

theorem key?_finding {m : PylintMessage} {line : Nat} (h : m.line = .int line) :
    (finding m).key? = some (key m line) := by
  rw [finding, key]
  by_cases hconfig : m.symbol ∈ configSymbols
  · rw [if_pos (List.contains_iff_mem.mpr hconfig), if_pos hconfig]
    rfl
  · rw [if_neg (mt List.contains_iff_mem.mp hconfig), if_neg hconfig]
    by_cases hprocessing : m.symbol ∈ processingSymbols
    · rw [if_pos (List.contains_iff_mem.mpr hprocessing), if_pos hprocessing]
      rfl
    · rw [if_neg (mt List.contains_iff_mem.mp hprocessing), if_neg hprocessing]
      exact Finding.key?_rule h

theorem key_line_nonneg (m : PylintMessage) (line : Nat) : 0 ≤ (key m line).line := by
  rw [key]
  split_ifs
  · exact Int.le_refl 0
  · exact Int.le_refl 0
  · exact Int.natCast_nonneg line

theorem hasTexts_finding (m : PylintMessage) : (finding m).HasTexts := by
  rw [finding]
  split
  · trivial
  · split
    all_goals exact ⟨⟨_, rfl⟩, _, rfl⟩

theorem exists_toViolation {m : PylintMessage} (h : (finding m).HasWritableLines) :
    ∃ v, (finding m).toViolation = .ok v :=
  Finding.exists_toViolation (hasTexts_finding m) h

theorem hasWritableLines_finding {m : PylintMessage} {line : Nat} (hline : m.line = .int line)
    (hshort : line < Text.Numeral.bound) (hend : m.endLine = .null) :
    (finding m).HasWritableLines := by
  have hwritable : m.line.isWritable = true := hline ▸ Datum.isWritable_int.mpr hshort
  rw [finding]
  split
  · trivial
  · split
    · trivial
    · refine ⟨hwritable, ?_⟩
      rw [RuleFinding.endLine, if_pos hend]
      exact hwritable

theorem emission_exited (config : Path) (status : Datum) : ∃ fault, ∀ messages,
    emission config ⟨messages, .exited status⟩ = ⟨messages.map finding, some fault⟩ := by
  simp only [emission]
  cases status.render? with
  | some shown => exact ⟨_, fun _ => rfl⟩
  | none => exact ⟨_, fun _ => rfl⟩

/-- Only a finding about a rule can have a line that cannot be written, and it has no violation. -/
theorem toViolation_of_unwritable {m : PylintMessage} (h : ¬ (finding m).HasWritableLines) :
    (finding m).toViolation = .error .unwritable := by
  generalize finding m = f at h ⊢
  cases f with
  | rule f => exact RuleFinding.toViolation_eq_error_iff.mpr ⟨h, rfl⟩
  | processing f => exact absurd trivial h
  | config f => exact absurd trivial h
  | foreign typeName => exact absurd trivial h

theorem keys_of_holds {c : Collector} {messages : List PylintMessage} {lines : List Nat}
    (h : c.Holds (messages.map finding))
    (hlines : List.Forall₂ (fun m (n : Nat) => m.line = .int n) messages lines) :
    c.keys = .ok (List.zipWith key messages lines) := by
  have hkeys : List.Forall₂ (fun f k => f.key? = some k) (messages.map finding)
      (List.zipWith key messages lines) := by
    clear h
    induction hlines with
    | nil => exact .nil
    | cons hline _ ih => exact .cons (key?_finding hline) ih
  refine (h.keys_eq hkeys fun k hk => ?_).1
  rw [← List.map_uncurry_zip_eq_zipWith] at hk
  obtain ⟨⟨m, line⟩, -, rfl⟩ := List.mem_map.mp hk
  exact key_line_nonneg m line

theorem opening_eq (config : Path) : opening config = checks config ++ taking config := rfl

theorem findSome?_opening_eq_none_iff {t : FileTree} {config : Path} :
    (opening config).findSome? (SessionStep.refusal? t) = none ↔ Accepts t config := by
  have htaking : (taking config).findSome? (SessionStep.refusal? t) = none := rfl
  rw [opening_eq, List.findSome?_append, htaking, Option.or_none, accepts_iff]

theorem flatMap_written_opening (config : Path) : (opening config).flatMap SessionStep.written =
    [.locked, .told .debug s!"Pylint session opened with {config}"] := by
  have hchecks : (checks config).flatMap SessionStep.written = [] :=
    List.flatMap_eq_nil_iff.mpr fun _ hstep => written_of_mem_checks hstep
  rw [opening_eq, List.flatMap_append, hchecks]
  rfl

namespace Job

/-- The events of a run over some files from which the listener hears these messages. -/
def said (config : Path) (files : List Path) (messages : List PylintMessage) : List Event :=
  .processed engineName config files :: .analyzed (arguments config files) ::
    (messages.map finding).map .heard

def saidBefore (config : Path) (runs : List (List Path × PylintRun)) : List Event :=
  runs.flatMap fun entry => said config entry.1 entry.2.messages

def messagesOf (runs : List (List Path × PylintRun)) : List PylintMessage :=
  runs.flatMap fun entry => entry.2.messages

def journal (config : Path) (es : List Event) : List Event :=
  [.requested engineName config, .locked, .told .debug s!"Pylint session opened with {config}",
      .opened engineName config] ++ es ++
    [.cacheCleared, .told .debug s!"Pylint session closed for {config}", .unlocked,
      .closed engineName config]

@[simp] theorem heard_said (config : Path) (files : List Path) (messages : List PylintMessage) :
    heard (said config files messages) = messages.map finding :=
  heard_map_heard _

@[simp] theorem heard_saidBefore (config : Path) (runs : List (List Path × PylintRun)) :
    heard (saidBefore config runs) = (messagesOf runs).map finding := by
  induction runs with
  | nil => rfl
  | cons entry rest ih =>
    rw [saidBefore, List.flatMap_cons, heard_append, heard_said]
    rw [messagesOf, List.flatMap_cons, List.map_append]
    exact congrArg _ ih

theorem holds_journal (config : Path) (es : List Event) (before : Bool) :
    (journal config es).foldl Event.holds before = false := by
  rw [journal, List.foldl_append]
  rfl

/-- In a state, a session comes to a capture and writes its journal down, with the events of its
runs. It leaves the tree as it was and the lock free. -/
def RunsTo (job : Job) (g : GateState) (capture : Capture) (es : List Event) : Prop :=
  job.session.hold.run g = (capture, ⟨g.files, false, g.journal ++ journal job.config es⟩)

section Leads

variable (job : Job) (t : FileTree)

theorem leads_opened (haccepts : Accepts t job.config) :
    job.session.Leads t .requested (.running .empty job.session.runs)
      [.requested engineName job.config, .locked,
        .told .debug s!"Pylint session opened with {job.config}",
        .opened engineName job.config] := by
  have hopening := job.session.leads_opening (findSome?_opening_eq_none_iff.mpr haccepts)
  rw [flatMap_written_opening] at hopening
  exact .step .requested (hopening.trans (.single .opened))

theorem leads_closed (capture : Capture) :
    job.session.Leads t (.closing capture (closing job.config)) (.ended capture)
      [.cacheCleared, .told .debug s!"Pylint session closed for {job.config}", .unlocked,
        .closed engineName job.config] := by
  have hgranted : (closing job.config).findSome? (SessionStep.refusal? t) = none := rfl
  exact (job.session.leads_closing capture hgranted).trans (.single .closed)

theorem runsTo_of_leads {g : GateState} (haccepts : Accepts g.files job.config) {capture : Capture}
    {es : List Event} (h : job.session.Leads g.files (.running .empty job.session.runs)
      (.closing capture (closing job.config)) es) : job.RunsTo g capture es := by
  have hleads : job.session.Leads g.files .requested (.ended capture) (journal job.config es) :=
    ((job.leads_opened g.files haccepts).trans h).trans (job.leads_closed g.files capture)
  rw [RunsTo, hleads.hold_run rfl, holds_journal]

variable {c : Collector} {held : List Finding}

theorem leads_messages (hc : c.Holds held) (files : List Path) {first : List PylintMessage}
    (hfirst : ∀ m ∈ first, (finding m).HasWritableLines) (rest : List PylintMessage)
    (ending : PylintEnd) (runs : List (List Path × PylintRun)) :
    ∃ c', c'.Holds (held ++ first.map finding) ∧
      job.session.Leads t (.running c (acts job.config ((files, ⟨first ++ rest, ending⟩) :: runs)))
        (.hearing c' (emission job.config ⟨rest, ending⟩) (acts job.config runs))
        (said job.config files first) := by
  have hviolations : ∀ f ∈ first.map finding, ∃ v, f.toViolation = .ok v := by
    rw [List.forall_mem_map]
    exact fun m hm => exists_toViolation (hfirst m hm)
  have hact : job.session.Moves t
      (.running c (acts job.config ((files, ⟨first ++ rest, ending⟩) :: runs)))
      (.hearing c (emission job.config ⟨first ++ rest, ending⟩) (acts job.config runs))
      [.processed engineName job.config files, .analyzed (arguments job.config files)] :=
    moves_act (files, ⟨first ++ rest, ending⟩) runs
  rw [emission, List.map_append] at hact
  obtain ⟨c', hc', hhearing⟩ := job.session.leads_hearing t hc hviolations (rest.map finding) _ _
  exact ⟨c', hc', .step hact hhearing⟩

theorem leads_returned (hc : c.Holds held) {before : List (List Path × PylintRun)}
    (hreturned : ∀ entry ∈ before, entry.2.ending = .returned)
    (hwritable : ∀ m ∈ messagesOf before, (finding m).HasWritableLines)
    (runs : List (List Path × PylintRun)) :
    ∃ c', c'.Holds (held ++ (messagesOf before).map finding) ∧
      job.session.Leads t (.running c (acts job.config (before ++ runs)))
        (.running c' (acts job.config runs)) (saidBefore job.config before) := by
  -- A run that returns leaves the next one a collector that holds more.
  induction before generalizing c held with
  | nil => exact ⟨c, by rwa [messagesOf, List.flatMap_nil, List.map_nil, List.append_nil], .refl _⟩
  | cons entry before ih =>
    obtain ⟨files, messages, ending⟩ := entry
    rw [List.forall_mem_cons] at hreturned
    obtain ⟨rfl : ending = .returned, hrest⟩ := hreturned
    rw [messagesOf, List.flatMap_cons, List.forall_mem_append] at hwritable
    obtain ⟨c₁, hc₁, hrun⟩ :=
      job.leads_messages t hc files hwritable.1 [] .returned (before ++ runs)
    obtain ⟨c₂, hc₂, hbefore⟩ := ih hc₁ hrest hwritable.2
    rw [List.append_nil] at hrun
    rw [List.append_assoc, ← List.map_append] at hc₂
    exact ⟨c₂, hc₂, hrun.trans (.step .returned hbefore)⟩

/-- The listener has heard the runs that return, and the first messages of the next one. -/
theorem leads_first {before behind : List (List Path × PylintRun)} {files : List Path}
    {first rest : List PylintMessage} {ending : PylintEnd}
    (hruns : job.runs = before ++ (files, ⟨first ++ rest, ending⟩) :: behind)
    (hreturned : ∀ entry ∈ before, entry.2.ending = .returned)
    (hwritable : ∀ m ∈ messagesOf before ++ first, (finding m).HasWritableLines) :
    ∃ c, c.Holds ((messagesOf before ++ first).map finding) ∧
      job.session.Leads t (.running .empty job.session.runs)
        (.hearing c (emission job.config ⟨rest, ending⟩) (acts job.config behind))
        (saidBefore job.config before ++ said job.config files first) := by
  rw [List.forall_mem_append] at hwritable
  obtain ⟨c₁, hc₁, hbefore⟩ := job.leads_returned t Collector.empty_holds hreturned hwritable.1
    ((files, ⟨first ++ rest, ending⟩) :: behind)
  obtain ⟨c, hc, hfirst⟩ := job.leads_messages t hc₁ files hwritable.2 rest ending behind
  rw [List.nil_append, ← List.map_append] at hc
  rw [← hruns] at hbefore
  exact ⟨c, hc, hbefore.trans hfirst⟩

end Leads

section Sessions

variable {job : Job} {before behind : List (List Path × PylintRun)} {files : List Path}
  {first rest : List PylintMessage} {ending : PylintEnd} {g : GateState}

/-- A run that does not return, or behind which there is no other, is the last one of its session.
If all messages up to its end have lines that can be written, each of them is heard and held. -/
theorem runsTo_of_writable (haccepts : Accepts g.files job.config)
    (hruns : job.runs = before ++ (files, ⟨first, ending⟩) :: behind)
    (hreturned : ∀ entry ∈ before, entry.2.ending = .returned)
    (hlast : ending = .returned → behind = [])
    (hwritable : ∀ m ∈ messagesOf before ++ first, (finding m).HasWritableLines) :
    ∃ c, c.Holds ((messagesOf before ++ first).map finding) ∧
      job.RunsTo g ⟨c, (emission job.config ⟨first, ending⟩).failure⟩
        (saidBefore job.config before ++ said job.config files first) := by
  rw [← List.append_nil first] at hruns
  obtain ⟨c, hc, hfirst⟩ := job.leads_first g.files hruns hreturned hwritable
  have hend : job.session.Leads g.files
      (.hearing c (emission job.config ⟨[], ending⟩) (acts job.config behind))
      (.closing ⟨c, (emission job.config ⟨first, ending⟩).failure⟩ (closing job.config)) [] := by
    cases ending with
    | returned =>
      cases hlast rfl
      exact .step .returned (.single .heard_all)
    | exited status =>
      obtain ⟨fault, hfault⟩ := emission_exited job.config status
      rw [hfault, hfault]
      exact .single .failed
    | failed fault => exact .single .failed
  have hleads := hfirst.trans hend
  rw [List.append_nil] at hleads
  exact ⟨c, hc, job.runsTo_of_leads haccepts hleads⟩

/-- The first message with a line that cannot be written is the last one that is heard. -/
theorem runsTo_of_unwritable (haccepts : Accepts g.files job.config) {m : PylintMessage}
    (hruns : job.runs = before ++ (files, ⟨first ++ m :: rest, ending⟩) :: behind)
    (hreturned : ∀ entry ∈ before, entry.2.ending = .returned)
    (hwritable : ∀ m ∈ messagesOf before ++ first, (finding m).HasWritableLines)
    (hm : ¬ (finding m).HasWritableLines) :
    ∃ c, job.RunsTo g ⟨c, some .unwritable⟩
      (saidBefore job.config before ++ said job.config files (first ++ [m])) := by
  obtain ⟨c, -, hfirst⟩ := job.leads_first g.files hruns hreturned hwritable
  have hrefused := c.record_of_error (toViolation_of_unwritable hm)
  have hleads := hfirst.trans (.single (.unheard hrefused))
  have hsaid : said job.config files first ++ [.heard (finding m)] =
      said job.config files (first ++ [m]) := by
    simp [said]
  rw [List.append_assoc, hsaid] at hleads
  exact ⟨_, job.runsTo_of_leads haccepts hleads⟩

end Sessions

end Job

/-- What is told of a run that left by a status. -/
def exitMessage (status : String) (config : Path) : String :=
  s!"Pylint exited with status {status} using configuration {config}"

theorem message_exited (status : String) (config : Path) :
    (Fault.exited engineName status config).message = exitMessage status config := by
  have hstart : Fault.title engineName ++ " exited with status " =
      "Pylint exited with status " := by decide +kernel
  change Fault.title engineName ++ " exited with status " ++ _ ++ _ ++ _ = _
  rw [hstart]
  rfl

end Pylint

namespace Runner

/-- A check asks Pylint for a run on a sample. The messages of the run have lines that can be
written, and it leaves by an exit status with a text. -/
structure Exits (r : Runner) (runOf : Path → List Path → PylintRun) (t : FileTree) (check : Check)
    (sample status : String) : Prop where
  ready : r.Ready t check sample (Pylint.engine runOf)
  accepts : Pylint.Accepts t (r.fixture check).config
  ending : ∃ d, (runOf (r.fixture check).config [(r.fixture check).sample sample]).ending =
    .exited d ∧ d.render? = some status
  writable : ∀ m ∈ (runOf (r.fixture check).config [(r.fixture check).sample sample]).messages,
    (Pylint.finding m).HasWritableLines

variable {r : Runner} {runOf : Path → List Path → PylintRun} {t u : FileTree} {check : Check}
  {sample status : String}

def exitOutcome (r : Runner) (check : Check) (sample status : String) : Outcome :=
  .ofError check sample (Pylint.exitMessage status (r.fixture check).config)

theorem Exits.capture (h : r.Exits runOf t check sample status) :
    ∃ capture es, (r.capture check sample).Yields t capture t es ∧
      capture.fault = some (.exited Pylint.engineName status (r.fixture check).config) := by
  obtain ⟨hready, haccepts, ⟨d, hending, hstatus⟩, hwritable⟩ := h
  have hgranted := Pylint.findSome?_opening_eq_none_iff.mpr haccepts
  obtain ⟨capture, ⟨es, hcapture, -⟩, htakes⟩ :=
    hready.capture_held hgranted (Pylint.run_recounts _ _ (runOf _ _) t)
  refine ⟨capture, es, hcapture, ?_⟩
  rw [htakes.fault_eq]
  · simp only [Pylint.emission, hending, hstatus]
  · rw [Pylint.emission, List.forall_mem_map]
    exact fun m hm => Pylint.exists_toViolation (hwritable m hm)

theorem settle_exited (r : Runner) (check : Check) (sample status : String) :
    settle check sample (.error (.exited Pylint.engineName status (r.fixture check).config)) =
      .ok (r.exitOutcome check sample status) := by
  rw [exitOutcome, ← Pylint.message_exited]
  rfl

theorem Exits.verifyViolating (h : r.Exits runOf t check Sample.invalid status) :
    ∃ es, (r.verifyViolating check).Yields t
      (.error (.exited Pylint.engineName status (r.fixture check).config)) t es := by
  obtain ⟨capture, es, hcapture, hfault⟩ := h.capture
  exact ⟨es, verifyViolating_fault hcapture hfault⟩

theorem Exits.verifyClean (h : r.Exits runOf t check Sample.valid status) :
    ∃ es, (r.verifyClean check).Yields t
      (.error (.exited Pylint.engineName status (r.fixture check).config)) t es := by
  obtain ⟨capture, es, hcapture, hfault⟩ := h.capture
  exact ⟨es, verifyClean_fault hcapture hfault⟩

/-- A check of Pylint leaves the tree as it is. -/
theorem after_verifyViolating_of_pylint (hr : r.Lawful)
    (hengine : r.engines.lookup check.engine = some (Pylint.engine runOf)) (t : FileTree) :
    (r.verifyViolating check).after t = t := by
  obtain ⟨capture, u, es, hcapture, hcaptures⟩ := capture_yields hr check Sample.invalid t
  rw [after_verifyViolating hr, hcapture.after_eq]
  generalize heard es = hs at hcaptures
  -- Only a session that is granted gets as far as the engine.
  cases hcaptures with
  | missing => rfl
  | refused => rfl
  | @ran target _ _ _ found _ emits _ =>
    have htarget := (ready_of_target found).engine
    rw [hengine, Option.some.injEq] at htarget
    rw [← htarget] at emits
    exact (emits.unique (Pylint.run_emits _ _ _ t)).2

end Runner

/-- Up to the end of the last run that a session of Pylint does, each message that is emitted is
heard once, in the order of the emission, and captured with its own key if its line is an integer
from zero on. A message at a line that cannot be written is the last one that is heard. A run that
leaves by an exit status with a text ends its session with a fault of the configuration, whatever
was heard before; a status without one is another fault. In each case the session is closed and the
lock given back. A protocol with a run that leaves comes to a failed outcome that holds the error
and nothing else, which is also the outcome in the report of a suite. -/
theorem Pylint.forwards_messages :
    (∀ (job : Job) (g : GateState) (before behind : List (List Path × PylintRun))
        (files : List Path) (messages : List PylintMessage) (ending : PylintEnd),
      job.runs = before ++ (files, ⟨messages, ending⟩) :: behind →
      (∀ entry ∈ before, entry.2.ending = .returned) → Accepts g.files job.config →
      ((∀ m ∈ Job.messagesOf before ++ messages, (finding m).HasWritableLines) →
        (ending = .returned → behind = []) →
        let emitted := Job.messagesOf before ++ messages
        let es := Job.saidBefore job.config before ++ Job.said job.config files messages
        heard es = emitted.map finding ∧
          ∃ c, job.RunsTo g ⟨c, (emission job.config ⟨messages, ending⟩).failure⟩ es ∧
            c.invocations = emitted.length ∧
            ∀ lines, List.Forall₂ (fun m (n : Nat) => m.line = .int n) emitted lines →
              c.keys = .ok (List.zipWith key emitted lines)) ∧
      ∀ first m rest, messages = first ++ m :: rest →
        (∀ m ∈ Job.messagesOf before ++ first, (finding m).HasWritableLines) →
        ¬ (finding m).HasWritableLines →
        ∃ c, job.RunsTo g ⟨c, some .unwritable⟩
          (Job.saidBefore job.config before ++ Job.said job.config files (first ++ [m]))) ∧
    (∀ (config : Path) (r : PylintRun) (d : Datum), r.ending = .exited d →
      (∀ status, d.render? = some status → ∃ fault, (emission config r).failure = some fault ∧
        fault.kind = .configuration ∧ fault.message = exitMessage status config) ∧
      (d.render? = none → (emission config r).failure = some .unwritable)) ∧
    ∀ (runner : Runner) (runOf : Path → List Path → PylintRun) (u : FileTree) (check : Check)
        (status : String),
      (runner.Exits runOf u check Sample.invalid status →
        (Runner.guarded check Sample.invalid (runner.verifyViolating check)).value u =
          .ok (runner.exitOutcome check Sample.invalid status)) ∧
      (runner.Exits runOf u check Sample.valid status →
        (Runner.guarded check Sample.valid (runner.verifyClean check)).value u =
          .ok (runner.exitOutcome check Sample.valid status)) ∧
      ∀ (registry : Registry) (workers : Int) (t : FileTree) (report : Report) (i : Nat),
        runner.Lawful → (runner.verifySuite registry workers).value t = .ok report →
        (runner.turns t registry.checks)[i]? = some (check, u) →
        (runner.Exits runOf u check Sample.invalid status →
          report.outcomes[2 * i]? = some (runner.exitOutcome check Sample.invalid status)) ∧
        (runner.Exits runOf u check Sample.valid status →
          report.outcomes[2 * i + 1]? =
            some (runner.exitOutcome check Sample.valid status)) := by
  refine ⟨?_, ?_, ?_⟩
  · intro job g before behind files messages ending hruns hreturned haccepts
    constructor
    · intro hwritable hlast
      -- No message is refused, so that the collector holds every one up to the last run.
      obtain ⟨c, hc, hrunsTo⟩ := Job.runsTo_of_writable haccepts hruns hreturned hlast hwritable
      refine ⟨by simp, c, hrunsTo, ?_, fun lines => keys_of_holds hc⟩
      rw [hc.2, List.length_map]
    · intro first m rest hmessages hwritable hm
      rw [hmessages] at hruns
      exact Job.runsTo_of_unwritable haccepts hruns hreturned hwritable hm
  · intro config r d hd
    simp only [emission, hd]
    constructor
    · intro status hstatus
      exact ⟨.exited engineName status config, by rw [hstatus], rfl, message_exited status config⟩
    · intro hnone
      rw [hnone]
  · intro runner runOf u check status
    refine ⟨fun h => ?_, fun h => ?_, ?_⟩
    · obtain ⟨es, hviolating⟩ := h.verifyViolating
      obtain ⟨fs, hguarded⟩ := Runner.guarded_yields check Sample.invalid hviolating
      rw [hguarded.value_eq, Runner.settle_exited]
    · obtain ⟨es, hclean⟩ := h.verifyClean
      obtain ⟨fs, hguarded⟩ := Runner.guarded_yields check Sample.valid hclean
      rw [hguarded.value_eq, Runner.settle_exited]
    · intro registry workers t report i hlawful hreport hturn
      obtain ⟨violating, clean, hviolating, hclean, heven, hodd⟩ :=
        Runner.outcomes_at_turn hlawful hreport hturn
      constructor
      · intro h
        obtain ⟨es, hyields⟩ := h.verifyViolating
        rw [hyields.value_eq, Runner.settle_exited] at hviolating
        cases hviolating
        exact heven
      · intro h
        obtain ⟨es, hyields⟩ := h.verifyClean
        rw [Runner.after_verifyViolating_of_pylint hlawful h.ready.engine, hyields.value_eq,
          Runner.settle_exited] at hclean
        cases hclean
        exact hodd

namespace Runner

def exitingRun (files : List Path) : PylintRun :=
  { importRun files with ending := .exited (.int 32) }

def exitingRunner : Runner :=
  ⟨[(Pylint.engineName, Pylint.engine fun _ files => exitingRun files)], ⟨⟨0, ["checks"]⟩⟩⟩

/-- The imports are captured as they are expected, and yet both protocols fail with the status. -/
theorem forwards_messages_of_exit :
    let tree := fixtureTree [(importCheck,
      "2: Unused import os\n10:Unused import os\n10: Unused import os".toUTF8.toList)]
    let fixture := exitingRunner.fixture importCheck
    let files := [fixture.sample Sample.invalid]
    let job : Pylint.Job := ⟨fixture.config, [(files, exitingRun files)]⟩
    (∃ capture captured expected, (job.session.hold.run (.start tree)).1 = capture ∧
        (job.session.hold.run (.start tree)).2.locked = false ∧
        capture.fault = some (.exited Pylint.engineName "32" fixture.config) ∧
        capture.collector.keys = .ok captured ∧
        exitingRunner.expected tree importCheck = .ok expected ∧
        captured.Perm (expected.map Expectation.key)) ∧
      ∃ report, (exitingRunner.verifySuite ⟨[importCheck]⟩ 1).value tree = .ok report ∧
        report.outcomes[0]? =
          some (exitingRunner.exitOutcome importCheck Sample.invalid "32") ∧
        report.outcomes[1]? =
          some (exitingRunner.exitOutcome importCheck Sample.valid "32") := by
  intro tree fixture files job
  have hwritable : ∀ files, ∀ m ∈ (exitingRun files).messages,
      (Pylint.finding m).HasWritableLines := by
    intro files m hm
    simp only [exitingRun, importRun] at hm
    split_ifs at hm
    · simp only [List.mem_cons, List.not_mem_nil, or_false] at hm
      rcases hm with rfl | rfl | rfl
      all_goals
        refine Pylint.hasWritableLines_finding rfl ?_ rfl
        exact Text.Numeral.lt_bound 2 (by decide) (by decide)
    · cases hm
  have haccepts : Pylint.Accepts tree fixture.config :=
    ⟨by decide +kernel, fun _ => by decide +kernel⟩
  have hstatus : (Datum.int 32).render? = some "32" := by decide +kernel
  have hexits : ∀ sample, (∀ n ∈ exitingRunner.needs importCheck sample, n.Met tree) →
      exitingRunner.Exits (fun _ files => exitingRun files) tree importCheck sample "32" :=
    fun sample hneeds => ⟨⟨hneeds, rfl⟩, haccepts, ⟨_, rfl, hstatus⟩, hwritable _⟩
  have hinvalid : ∀ n ∈ exitingRunner.needs importCheck Sample.invalid, n.Met tree := by
    simp only [needs, List.forall_mem_cons]
    exact ⟨⟨.directory, by decide +kernel, rfl⟩, ⟨.file [], by decide +kernel, rfl⟩,
      ⟨.file [], by decide +kernel, rfl⟩, by simp⟩
  have hvalid : ∀ n ∈ exitingRunner.needs importCheck Sample.valid, n.Met tree := by
    simp only [needs, List.forall_mem_cons]
    exact ⟨⟨.directory, by decide +kernel, rfl⟩, ⟨.file [], by decide +kernel, rfl⟩,
      ⟨.file [], by decide +kernel, rfl⟩, by simp⟩
  obtain ⟨hsessions, -, hprotocols⟩ := Pylint.forwards_messages
  constructor
  · obtain ⟨hforwards, -⟩ := hsessions job (.start tree) [] [] files (exitingRun files).messages _
      rfl (by simp) haccepts
    obtain ⟨-, c, hruns, -, hkeys⟩ := hforwards (hwritable files) (fun _ => rfl)
    have hlines : List.Forall₂ (fun m (n : Nat) => m.line = .int n) (exitingRun files).messages
        [10, 2, 10] := .cons rfl (.cons rfl (.cons rfl .nil))
    have hfault : (Pylint.emission job.config (exitingRun files)).failure =
        some (.exited Pylint.engineName "32" fixture.config) := by
      rw [Pylint.emission, exitingRun]
      simp only [hstatus]
      rfl
    refine ⟨⟨c, _⟩, _, [⟨2, "Unused import os"⟩, ⟨10, "Unused import os"⟩,
      ⟨10, "Unused import os"⟩], congrArg Prod.fst hruns, congrArg (·.2.locked) hruns, hfault,
      hkeys _ hlines, by decide +kernel, by decide +kernel⟩
  · have hlawful : exitingRunner.Lawful := by
      simp [exitingRunner, Lawful, Pylint.engine_lawful]
    have hreport : ((exitingRunner.verifySuite ⟨[importCheck]⟩ 1).value tree).toOption.any
        (fun _ => true) = true := by decide +kernel
    obtain ⟨report, hreport, -⟩ := exists_ok_of_any hreport
    obtain ⟨-, -, hsuite⟩ := hprotocols exitingRunner _ tree importCheck "32"
    obtain ⟨heven, hodd⟩ := hsuite ⟨[importCheck]⟩ 1 tree report 0 hlawful hreport rfl
    exact ⟨report, hreport, heven (hexits _ hinvalid), hodd (hexits _ hvalid)⟩

end Runner

/-- Of two messages the second is not heard if the first has a last line without a numeral. A line
that is a truth value keeps a message from having a key, and a status without a numeral is no fault
of the configuration. -/
theorem Pylint.unforwarded_messages :
    let message (line endLine : Datum) : PylintMessage :=
      ⟨"unused-import", "Unused import os", "Invalid.py", "/Invalid.py", line, endLine⟩
    let config : Path := ⟨0, ["config.toml"]⟩
    let files : List Path := [⟨0, ["Invalid.py"]⟩]
    let tree : FileTree := ⟨[(["config.toml"], .file [])], []⟩
    let long : Datum := .int Text.Numeral.bound
    (let messages := [message (.int 1) long, message (.int 1) .null]
      let job : Job := ⟨config, [(files, ⟨messages, .returned⟩)]⟩
      ∃ c es, job.RunsTo (.start tree) ⟨c, some .unwritable⟩ es ∧
        heard es = [finding (message (.int 1) long)]) ∧
      (∃ fault, (Collector.ofFindings [finding (message (.bool true) .null)]).keys =
        .error fault) ∧
      (emission config ⟨[], .exited long⟩).failure = some .unwritable := by
  intro message config files tree long
  have hlong : long.isWritable ≠ true := Datum.not_isWritable_bound
  refine ⟨?_, ⟨.numeral (.malformed "True".toList), by decide +kernel⟩, ?_⟩
  · let messages := [message (.int 1) long, message (.int 1) .null]
    let job : Job := ⟨config, [(files, ⟨messages, .returned⟩)]⟩
    have haccepts : Accepts (GateState.start tree).files job.config :=
      ⟨by decide +kernel, fun _ => by decide +kernel⟩
    have hunwritable : ¬ (finding (message (.int 1) long)).HasWritableLines := fun h => hlong h.2
    have hsplit : job.runs = [] ++ (files, ⟨[] ++ message (.int 1) long ::
      [message (.int 1) .null], .returned⟩) :: [] := rfl
    obtain ⟨c, hruns⟩ := Job.runsTo_of_unwritable haccepts hsplit (by simp)
      (by simp [Job.messagesOf]) hunwritable
    exact ⟨c, _, hruns, rfl⟩
  · have hnone : long.render? = none := by rw [Datum.render?, if_neg hlong]
    simp only [emission, hnone]

end LintGate
