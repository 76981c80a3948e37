import LintGate.Proofs.Fallible
import LintGate.Settings

/-! # What settings answer

A setting has a key, values of one type that it takes, and a default for all others. A value that
is taken is used as it is, and a value that is not gives way to the default. This is warned of once,
with two exceptions: what stands beside the names in a list of checks is left out without a word,
and so is an engine's configuration that is no text or empty.
-/

namespace LintGate

inductive Setting
  | fixturesRoot
  | logDirectory
  | workers
  | ruffTimeout
  | checks
  | engineConfig (engine : String)

inductive Answer
  | path (p : Path)
  | count (n : Int)
  | names (ns : List String)
  /-- No file is set. -/
  | unset

namespace Setting

def key : Setting → String
  | fixturesRoot => "fixtures_root"
  | logDirectory => "log_dir"
  | workers => "workers"
  | ruffTimeout => "ruff_timeout"
  | checks => "checks"
  | engineConfig engine => engine ++ "_config"

/-- A path in settings: it lies under the root unless it is absolute. -/
def placed (root : Path) (raw : String) : Path :=
  let p := Path.ofString raw
  if p.isAbsolute then p else ⟨root.slashes, root.names ++ p.names⟩

def default (root : Path) : Setting → Answer
  | fixturesRoot => .path (placed root "tests/fixtures/checks")
  | logDirectory => .path (placed root ".quality-gate/logs")
  | workers => .count 1
  | ruffTimeout => .count 300
  | checks => .names []
  | engineConfig _ => .unset

/-- A setting takes a value, which comes to an answer. -/
inductive Takes (root : Path) : Setting → Datum → Answer → Prop
  | fixturesRoot (raw : String) : Takes root fixturesRoot (.text raw) (.path (placed root raw))
  | logDirectory (raw : String) : Takes root logDirectory (.text raw) (.path (placed root raw))
  | workers {n : Int} (positive : 0 < n) : Takes root workers (.int n) (.count n)
  | ruffTimeout {n : Int} (positive : 0 < n) : Takes root ruffTimeout (.int n) (.count n)
  | checks (ns : List String) : Takes root checks (.list (ns.map .text)) (.names ns)
  | engineConfig (engine : String) {raw : String} (given : raw ≠ "") :
    Takes root (engineConfig engine) (.text raw) (.path (placed root raw))

/-- What a setting is instead of a value that it does not take: its default, but the texts of a list
of checks are kept. -/
def instead (root : Path) : Setting → Datum → Answer
  | checks, .list items => .names (Settings.texts items)
  | setting, _ => setting.default root

def cautions : Setting → Datum → List String
  | fixturesRoot, _ =>
    ["Configuration Warning: 'fixtures_root' must be a string, using 'tests/fixtures/checks'."]
  | logDirectory, _ =>
    ["Configuration Warning: 'log_dir' must be a string, using '.quality-gate/logs'."]
  | workers, _ => ["Configuration Warning: 'workers' must be a positive integer, using 1."]
  | ruffTimeout, _ =>
    ["Configuration Warning: 'ruff_timeout' must be a positive integer, using 300."]
  | checks, .list _ => []
  | checks, _ => ["Configuration Warning: 'checks' must be a list of names, ignoring it."]
  | engineConfig _, _ => []

/-- The values that are dropped, or have parts dropped, without a warning. -/
def IsSilent : Setting → Datum → Prop
  | checks, .list _ | engineConfig _, _ => True
  | _, _ => False

theorem length_cautions (setting : Setting) (d : Datum) :
    (setting.cautions d).length = 1 ↔ ¬ setting.IsSilent d := by
  cases setting with
  | checks => cases d <;> simp [cautions, IsSilent]
  | _ => simp [cautions, IsSilent]

/-- What a setting may come to where its key has this value, or none, and the warnings of it. -/
structure Answered (setting : Setting) (root : Path) (found : Option Datum) (answer : Answer)
    (warnings : List String) : Prop where
  absent : found = none → answer = setting.default root ∧ warnings = []
  taken : ∀ d a, found = some d → setting.Takes root d a → answer = a ∧ warnings = []
  dropped : ∀ d, found = some d → (∀ a, ¬ setting.Takes root d a) →
    answer = setting.instead root d ∧ warnings = setting.cautions d

variable {setting : Setting} {root : Path} {d : Datum} {a b : Answer}

/-- A value comes to one answer only. -/
theorem Takes.unique (ha : setting.Takes root d a) (hb : setting.Takes root d b) : a = b := by
  cases ha with
  | checks ns =>
    generalize hitems : ns.map Datum.text = items at hb
    cases hb with
    | checks ms =>
      have htexts : Function.Injective Datum.text := fun _ _ => Datum.text.inj
      rw [htexts.list_map hitems]
  | _ => cases hb; rfl

theorem answered_absent (setting : Setting) (root : Path) :
    setting.Answered root none (setting.default root) [] :=
  ⟨fun _ => ⟨rfl, rfl⟩, by simp, by simp⟩

theorem Takes.answered (h : setting.Takes root d a) : setting.Answered root (some d) a [] := by
  refine ⟨by simp, ?_, ?_⟩
  · rintro _ b ⟨⟩ hb
    exact ⟨h.unique hb, rfl⟩
  · rintro _ ⟨⟩ hnone
    exact absurd h (hnone a)

theorem answered_dropped (h : ∀ a, ¬ setting.Takes root d a) :
    setting.Answered root (some d) (setting.instead root d) (setting.cautions d) := by
  refine ⟨by simp, ?_, ?_⟩
  · rintro _ b ⟨⟩ hb
    exact absurd hb (h b)
  · rintro _ ⟨⟩ -
    exact ⟨rfl, rfl⟩

/-- A number of workers and a timeout are positive, whatever is set. -/
theorem Answered.count_pos {found : Option Datum} {warnings : List String}
    (h : setting.Answered root found a warnings)
    (hcount : setting = workers ∨ setting = ruffTimeout) : ∃ n, a = .count n ∧ 1 ≤ n := by
  have hdefault : ∃ n, setting.default root = .count n ∧ 1 ≤ n := by
    rcases hcount with rfl | rfl
    · exact ⟨1, rfl, by decide⟩
    · exact ⟨300, rfl, by decide⟩
  cases found with
  | none => rwa [(h.absent rfl).1]
  | some d =>
    by_cases htaken : ∃ b, setting.Takes root d b
    · obtain ⟨b, hb⟩ := htaken
      rw [(h.taken d b rfl hb).1]
      rcases hcount with rfl | rfl
      · cases hb with
        | workers positive => exact ⟨_, rfl, positive⟩
      · cases hb with
        | ruffTimeout positive => exact ⟨_, rfl, positive⟩
    · have hinstead : setting.instead root d = setting.default root := by
        rcases hcount with rfl | rfl <;> rfl
      rwa [(h.dropped d rfl (not_exists.mp htaken)).1, hinstead]

end Setting

namespace Settings

def ask (s : Settings) : Setting → Except Fault (Advised Answer)
  | .fixturesRoot => s.fixturesRoot.map fun (p, warnings) => (.path p, warnings)
  | .logDirectory => s.logDirectory.map fun (p, warnings) => (.path p, warnings)
  | .workers => s.workers.map fun (n, warnings) => (.count n, warnings)
  | .ruffTimeout => s.ruffTimeout.map fun (n, warnings) => (.count n, warnings)
  | .checks => s.checks.map fun (ns, warnings) => (.names ns, warnings)
  | .engineConfig engine =>
    (s.engineConfig engine).map fun config => (config.elim .unset .path, [])

variable {s : Settings} {entries : List (String × Datum)}

/-- Nothing is answered where the settings are no table. -/
theorem ask_of_not_table (h : ∀ entries, s.data ≠ .table entries) (setting : Setting) :
    s.ask setting = .error (.notATable s.data.typeName) := by
  have hget : ∀ key d, s.data.get key d = .error (.notATable s.data.typeName) := by
    intro key d
    cases hdata : s.data with
    | table entries => exact absurd hdata (h entries)
    | _ => rfl
  cases setting <;>
    simp [ask, fixturesRoot, logDirectory, workers, ruffTimeout, checks, engineConfig, pathSetting,
      textSetting, countSetting, hget, Except.map]

theorem get_table (key : String) (default : Datum) :
    (Datum.table entries).get key default = .ok ((Datum.lookup key entries).getD default) := rfl

theorem resolve_eq_placed (s : Settings) (raw : String) :
    s.resolve raw = Setting.placed s.root raw := by
  rw [resolve, Setting.placed]
  rfl

theorem texts_map (ns : List String) : texts (ns.map .text) = ns := by
  rw [texts, List.filterMap_map]
  exact List.filterMap_some

section Table

variable (hdata : s.data = .table entries)

include hdata

theorem pathSetting_eq (key default : String) :
    s.pathSetting key default = .ok
      (match Datum.lookup key entries with
      | none => (Setting.placed s.root default, [])
      | some (.text raw) => (Setting.placed s.root raw, [])
      | some _ => (Setting.placed s.root default,
          [s!"Configuration Warning: '{key}' must be a string, using {default.quoted}."])) := by
  rw [pathSetting, textSetting, hdata, get_table]
  cases Datum.lookup key entries with
  | none => simp [Except.map, resolve_eq_placed]
  | some d => cases d <;> simp [Except.map, resolve_eq_placed]

theorem countSetting_eq (key : String) {default : Int} (hdefault : 0 < default) :
    s.countSetting key default = .ok
      (match Datum.lookup key entries with
      | none => (default, [])
      | some d =>
        let shown := Text.Numeral.write default
        let instead :=
          (default, [s!"Configuration Warning: '{key}' must be a positive integer, using {shown}."])
        match d with
        | .int n => if 0 < n then (n, []) else instead
        | _ => instead) := by
  rw [countSetting, hdata, get_table]
  cases Datum.lookup key entries with
  | none => simp [Except.map, hdefault]
  | some d => cases d <;> simp [Except.map]

theorem ask_eq_ok (setting : Setting) :
    ∃ answer warnings, s.ask setting = .ok (answer, warnings) ∧
      setting.Answered s.root (Datum.lookup setting.key entries) answer warnings := by
  cases setting with
  | fixturesRoot | logDirectory =>
    simp only [ask, fixturesRoot, logDirectory, pathSetting_eq hdata, Setting.key]
    generalize Datum.lookup _ entries = found
    refine ⟨_, _, rfl, ?_⟩
    cases found with
    | none => exact Setting.answered_absent _ _
    | some d =>
      cases d with
      | text raw => exact Setting.Takes.answered (by constructor)
      | _ => exact Setting.answered_dropped (by rintro a ⟨⟩)
  | workers | ruffTimeout =>
    have hworkers : 0 < defaultWorkers := by decide
    have htimeout : 0 < defaultRuffTimeout := by decide
    simp only [ask, workers, ruffTimeout, countSetting_eq hdata _ hworkers,
      countSetting_eq hdata _ htimeout, Setting.key]
    generalize Datum.lookup _ entries = found
    refine ⟨_, _, rfl, ?_⟩
    cases found with
    | none => exact Setting.answered_absent _ _
    | some d =>
      cases d with
      | int n =>
        by_cases hn : 0 < n
        · simp only [if_pos hn]
          exact Setting.Takes.answered (by constructor; exact hn)
        · simp only [if_neg hn]
          exact Setting.answered_dropped fun a h => hn (by cases h; assumption)
      | _ => exact Setting.answered_dropped (by rintro a ⟨⟩)
  | checks =>
    rw [ask, checks, hdata, get_table]
    refine ⟨_, _, rfl, ?_⟩
    rw [Setting.key]
    cases Datum.lookup "checks" entries with
    | none => exact Setting.answered_absent _ _
    | some d =>
      cases d with
      | list items =>
        by_cases hnames : ∃ ns : List String, items = ns.map .text
        · obtain ⟨ns, rfl⟩ := hnames
          change Setting.Answered _ _ _ (.names (texts (ns.map .text))) []
          rw [texts_map]
          exact (Setting.Takes.checks ns).answered
        · exact Setting.answered_dropped fun a h => hnames (by cases h; exact ⟨_, rfl⟩)
      | _ => exact Setting.answered_dropped (by rintro a ⟨⟩)
  | engineConfig engine =>
    rw [ask, engineConfig, hdata, get_table]
    refine ⟨_, _, rfl, ?_⟩
    rw [Setting.key]
    cases Datum.lookup (engine ++ "_config") entries with
    | none => exact Setting.answered_absent _ _
    | some d =>
      cases d with
      | text raw =>
        simp only [Option.getD_some, resolve_eq_placed]
        by_cases hraw : raw = ""
        · rw [if_pos hraw]
          exact Setting.answered_dropped fun a h => by cases h; contradiction
        · rw [if_neg hraw]
          exact (Setting.Takes.engineConfig engine hraw).answered
      | _ => exact Setting.answered_dropped (by rintro a ⟨⟩)

/-- Where nothing is set, a setting is its default, and a value of its type is used as it is, both
without a warning. Any other value is replaced, or has what is no name left out, and there is one
warning, unless the value is a list of checks or an engine's configuration. -/
theorem ask_of_table (setting : Setting) :
    ∃ answer warnings, s.ask setting = .ok (answer, warnings) ∧
      (Datum.lookup setting.key entries = none →
        answer = setting.default s.root ∧ warnings = []) ∧
      (∀ d, Datum.lookup setting.key entries = some d →
        (∀ a, setting.Takes s.root d a → answer = a ∧ warnings = []) ∧
        ((∀ a, ¬ setting.Takes s.root d a) →
          answer = setting.instead s.root d ∧ warnings = setting.cautions d ∧
            (warnings.length = 1 ↔ ¬ setting.IsSilent d))) ∧
      (setting = .workers ∨ setting = .ruffTimeout → ∃ n, answer = .count n ∧ 1 ≤ n) := by
  obtain ⟨answer, warnings, hask, hanswered⟩ := ask_eq_ok hdata setting
  refine ⟨answer, warnings, hask, hanswered.absent, fun d hd => ?_, hanswered.count_pos⟩
  refine ⟨fun a => hanswered.taken d a hd, fun hnot => ?_⟩
  obtain ⟨hinstead, hcautions⟩ := hanswered.dropped d hd hnot
  refine ⟨hinstead, hcautions, ?_⟩
  rw [hcautions]
  exact Setting.length_cautions setting d

end Table

/-- Names are kept out of a list with a number in it, and a number is no file, without a word. -/
theorem ask_of_table_silent :
    let entries := [("checks", Datum.list [.text "UnusedImport", .int 3]), ("ruff_config", .int 3)]
    let s : Settings := ⟨.table entries, ⟨1, ["project"]⟩⟩
    s.data = .table entries ∧ s.ask .checks = .ok (.names ["UnusedImport"], []) ∧
      s.ask (.engineConfig "ruff") = .ok (.unset, []) := by
  intro entries s
  have hdata : s.data = .table entries := rfl
  refine ⟨hdata, ?_, ?_⟩
  · obtain ⟨answer, warnings, hask, -, hset, -⟩ := ask_of_table hdata .checks
    obtain ⟨rfl, rfl, -⟩ := (hset _ rfl).2 fun a h => by
      generalize hlist : Datum.list [.text "UnusedImport", .int 3] = d at h
      cases h with
      | checks ns =>
        have hmem : Datum.int 3 ∈ ns.map Datum.text := by
          rw [← Datum.list.inj hlist]
          simp
        simp at hmem
    exact hask
  · obtain ⟨answer, warnings, hask, -, hset, -⟩ := ask_of_table hdata (.engineConfig "ruff")
    obtain ⟨rfl, rfl, -⟩ := (hset (.int 3) rfl).2 (by rintro a ⟨⟩)
    exact hask

end Settings

end LintGate
