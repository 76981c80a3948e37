import LintGate.Proofs.RuffEntries

/-! # What runs of Ruff hand on

A run of Ruff over some files hands exactly one finding on if its process was not found, took too
long or ended abnormally. Otherwise it hands on one finding for each entry that the output lists, in
their order, or none at all if one of them cannot be read. The raw output of a process is kept
before any of this; where that fails, nothing is handed on.
-/

namespace LintGate

open Gate

namespace RuffOutput

structure Entry where
  code : Option String
  message : String
  filename : String
  row : Option Nat
  endRow : Option Nat

def rowDatum : Option Nat → Datum
  | none => .null
  | some n => .int n

inductive StatesRow (fields : List (String × Datum)) (location : String) : Option Nat → Prop
  | absent (h : Datum.lookup location fields = none) : StatesRow fields location none
  | null (h : Datum.lookup location fields = some .null) : StatesRow fields location none
  | absentRow {place : List (String × Datum)}
      (h : Datum.lookup location fields = some (.table place))
      (hrow : Datum.lookup "row" place = none) : StatesRow fields location none
  | nullRow {place : List (String × Datum)}
      (h : Datum.lookup location fields = some (.table place))
      (hrow : Datum.lookup "row" place = some .null) : StatesRow fields location none
  | row {place : List (String × Datum)} {n : Nat}
      (h : Datum.lookup location fields = some (.table place))
      (hrow : Datum.lookup "row" place = some (.int n)) : StatesRow fields location (some n)

namespace Entry

/-- The table says what the entry says. Only the code, the locations and their rows may be null. -/
structure StatedBy (e : Entry) (fields : List (String × Datum)) : Prop where
  code : field fields "code" .null = (e.code.map Datum.text).getD .null
  code_ne_empty : e.code ≠ some ""
  message : Datum.lookup "message" fields = some (.text e.message)
  filename : Datum.lookup "filename" fields = some (.text e.filename)
  row : StatesRow fields "location" e.row
  endRow : StatesRow fields "end_location" e.endRow

def WrittenAs (e : Entry) (d : Datum) : Prop := ∃ fields, d = .table fields ∧ e.StatedBy fields

def file (subject : String) (e : Entry) : Datum :=
  .text (if e.filename = "" then subject else e.filename)

/-- What is handed on of an entry. Row zero is no row. -/
def finding (subject : String) (e : Entry) : Finding :=
  match e.code, e.row with
  | some code, some (n + 1) =>
    .rule ⟨code, e.file subject, .int (n + 1 : Nat), rowDatum (e.endRow.filter (· ≠ 0)),
      .text e.message⟩
  | none, some (n + 1) =>
    .processing ⟨e.file subject, .text e.message, s!" at line {Text.Numeral.write (n + 1 : Nat)}"⟩
  | _, _ => .processing ⟨e.file subject, .text e.message, ""⟩

/-- What is captured of an entry: its row only if it has a code as well, else the row is written
behind the message. -/
def key (e : Entry) : Key :=
  match e.code, e.row with
  | some _, some (n + 1) => ⟨(n + 1 : Nat), .text e.message⟩
  | none, some (n + 1) => ⟨0, .text (e.message ++ s!" at line {Text.Numeral.write (n + 1 : Nat)}")⟩
  | _, _ => ⟨0, .text e.message⟩

end Entry

theorem StatesRow.rowIn_eq {fields : List (String × Datum)} {location : String} {row : Option Nat}
    (h : StatesRow fields location row) :
    rowIn (field fields location .null) = some (rowDatum row) := by
  rw [field]
  cases h with
  | absent h => rw [h]; rfl
  | null h => rw [h]; rfl
  | absentRow h hrow => rw [h]; simp [rowIn, field, hrow, rowDatum]
  | nullRow h hrow => rw [h]; simp [rowIn, field, hrow, rowDatum]
  | row h hrow => rw [h]; simp [rowIn, field, hrow, rowDatum]

theorem endLine_rowDatum (row : Option Nat) :
    endLine (rowDatum row) = .ok (rowDatum (row.filter (· ≠ 0))) := by
  cases row with
  | none => rfl
  | some n => cases n <;> rfl

theorem Entry.finding_eq {e : Entry} {d : Datum} (h : e.WrittenAs d) (subject : String) :
    RuffOutput.finding subject d = .ok (e.finding subject) := by
  obtain ⟨fields, rfl, h⟩ := h
  have hfile : (field fields "filename" .null).orElse (.text subject) = e.file subject := by
    rw [field, h.filename, Entry.file]
    by_cases hempty : e.filename = "" <;> simp [hempty, Datum.orElse, Datum.isTruthy]
  have hmessage : field fields "message" (.text "") = .text e.message := by
    rw [field, h.message]
    rfl
  have hcode := h.code
  have hne := h.code_ne_empty
  rw [finding_table, row_eq_ok_iff.mpr h.row.rowIn_eq, row_eq_ok_iff.mpr h.endRow.rowIn_eq]
  change (if ((field fields "code" .null).isTruthy && (rowDatum e.row).isTruthy) = true then
    ruleOf subject fields _ _ else _) = _
  rw [Entry.finding, ruleOf, failureOf, hfile, hmessage, hcode, endLine_rowDatum]
  cases hcode : e.code with
  | none => rcases e.row with _ | _ | n <;> rfl
  | some code =>
    rw [hcode] at hne
    have hcodeTruthy : (Datum.text code).isTruthy = true := by simpa [Datum.isTruthy] using hne
    rw [Option.map_some, Option.getD_some, hcodeTruthy, Bool.true_and]
    rcases e.row with _ | _ | n
    · rfl
    · rfl
    · have hrowTruthy : (rowDatum (some (n + 1))).isTruthy = true := by
        simp only [rowDatum, Datum.isTruthy, bne_iff_ne]
        omega
      rw [if_pos hrowTruthy]
      rfl

theorem StatesRow.lt {fields : List (String × Datum)} {location : String} {n : Nat}
    (h : StatesRow fields location (some n)) (hfields : ∀ entry ∈ fields, entry.2.IsShort) :
    n < Text.Numeral.bound := by
  have hshort := isShort_rowIn (isShort_field hfields location .null) h.rowIn_eq
  cases hshort with
  | int hn => exact hn

namespace Entry

theorem key?_finding (subject : String) (e : Entry) : (e.finding subject).key? = some e.key := by
  rw [finding, key]
  rcases e.code with _ | code
  · rcases e.row with _ | _ | n
    · simp [Finding.key?]
    · simp [Finding.key?]
    · rfl
  · rcases e.row with _ | _ | n
    · simp [Finding.key?]
    · simp [Finding.key?]
    · rfl

theorem isRegular_finding (subject : String) (e : Entry) : (e.finding subject).IsRegular := by
  rw [finding]
  split
  · exact ⟨⟨_, rfl⟩, ⟨_, rfl⟩⟩
  · trivial
  · trivial

theorem exists_toViolation {e : Entry} {d : Datum} (h : e.WrittenAs d) (hd : d.IsShort)
    (subject : String) : ∃ v, (e.finding subject).toViolation = .ok v := by
  obtain ⟨fields, rfl, h⟩ := h
  have hfields : ∀ entry ∈ fields, entry.2.IsShort := by
    cases hd with
    | table hfields => exact hfields
  refine Finding.exists_toViolation ?_ ?_
  · rw [finding]
    split
    all_goals exact ⟨⟨_, rfl⟩, ⟨_, rfl⟩⟩
  · rw [finding]
    split
    · rename_i n _ hrow
      have hfirst : (Datum.int (n + 1 : Nat)).isWritable = true :=
        Datum.isWritable_int.mpr ((hrow ▸ h.row).lt hfields)
      refine ⟨hfirst, ?_⟩
      cases hend : e.endRow.filter (· ≠ 0) with
      | none => exact hfirst
      | some m =>
        rw [Option.filter_eq_some_iff] at hend
        exact Datum.isWritable_int.mpr ((hend.1 ▸ h.endRow).lt hfields)
    · trivial
    · trivial

end Entry

/-- The output is a list of tables that say what the entries say, in their order. -/
def Lists (stdout : String) (es : List Entry) : Prop :=
  ∃ ds, Json.read stdout.toList = .ok (.list ds) ∧ List.Forall₂ Entry.WrittenAs es ds

namespace Lists

variable {stdout : String} {es : List Entry}

theorem read_eq (h : Lists stdout es) (subject : String) :
    read subject stdout = .ok (es.map (Entry.finding subject)) := by
  obtain ⟨ds, hjson, hes⟩ := h
  have hblank : Text.allBlank stdout.toList ≠ true := by
    intro hblank
    have hbracket := List.all_eq_true.mp hblank _ (Json.mem_of_read_list hjson)
    exact absurd hbracket (by decide)
  rw [read, if_neg hblank, hjson]
  refine mapM_eq_ok_iff.mpr ?_
  rw [List.forall₂_map_right_iff]
  exact hes.flip.imp fun d e h => Entry.finding_eq h subject

theorem exists_toViolation (h : Lists stdout es) (subject : String) :
    ∀ f ∈ es.map (Entry.finding subject), ∃ v, f.toViolation = .ok v := by
  obtain ⟨ds, hjson, hes⟩ := h
  have hshort : ∀ d ∈ ds, d.IsShort := by
    cases Json.isShort_of_read hjson with
    | list hds => exact hds
  rw [List.forall_mem_map]
  intro e he
  obtain ⟨d, hd, hed⟩ := exists_mem_of_forall₂ hes.flip he
  exact Entry.exists_toViolation hed (hshort d hd) subject

end Lists

end RuffOutput

namespace Ruff

theorem holds_iff {part text : List Char} : holds part text = true ↔ part <:+: text := by
  induction text with
  | nil => simp [holds]
  | cons c rest ih =>
    rw [holds, Bool.or_eq_true, ih, List.isPrefixOf_iff_prefix, List.infix_cons_iff]

/-- The seconds that a process may take are taken as a double. Where they are too many for one, the
process is not waited for, so that it cannot take too long. -/
def Waits (r : Ruff) : Prop := r.timeout.natAbs < 2 ^ 1024

theorem Waits.write? {r : Ruff} (h : r.Waits) :
    Text.Numeral.write? r.timeout = some (Text.Numeral.write r.timeout) :=
  Text.Numeral.write?_eq_some_iff.mpr
    ⟨Nat.lt_trans h (Text.Numeral.two_pow_lt_bound (by decide) (by decide)), rfl⟩

def listen (r : Ruff) (config : Path) (files : List Path) (completion : Completion) :
    Gate Capture :=
  Collector.empty.follow (r.session config [(files, completion)]).runs

variable {r : Ruff} {t u : FileTree} {config : Path} {files : List Path} {e : Emission}
  {completion : Completion} {result : ProcessResult}

section Listening

variable (hrun : (r.run config files completion).Recounts t e u [])

include hrun

theorem listen_recounts :
    ∃ capture, (r.listen config files completion).Recounts t capture u
        (.processed engineName config files :: (Finding.delivered e.findings).map .heard) ∧
      Collector.empty.Takes e.violations capture :=
  Collector.empty.follow_one_recounts (hrun.after_record (e := .processed _ _ _) rfl)

theorem heard_listen :
    heard ((r.listen config files completion).events t) = Finding.delivered e.findings := by
  obtain ⟨capture, hlisten, -⟩ := listen_recounts hrun
  rw [hlisten.heard_eq]
  exact heard_map_heard _

theorem after_listen : (r.listen config files completion).after t = u := by
  obtain ⟨capture, hlisten, -⟩ := listen_recounts hrun
  exact hlisten.after_eq

end Listening

theorem listen_of_fail {fault : Fault}
    (hrun : (r.run config files completion).Recounts t (.fail fault) u []) :
    heard ((r.listen config files completion).events t) = [] ∧
      ((r.listen config files completion).value t).fault = some fault := by
  obtain ⟨capture, hlisten, -, herror⟩ := listen_recounts hrun
  exact ⟨heard_listen hrun, hlisten.value_eq ▸ herror fault rfl⟩

theorem heard_listen_of_one {f : Finding}
    (hrun : (r.run config files completion).Recounts t (.one f) u []) :
    heard ((r.listen config files completion).events t) = [f] := by
  rw [heard_listen hrun]
  exact Finding.delivered_singleton f

theorem listen_of_regular {fs : List Finding}
    (hrun : (r.run config files completion).Recounts t ⟨fs, none⟩ u [])
    (hviolations : ∀ f ∈ fs, ∃ v, f.toViolation = .ok v) (hregular : ∀ f ∈ fs, f.IsRegular) :
    heard ((r.listen config files completion).events t) = fs ∧
      ((r.listen config files completion).value t).fault = none ∧
      ∃ ks, ((r.listen config files completion).value t).collector.keys = .ok ks ∧
        fs.mapM Finding.key? = some ks := by
  obtain ⟨capture, hlisten, htakes⟩ := listen_recounts hrun
  have hheard := heard_listen hrun
  rw [Finding.delivered_eq_self hviolations] at hheard
  obtain ⟨vs, hvs⟩ := exists_mapM_eq_ok_iff.mpr hviolations
  have hcapture := htakes.ok vs (Emission.violations_eq_ok_iff.mpr ⟨hvs, rfl⟩)
  have hholds : capture.collector.Holds fs := by
    rw [hcapture]
    exact ⟨mapM_eq_ok_iff.mp hvs, by simp [Collector.empty, (mapM_eq_ok_iff.mp hvs).length_eq]⟩
  obtain ⟨ks, hks, hkeys, -⟩ := hholds.keys hregular
  rw [hlisten.value_eq]
  exact ⟨hheard, htakes.fault_eq hviolations, ks, hkeys, hks⟩

theorem abnormalEnd_of_named {subject : String}
    (h : config.toString.toList <:+: result.stderr.stripped.toList) :
    abnormalEnd config subject result = .config ⟨result.stderr.stripped⟩ := by
  rw [abnormalEnd]
  exact if_pos (holds_iff.mpr h)

theorem abnormalEnd_of_unnamed {subject : String}
    (h : ¬config.toString.toList <:+: result.stderr.stripped.toList) :
    abnormalEnd config subject result =
      .processing ⟨.text subject,
        .text s!"Ruff exited with status {Text.Numeral.write result.status}",
        if result.stderr.stripped = "" then "" else ": " ++ result.stderr.stripped⟩ := by
  rw [abnormalEnd]
  exact if_neg (mt holds_iff.mp h)

/-- The raw output of a run that returned is added to the log once, before the listener is called,
and nothing else is changed. -/
theorem listen_keeps (r : Ruff) (config : Path) (files : List Path) (result : ProcessResult)
    (t : FileTree) :
    heard ((r.run config files (.returned result)).events t) = [] ∧
      (r.run config files (.returned result)).after t = (r.kept t config result).1 ∧
      (r.listen config files (.returned result)).after t = (r.kept t config result).1 := by
  rcases hkept : r.kept t config result with ⟨u, _ | fault⟩
  · have hrun := run_recounts_kept files hkept
    exact ⟨hrun.heard_eq, hrun.after_eq, after_listen hrun⟩
  · have hrun := run_recounts_unkept files hkept
    exact ⟨hrun.heard_eq, hrun.after_eq, after_listen hrun⟩

theorem conclusion_of_low (hstatus : result.status < 2) (config : Path) (subject : String) :
    conclusion config subject result =
      match RuffOutput.read subject result.stdout with
      | .ok findings => ⟨findings, none⟩
      | .error fault => .fail fault :=
  if_neg (Int.not_le.mpr hstatus)

section Kept

variable (hkept : (r.kept t config result).2 = none)

include hkept

/-- Output that cannot be read is not handed on in part. -/
theorem listen_unreadable (hstatus : result.status < 2) {fault : Fault}
    (hread : RuffOutput.read (Path.listing files) result.stdout = .error fault) :
    heard ((r.listen config files (.returned result)).events t) = [] ∧
      ((r.listen config files (.returned result)).value t).fault = some fault := by
  have hrun := run_recounts_kept files (Prod.ext (y := (_, none)) rfl hkept)
  rw [conclusion_of_low hstatus, hread] at hrun
  exact listen_of_fail hrun

theorem listen_entries (hstatus : result.status < 2) {es : List RuffOutput.Entry}
    (hes : RuffOutput.Lists result.stdout es) :
    heard ((r.listen config files (.returned result)).events t) =
        es.map (RuffOutput.Entry.finding (Path.listing files)) ∧
      ((r.listen config files (.returned result)).value t).fault = none ∧
      ((r.listen config files (.returned result)).value t).collector.keys =
        .ok (es.map RuffOutput.Entry.key) := by
  have hrun := run_recounts_kept files (Prod.ext (y := (_, none)) rfl hkept)
  rw [conclusion_of_low hstatus, hes.read_eq] at hrun
  have hregular : ∀ f ∈ es.map (RuffOutput.Entry.finding (Path.listing files)), f.IsRegular := by
    simp [RuffOutput.Entry.isRegular_finding]
  obtain ⟨hheard, hfault, ks, hkeys, hks⟩ :=
    listen_of_regular hrun (hes.exists_toViolation _) hregular
  refine ⟨hheard, hfault, ?_⟩
  have heskeys : (es.map (RuffOutput.Entry.finding (Path.listing files))).mapM Finding.key? =
      some (es.map RuffOutput.Entry.key) := by
    rw [mapM_eq_some_iff, forall₂_eq_some_iff, List.map_map, List.map_map]
    exact List.map_congr_left fun e _ => e.key?_finding _
  rw [heskeys] at hks
  rw [hkeys, Option.some.inj hks]

end Kept

/-- A process that is not found or takes too long is one finding about the files; of one that fails
to run in another way nothing is heard but the fault. The raw output of one that returned is added
to the log once, before anything is heard; if that fails, nothing is heard but the fault. Otherwise
an abnormal end is one finding, about the configuration just in case the process spoke of it. Below
that status, entries in the output are one finding each, in their order, and have these keys; of
output that cannot be read nothing is heard but the fault. -/
theorem forwards (r : Ruff) (config : Path) (files : List Path) (t : FileTree) :
    heard ((r.listen config files .notFound).events t) =
      [.processing ⟨.text (Path.listing files), .text "Ruff not found.",
        " Install with: pip install ruff"⟩] ∧
    (r.Waits → heard ((r.listen config files .timedOut).events t) =
      [.processing ⟨.text (Path.listing files), .text "Ruff timed out",
        s!" after {Text.Numeral.write r.timeout} seconds"⟩]) ∧
    (heard ((r.listen config files .denied).events t) = [] ∧
      ((r.listen config files .denied).value t).fault = some (.file ⟨.denied, r.executable⟩)) ∧
    (∀ fault, heard ((r.listen config files (.failed fault)).events t) = [] ∧
      ((r.listen config files (.failed fault)).value t).fault = some fault) ∧
    ∀ result,
      (∀ log, r.log = some log →
        let kept := log.append t r.now engineName result.stdout result.stderr config.toString
        heard ((r.run config files (.returned result)).events t) = [] ∧
          (r.run config files (.returned result)).after t = kept.1 ∧
          (r.listen config files (.returned result)).after t = kept.1) ∧
      (∀ fault, (r.kept t config result).2 = some fault →
        heard ((r.listen config files (.returned result)).events t) = [] ∧
          ((r.listen config files (.returned result)).value t).fault = some fault) ∧
      ((r.kept t config result).2 = none →
        (2 ≤ result.status →
          (config.toString.toList <:+: result.stderr.stripped.toList →
            heard ((r.listen config files (.returned result)).events t) =
              [.config ⟨result.stderr.stripped⟩]) ∧
          (¬config.toString.toList <:+: result.stderr.stripped.toList →
            heard ((r.listen config files (.returned result)).events t) =
              [.processing ⟨.text (Path.listing files),
                .text s!"Ruff exited with status {Text.Numeral.write result.status}",
                if result.stderr.stripped = "" then "" else ": " ++ result.stderr.stripped⟩])) ∧
        (result.status < 2 →
          (∀ fault, RuffOutput.read (Path.listing files) result.stdout = .error fault →
            heard ((r.listen config files (.returned result)).events t) = [] ∧
              ((r.listen config files (.returned result)).value t).fault = some fault) ∧
          ∀ es, RuffOutput.Lists result.stdout es →
            heard ((r.listen config files (.returned result)).events t) =
                es.map (RuffOutput.Entry.finding (Path.listing files)) ∧
              ((r.listen config files (.returned result)).value t).fault = none ∧
              ((r.listen config files (.returned result)).value t).collector.keys =
                .ok (es.map RuffOutput.Entry.key))) := by
  refine ⟨?_, fun hwaits => ?_, ?_, fun fault => ?_,
    fun result => ⟨?_, ?_, fun hkept => ⟨fun hstatus => ?_, fun hstatus => ?_⟩⟩⟩
  · exact heard_listen_of_one ((Recounts.record_other rfl t).bind (.pure _ t))
  · refine heard_listen_of_one (u := t) ?_
    rw [run, hwaits.write?]
    exact (Recounts.record_other rfl t).bind (.pure _ t)
  · exact listen_of_fail ((Recounts.record_other rfl t).bind (.pure _ t))
  · exact listen_of_fail ((Recounts.record_other rfl t).bind (.pure _ t))
  · intro log hlog kept
    have hkeeps := r.listen_keeps config files result t
    rwa [Ruff.kept, hlog] at hkeeps
  · intro fault hfault
    exact listen_of_fail (run_recounts_unkept files (Prod.ext (y := (_, some _)) rfl hfault))
  · have hheard := (process_abnormal hkept hstatus files).2
    constructor
    · intro hinfix
      rwa [abnormalEnd_of_named hinfix] at hheard
    · intro hinfix
      rwa [abnormalEnd_of_unnamed hinfix] at hheard
  · exact ⟨fun fault => listen_unreadable hkept hstatus, fun es => listen_entries hkept hstatus⟩

def twoEntries : String :=
  "[\x7b\"code\": \"F401\", \"message\": \"unused\", \"filename\": \"a.py\", " ++
    "\"location\": \x7b\"row\": 2\x7d\x7d, " ++
    "\x7b\"code\": null, \"message\": \"broken\", \"filename\": \"\"\x7d]"

/-- The two entries are heard in their order, an abnormal end that names the configuration is heard
as one finding about it, and so is a process that took longer than it may. -/
theorem forwards_two_entries :
    let r : Ruff := ⟨"ruff", 300, none, 0⟩
    let config : Path := ⟨0, ["ruff.toml"]⟩
    let files : List Path := [⟨0, ["a.py"]⟩]
    heard ((r.listen config files (.returned (.mk 1 twoEntries ""))).events ⟨[], []⟩) =
        [.rule ⟨"F401", .text "a.py", .int 2, .null, .text "unused"⟩,
          .processing ⟨.text "a.py", .text "broken", ""⟩] ∧
      ((r.listen config files (.returned (.mk 1 twoEntries ""))).value ⟨[], []⟩).collector.keys =
        .ok [⟨2, .text "unused"⟩, ⟨0, .text "broken"⟩] ∧
      heard ((r.listen config files (.returned (.mk 2 "" " no ruff.toml "))).events ⟨[], []⟩) =
        [.config ⟨"no ruff.toml"⟩] ∧
      heard ((r.listen config files .timedOut).events ⟨[], []⟩) =
        [.processing ⟨.text "a.py", .text "Ruff timed out", " after 300 seconds"⟩] := by
  intro r config files
  obtain ⟨-, htimedOut, -, -, hreturned⟩ := r.forwards config files ⟨[], []⟩
  have hjson : Json.read twoEntries.toList = .ok (.list [
      .table [("code", .text "F401"), ("message", .text "unused"), ("filename", .text "a.py"),
        ("location", .table [("row", .int 2)])],
      .table [("code", .null), ("message", .text "broken"), ("filename", .text "")]]) := by
    decide +kernel
  have hlists : RuffOutput.Lists twoEntries
      [⟨some "F401", "unused", "a.py", some 2, none⟩, ⟨none, "broken", "", none, none⟩] := by
    refine ⟨_, hjson, .cons ⟨_, rfl, ?_⟩ (.cons ⟨_, rfl, ?_⟩ .nil)⟩
    · exact ⟨rfl, by decide, rfl, rfl, .row rfl rfl, .absent rfl⟩
    · exact ⟨rfl, by decide, rfl, rfl, .absent rfl, .absent rfl⟩
  have hentries := (((hreturned (.mk 1 twoEntries "")).2.2 rfl).2 (by decide)).2 _ hlists
  have habnormal := ((hreturned (.mk 2 "" " no ruff.toml ")).2.2 rfl).1 (by decide)
  exact ⟨hentries.1, hentries.2.2, habnormal.1 (by decide +kernel),
    htimedOut (by decide +kernel : 300 < 2 ^ 1024)⟩

/-- An abnormal end is not heard of where a file stands in the way of the log. -/
theorem unheard_failures :
    let config : Path := ⟨0, ["ruff.toml"]⟩
    let files : List Path := [⟨0, ["a.py"]⟩]
    let blocked : FileTree := ⟨[(["logs"], .file [])], []⟩
    heard ((listen ⟨"ruff", 300, some ⟨"logs"⟩, 0⟩ config files
      (.returned (.mk 2 "" "no ruff.toml"))).events blocked) = [] := by
  intro config files blocked
  decide +kernel

end Ruff

end LintGate
