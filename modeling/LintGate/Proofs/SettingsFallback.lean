import LintGate.Proofs.GateTable
import LintGate.Proofs.NearestProject
import LintGate.Proofs.SettingAnswer

/-! # Settings that fall back

Whatever table a project file holds, each setting has an answer, and a value of another type than
the setting takes gives way to the default. Only what stands in the place of one of the two tables
is not replaced: then no setting has an answer.
-/

namespace LintGate.Settings

/-- A value that stands where a document should have a table of settings, or one around it. -/
inductive Misplaced (entries : List (String × Datum)) : Datum → Prop
  | tool {d : Datum} (found : Datum.lookup "tool" entries = some d) (obstructs : d.Obstructs) :
    Misplaced entries d
  | gate {d : Datum} (found : gate? entries = some d) (obstructs : d.Obstructs) :
    Misplaced entries d

def askFrom (t : FileTree) (start : Option Path) (setting : Setting) :
    Except Fault (Advised Answer) := do
  let (data, root) ← search t start
  (rooted t data root).ask setting

variable {t : FileTree} {start : Option Path} {d : Place} {bytes : List UInt8}
  {entries : List (String × Datum)}

theorem askFrom_of_search_ok {data : Datum} {root : Path}
    (h : search t start = .ok (data, some root)) (setting : Setting) :
    askFrom t start setting = (⟨data, root⟩ : Settings).ask setting := by
  rw [askFrom, h]
  rfl

theorem askFrom_of_search_error {fault : Fault} (h : search t start = .error fault)
    (setting : Setting) : askFrom t start setting = .error fault := by
  rw [askFrom, h]
  rfl

section Found

variable (hname : isNameable (startPath t start) = true)
  (hopens : Opens t (startPlace t start) d bytes) (hload : Toml.load bytes = .ok entries)

include hname hopens hload

theorem search_of_not_obstructed
    (h : ∀ v, Datum.lookup "tool" entries = some v → ¬ v.Obstructs) :
    search t start = .ok (gateValue entries, some (Path.ofPlace d)) := by
  rw [search_eq_searchUp hname, hopens.searchUp_eq, ofDocument_eq_ok hload h]
  rfl

theorem search_of_obstructed {v : Datum} (hfound : Datum.lookup "tool" entries = some v)
    (h : v.Obstructs) : search t start = .error (.notATable v.typeName) := by
  rw [search_eq_searchUp hname, hopens.searchUp_eq, ofDocument_of_obstructs hload hfound h]
  rfl

theorem askFrom_of_misplaced {v : Datum} (h : Misplaced entries v) (setting : Setting) :
    askFrom t start setting = .error (.notATable v.typeName) := by
  cases h with
  | tool hfound hobstructs =>
    exact askFrom_of_search_error (search_of_obstructed hname hopens hload hfound hobstructs) _
  | gate hfound hobstructs =>
    have htool : ∀ u, Datum.lookup "tool" entries = some u → ¬ u.Obstructs := by
      rintro u hu ⟨-, hother⟩
      rw [gate?, hu] at hfound
      cases u with
      | table tool => exact hother tool rfl
      | _ => cases hfound
    have hsearch := search_of_not_obstructed hname hopens hload htool
    rw [gateValue_of_obstructs hfound hobstructs] at hsearch
    rw [askFrom_of_search_ok hsearch]
    exact ask_of_not_table hobstructs.2 setting

/-- A document answers for every setting unless something else stands in the place of a table. It
then answers by what its table holds under the setting's key, and what the setting does not take
gives way to the default. -/
theorem askFrom_answers :
    (∀ v, Misplaced entries v → ∀ setting,
        askFrom t start setting = .error (.notATable v.typeName)) ∧
      ((∃ found, search t start = .ok found) ↔
        ∀ v, Datum.lookup "tool" entries = some v → ¬ v.Obstructs) ∧
      ((∀ v, ¬ Misplaced entries v) →
        ∃ gate, search t start = .ok (.table gate, some (Path.ofPlace d)) ∧
          gateValue entries = .table gate ∧
          ∀ setting, ∃ answer warnings, askFrom t start setting = .ok (answer, warnings) ∧
            setting.Answered (Path.ofPlace d) (Datum.lookup setting.key gate) answer warnings) := by
  refine ⟨fun v hv => askFrom_of_misplaced hname hopens hload hv, ?_, fun hnone => ?_⟩
  · constructor
    · rintro ⟨found, hfound⟩ v hv hobstructs
      rw [search_of_obstructed hname hopens hload hv hobstructs] at hfound
      cases hfound
    · intro h
      exact ⟨_, search_of_not_obstructed hname hopens hload h⟩
  · have hgate : ∃ gate, gateValue entries = .table gate := gateValue_eq_table
      fun v hv hobstructs => hnone v (.gate hv hobstructs)
    obtain ⟨gate, hgate⟩ := hgate
    have hsearch := search_of_not_obstructed hname hopens hload
      fun v hv hobstructs => hnone v (.tool hv hobstructs)
    rw [hgate] at hsearch
    refine ⟨gate, hsearch, hgate, fun setting => ?_⟩
    obtain ⟨answer, warnings, hask, hanswered⟩ :=
      ask_eq_ok (s := ⟨.table gate, Path.ofPlace d⟩) rfl setting
    exact ⟨answer, warnings, (askFrom_of_search_ok hsearch setting).trans hask, hanswered⟩

end Found

/-- A number in the place of the outer table, and a text in the place of a number. -/
theorem askFrom_answers_number :
    let file (text : String) : List UInt8 := Text.Utf8.encode text.toList
    let tree (text : String) : FileTree := ⟨[([projectFile], .file (file text))], []⟩
    let number := "tool = 1\n"
    let many := "[tool.quality-gate]\nworkers = \"many\"\n"
    (Toml.load (file number) = .ok [("tool", .int 1)] ∧
        ∀ setting, askFrom (tree number) none setting = .error (.notATable "int")) ∧
      Toml.load (file many) =
          .ok [("tool", .table [("quality-gate", .table [("workers", .text "many")])])] ∧
        askFrom (tree many) none .workers = .ok (.count 1,
          ["Configuration Warning: 'workers' must be a positive integer, using 1."]) := by
  intro file tree number many
  have hname : ∀ text, isNameable (startPath (tree text) none) = true := fun _ => rfl
  have hopens : ∀ text, (tree text).look "/pyproject.toml" = .ok (some (.file (file text))) →
      Opens (tree text) (startPlace (tree text) none) [] (file text) := by
    intro text hfound
    refine ⟨List.nil_prefix, hfound, fun e _ he hne => absurd (List.prefix_nil.mp he) hne⟩
  have hnumber : Toml.load (file number) = .ok [("tool", .int 1)] := by decide +kernel
  have hmany : Toml.load (file many) =
      .ok [("tool", .table [("quality-gate", .table [("workers", .text "many")])])] := by
    decide +kernel
  refine ⟨⟨hnumber, ?_⟩, hmany, ?_⟩
  · obtain ⟨hmisplaced, -⟩ := askFrom_answers (hname number) (hopens number (by decide +kernel))
      hnumber
    exact hmisplaced (.int 1) (.tool rfl ⟨rfl, by simp⟩)
  · obtain ⟨-, -, hanswers⟩ := askFrom_answers (hname many) (hopens many (by decide +kernel)) hmany
    have hplaced : ∀ v, ¬ Misplaced [("tool", .table [("quality-gate", .table
        [("workers", .text "many")])])] v := by
      rintro v (⟨hfound, -, hother⟩ | ⟨hfound, -, hother⟩)
      · exact hother _ (Option.some.inj hfound).symm
      · exact hother _ (Option.some.inj hfound).symm
    obtain ⟨gate, -, hgate, hanswered⟩ := hanswers hplaced
    obtain ⟨answer, warnings, hask, -, -, hdropped⟩ := hanswered .workers
    have hvalue : Datum.lookup Setting.workers.key gate = some (.text "many") := by
      rw [← Datum.table.inj hgate]
      rfl
    obtain ⟨rfl, rfl⟩ := hdropped _ hvalue (by rintro a ⟨⟩)
    exact hask

end LintGate.Settings
