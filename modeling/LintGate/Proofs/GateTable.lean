import LintGate.Proofs.Fallible
import LintGate.Settings.Search

/-! # The table of the gate in a document

The settings stand in a table inside another one. What counts as absent stands for an empty table,
at both levels; anything else that is no table obstructs the settings, the outer one at once and
the inner one as soon as a setting is asked for.
-/

namespace LintGate

/-- A value that counts as present, where only a table would do. -/
def Datum.Obstructs (d : Datum) : Prop := d.isTruthy = true ∧ ∀ entries, d ≠ .table entries

def Toml.Refusal.fault : Toml.Refusal → LintGate.Fault
  | .undecodable fault => .undecodable fault
  | .malformed fault => .malformedDocument fault
  | .numeral fault => .numeral fault

namespace Settings

variable {entries gate : List (String × Datum)} {d : Datum} {bytes : List UInt8}

def gate? (entries : List (String × Datum)) : Option Datum :=
  match Datum.lookup "tool" entries with
  | some (.table tool) => Datum.lookup "quality-gate" tool
  | _ => none

/-- The value of `tool.quality-gate`, or an empty table where it counts as absent. -/
def gateValue (entries : List (String × Datum)) : Datum :=
  ((gate? entries).getD (.table [])).orElse (.table [])

theorem orElse_table (entries : List (String × Datum)) :
    (Datum.table entries).orElse (.table []) = .table entries := by
  cases entries with
  | nil => rfl
  | cons entry rest => rfl

theorem orElse_of_not_table (h : ¬ d.Obstructs) (hother : ∀ entries, d ≠ .table entries) :
    d.orElse (.table []) = .table [] :=
  if_neg fun htruthy => h ⟨htruthy, hother⟩

theorem section?_eq (entries : List (String × Datum)) :
    Settings.section? (.table entries) =
      ((((Datum.lookup "tool" entries).getD (.table [])).orElse (.table [])).get "quality-gate"
        (.table [])).map (·.orElse (.table [])) := by
  change (((Datum.lookup "tool" entries).getD (.table [])).orElse (.table [])).get "quality-gate"
    (.table []) >>= (fun d => pure (d.orElse (.table []))) = _
  generalize (((Datum.lookup "tool" entries).getD (.table [])).orElse (.table [])).get
    "quality-gate" (.table []) = found
  cases found <;> rfl

theorem section?_eq_ok (h : ∀ d, Datum.lookup "tool" entries = some d → ¬ d.Obstructs) :
    Settings.section? (.table entries) = .ok (gateValue entries) := by
  rw [section?_eq, gateValue, gate?]
  cases htool : Datum.lookup "tool" entries with
  | none => rfl
  | some d =>
    cases d with
    | table tool => rw [Option.getD_some, orElse_table]; rfl
    | _ => rw [Option.getD_some, orElse_of_not_table (h _ htool) (by simp)]; rfl

theorem section?_eq_error (hfound : Datum.lookup "tool" entries = some d) (h : d.Obstructs) :
    Settings.section? (.table entries) = .error (.notATable d.typeName) := by
  rw [section?_eq, hfound, Option.getD_some, Datum.orElse, if_pos h.1]
  cases d with
  | table tool => exact absurd rfl (h.2 tool)
  | _ => rfl

/-- The inner table is one unless something obstructs it. -/
theorem gateValue_eq_table (h : ∀ d, gate? entries = some d → ¬ d.Obstructs) :
    ∃ gate, gateValue entries = .table gate := by
  rw [gateValue]
  cases hgate : gate? entries with
  | none => exact ⟨[], rfl⟩
  | some d =>
    cases d with
    | table gate => exact ⟨gate, orElse_table gate⟩
    | _ => exact ⟨[], orElse_of_not_table (h _ hgate) (by simp)⟩

theorem gateValue_of_obstructs (hfound : gate? entries = some d) (h : d.Obstructs) :
    gateValue entries = d := by
  rw [gateValue, hfound, Option.getD_some, Datum.orElse, if_pos h.1]

section Read

variable (hload : Toml.load bytes = .ok entries)

include hload

theorem ofDocument_eq_ok (h : ∀ d, Datum.lookup "tool" entries = some d → ¬ d.Obstructs) :
    ofDocument bytes = .ok (gateValue entries) := by
  rw [ofDocument, hload]
  exact section?_eq_ok h

theorem ofDocument_of_obstructs (hfound : Datum.lookup "tool" entries = some d)
    (h : d.Obstructs) : ofDocument bytes = .error (.notATable d.typeName) := by
  rw [ofDocument, hload]
  exact section?_eq_error hfound h

end Read

theorem ofDocument_of_refusal {refusal : Toml.Refusal} (hload : Toml.load bytes = .error refusal) :
    ofDocument bytes = .error refusal.fault := by
  rw [ofDocument, hload]
  cases refusal <;> rfl

end Settings

end LintGate
