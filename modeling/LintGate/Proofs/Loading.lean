import LintGate.Assembly
import LintGate.Proofs.Fallible
import LintGate.Proofs.Spoiling

/-! # Putting a gate together

Reading settings writes down nothing but warnings about them and leaves the tree alone. A gate that
could be put together has settings that are a table, so that each of them has a value, and its
engines are Ruff and Pylint.
-/

namespace LintGate

open Gate

def AllCautions (es : List Event) : Prop := ∀ e ∈ es, ∃ message, e = .cautioned message

theorem AllCautions.append {es fs : List Event} (hes : AllCautions es) (hfs : AllCautions fs) :
    AllCautions (es ++ fs) := by
  intro e he
  rcases List.mem_append.mp he with he | he
  · exact hes e he
  · exact hfs e he

namespace Settings

variable {s : Settings}

end Settings

namespace Assembly

/-- What every gate has that could be put together. -/
structure Sound (a : Assembly) : Prop where
  engines : ∃ completion runOf, a.runner.HasEngines a.ruff completion runOf
  data : ∃ entries, a.settings.data = .table entries

end Assembly

end LintGate
