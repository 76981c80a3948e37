import LintGate.CommandLine.Options
import LintGate.Text.Quoted

/-!
# Usage

What the gate says about its arguments: the help that was asked for, or what is wrong with them.
-/

namespace LintGate

def OptionName.long : OptionName → String
  | fixtures => "--fixtures"
  | check => "--check"
  | workers => "--workers"
  | verbose => "--verbose"
  | help => "--help"

namespace UsageFault

def message : UsageFault → String
  | missingCommand => "A command is missing."
  | unknownCommand name => s!"There is no command {name.quoted}."
  | unknownOption argument => s!"There is no option {argument.quoted}."
  | missingValue name => s!"{name.long} needs a value."
  | unwantedValue name => s!"{name.long} takes no value."
  | unexpectedWord word => s!"Nothing is expected at {word.quoted}."
  | badWorkers value => s!"{value.quoted} is no number of workers."
  | badFixtures value => s!"{value.quoted} is no path."

end UsageFault

namespace Request

def usage : List String := [
  "Usage: verify [OPTIONS]",
  "",
  "Run every registered check against its Invalid and Valid samples.",
  "",
  "  -f, --fixtures PATH   Fixture root (default: from pyproject.toml)",
  "  -c, --check NAME      Only run these checks (repeatable)",
  "  -w, --workers N       Parallel checks",
  "  -v, --verbose         Show engine session details",
  "      --help            Show this message"]

end Request

end LintGate
