import LintGate.Text.Lines
import LintGate.Violation

/-!
# Expectations

The violations that a sample is expected to have are written one to a line: the number of the
line, a colon, and the description. Blanks around the number and around the description do not
count, nor do blank lines. `parse` reads such a text, or names the first line that is none.
-/

namespace LintGate

structure Expectation where
  line : Nat
  message : String
  deriving DecidableEq, Repr

namespace Expectation

def key (e : Expectation) : Key := ⟨e.line, .text e.message⟩

def render (e : Expectation) : String := e.key.render

def cutAtColon? (line : List Char) : Option (List Char × List Char) :=
  match line.dropWhile (· != ':') with
  | [] => none
  | _ :: message => some (line.takeWhile (· != ':'), message)

/-- The digits of the position and the message of a line; `none` when it has another form. -/
def split? (line : List Char) : Option (List Char × List Char) :=
  match cutAtColon? line with
  | none => none
  | some (position, message) =>
    let digits := Text.strip position
    if !digits.isEmpty && digits.all Text.isDigit then some (digits, Text.strip message) else none

/-- Reads one line. The number of the line and the source only go into the fault. -/
def parseLine (line : List Char) (number : Int) (source : Option String) :
    Except Fault Expectation :=
  match split? line with
  | none => .error (.malformedExpectation number (String.ofList line) source)
  | some (digits, message) =>
    match Text.Numeral.readDigits digits with
    | .ok n => .ok ⟨n, String.ofList message⟩
    | .error fault => .error (.numeral fault)

def parseLines (source : Option String) : Nat → List (List Char) → Except Fault (List Expectation)
  | _, [] => .ok []
  | number, line :: rest =>
    if Text.allBlank line then parseLines source (number + 1) rest
    else
      match parseLine line number source with
      | .error fault => .error fault
      | .ok e => (parseLines source (number + 1) rest).map (e :: ·)

def parse (text : List Char) (source : Option String) : Except Fault (List Expectation) :=
  parseLines source 1 (Text.splitLines text)

end Expectation

end LintGate
