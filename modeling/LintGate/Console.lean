import LintGate.Console.Printed
import LintGate.Fault

/-!
# Consoles

A console is handed items one after the other. It has its own way to write a text so that none of
it is read as markup, and it may refuse an item, of which nothing is shown then.
-/

namespace LintGate

structure Console where
  escape : String → String
  refusal? : Printed → Option Fault

namespace Console

/-- Prints items up to the first one that is refused. -/
def print (c : Console) : List Printed → List Printed × Option Fault
  | [] => ([], none)
  | item :: rest =>
    match c.refusal? item with
    | some fault => ([], some fault)
    | none =>
      let (shown, refused) := c.print rest
      (item :: shown, refused)

end Console

end LintGate
