import LintGate.Console
import LintGate.Console.Markup

/-!
# The terminal

The console that the program itself prints on. It escapes the tags of a text one by one, and
refuses an item in which a tag is closed that was not opened.
-/

namespace LintGate

namespace Markup

/-- Escapes the tags of a text that follows so many backslashes. -/
def escapeTags : Nat → List Char → List Char
  | _, [] => []
  | pending, c :: rest =>
    if c = '[' && (tag? rest).isSome then backslashes (pending + 1) ++ c :: escapeTags 0 rest
    else c :: escapeTags (if c = '\\' then pending + 1 else 0) rest

def endsInOne (text : List Char) : Bool :=
  match text.reverse with
  | '\\' :: '\\' :: _ => false
  | '\\' :: _ => true
  | _ => false

/-- Escapes the tags of a text, and doubles a single backslash at its end against a tag that may
follow. -/
def escape (text : List Char) : List Char :=
  let escaped := escapeTags 0 text
  if endsInOne escaped then escaped ++ ['\\'] else escaped

end Markup

def Console.terminal : Console where
  escape text := String.ofList (Markup.escape text.toList)
  refusal? item :=
    if item.texts.all fun text => Markup.nests 0 (Markup.read text.toList) then none
    else some (.raised .markup "A tag is closed that was not opened.")

end LintGate
