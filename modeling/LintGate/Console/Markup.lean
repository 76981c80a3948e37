/-!
# Console markup

The console reads text with style tags in square brackets. In front of a tag two backslashes
stand for one, and a single one left over makes the tag a text. `read` says what the console makes
of a text.
-/

namespace LintGate.Markup

def opensTag (c : Char) : Bool := ('a' ≤ c && c ≤ 'z') || c == '#' || c == '/' || c == '@'

/-- Whether a character is inside a tag and not at its end. -/
def inTag (c : Char) : Bool := c != '[' && c != ']'

/-- What stands between the brackets of a tag, for a text that begins behind the first one. -/
def tag? : List Char → Option (List Char)
  | [] => none
  | c :: rest =>
    if opensTag c && (rest.dropWhile inTag).head? == some ']' then some (c :: rest.takeWhile inTag)
    else none

def backslashes (n : Nat) : List Char := List.replicate n '\\'

/-- What the console reads: a character to show, or a tag. -/
inductive Item
  | shown (c : Char)
  | tag (body : List Char)
  deriving DecidableEq, Repr

def showAll (text : List Char) : List Item := text.map .shown

/-- Reads a text that follows so many backslashes, not yet shown. Inside a tag, everything up to
the closing bracket is passed over. -/
def readFrom : (inside : Bool) → (pending : Nat) → List Char → List Item
  | _, pending, [] => showAll (backslashes pending)
  | true, _, c :: rest => readFrom (c != ']') 0 rest
  | false, pending, c :: rest =>
    if c = '\\' then readFrom false (pending + 1) rest
    else
      match if c = '[' then tag? rest else none with
      | none => showAll (backslashes pending) ++ .shown c :: readFrom false 0 rest
      | some body =>
        showAll (backslashes (pending / 2)) ++
          if pending % 2 = 1 then .shown c :: readFrom false 0 rest
          else .tag body :: readFrom true 0 rest

def read (text : List Char) : List Item := readFrom false 0 text

/-- Whether each closing tag has an opening one before it, with so many tags open at the start.
Closing tags that name a style and tags of actions are not looked into. -/
def nests : (opened : Nat) → List Item → Bool
  | _, [] => true
  | opened, .shown _ :: rest => nests opened rest
  | opened, .tag body :: rest =>
    if body = ['/'] then 0 < opened && nests (opened - 1) rest
    else body.head? != some '/' && body.head? != some '@' && nests (opened + 1) rest

def shown (items : List Item) : List Char :=
  items.filterMap fun
    | .shown c => some c
    | .tag _ => none

/-- The text with its tags taken out and its escapes undone. -/
def plain (text : String) : String := String.ofList (shown (read text.toList))

end LintGate.Markup
