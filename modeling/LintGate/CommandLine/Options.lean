import LintGate.CommandLine
import LintGate.Text.Count

/-!
# Options of the command line

The arguments of the program are the command `verify` and its options, in any order. An option's
value follows it as the next argument, whatever that is, or behind an equals sign for a long name
and immediately behind a short one. Two dashes alone end the options. `Request.read` says what is
asked for; every way in which arguments can be wrong is a `UsageFault`.

Only the program itself reads arguments. The theory of the command begins with the `VerifyOptions`
that come out of them, and takes any.
-/

namespace LintGate

inductive OptionName
  | fixtures
  | check
  | workers
  | verbose
  | help
  deriving DecidableEq, Repr

namespace OptionName

def takesValue : OptionName → Bool
  | fixtures | check | workers => true
  | verbose | help => false

def ofLong? (name : String) : Option OptionName :=
  [("--fixtures", fixtures), ("--check", check), ("--workers", workers), ("--verbose", verbose),
    ("--help", help)].lookup name

def ofShort? (letter : Char) : Option OptionName :=
  [('f', fixtures), ('c', check), ('w', workers), ('v', verbose)].lookup letter

end OptionName

inductive UsageFault
  | missingCommand
  | unknownCommand (name : String)
  | unknownOption (argument : String)
  | missingValue (name : OptionName)
  | unwantedValue (name : OptionName)
  | unexpectedWord (word : String)
  /-- The number of workers is no positive integer. -/
  | badWorkers (value : String)
  /-- The directory of the fixtures can be no path. -/
  | badFixtures (value : String)
  deriving DecidableEq, Repr

abbrev GivenOption := OptionName × String

/-- The options in one argument, and the one whose value has to be the next argument. -/
structure OptionArgument where
  given : List GivenOption
  awaiting : Option OptionName
  deriving DecidableEq, Repr

namespace OptionArgument

/-- Whether an argument has the form of options: a dash and more. -/
def isOption (argument : String) : Bool :=
  match argument.toList with
  | '-' :: _ :: _ => true
  | _ => false

/-- Reads options of one letter each. The letters behind one that takes a value are its value. -/
def readLetters (argument : String) : List Char → Except UsageFault OptionArgument
  | [] => .ok ⟨[], none⟩
  | letter :: rest =>
    match OptionName.ofShort? letter with
    | none => .error (.unknownOption argument)
    | some name =>
      if name.takesValue then
        if rest.isEmpty then .ok ⟨[], some name⟩ else .ok ⟨[(name, String.ofList rest)], none⟩
      else
        (readLetters argument rest).map fun more => { more with given := (name, "") :: more.given }

def readLong (argument : String) : Except UsageFault OptionArgument :=
  let chars := argument.toList
  match OptionName.ofLong? (String.ofList (chars.takeWhile (· != '='))) with
  | none => .error (.unknownOption argument)
  | some name =>
    match chars.dropWhile (· != '=') with
    | _ :: value =>
      if name.takesValue then .ok ⟨[(name, String.ofList value)], none⟩
      else .error (.unwantedValue name)
    | [] => if name.takesValue then .ok ⟨[], some name⟩ else .ok ⟨[(name, "")], none⟩

def read (argument : String) : Except UsageFault OptionArgument :=
  match argument.toList with
  | '-' :: '-' :: _ => readLong argument
  | _ :: letters => readLetters argument letters
  | [] => .ok ⟨[], none⟩

end OptionArgument

/-- Arguments taken apart: the options in order, and the words that are none. -/
structure Arguments where
  given : List GivenOption
  words : List String
  deriving DecidableEq, Repr

namespace Arguments

def withGiven (given : List GivenOption) (a : Arguments) : Arguments :=
  { a with given := given ++ a.given }

def read : List String → Except UsageFault Arguments
  | [] => .ok ⟨[], []⟩
  | argument :: rest =>
    if argument = "--" then .ok ⟨[], rest⟩
    else if !OptionArgument.isOption argument then
      (read rest).map fun a => { a with words := argument :: a.words }
    else
      match OptionArgument.read argument with
      | .error fault => .error fault
      | .ok ⟨given, none⟩ => (read rest).map (withGiven given)
      | .ok ⟨given, some name⟩ =>
        match rest with
        | [] => .error (.missingValue name)
        | value :: rest => (read rest).map (withGiven (given ++ [(name, value)]))

def values (a : Arguments) (name : OptionName) : List String :=
  a.given.filterMap fun (n, value) => if n = name then some value else none

/-- The value of an option that holds: the last one. -/
def value? (a : Arguments) (name : OptionName) : Option String := (a.values name).getLast?

def has (a : Arguments) (name : OptionName) : Bool := !(a.values name).isEmpty

end Arguments

inductive Request
  | help
  | verify (options : VerifyOptions)
  deriving DecidableEq, Repr

namespace Request

def readWorkers (value : String) : Except UsageFault Int :=
  match Text.Count.read? value.toList with
  | some n => if 1 ≤ n then .ok n else .error (.badWorkers value)
  | none => .error (.badWorkers value)

/-- The directory of the fixtures: anything that holds no NUL. -/
def readFixtures (value : String) : Except UsageFault Path :=
  if value.toList.contains '\x00' then .error (.badFixtures value) else .ok (Path.ofString value)

/-- The request in the arguments behind `verify`. Help comes first. -/
def readVerify (arguments : List String) : Except UsageFault Request := do
  let a ← Arguments.read arguments
  if a.has .help then return .help
  let fixtures ← (a.value? .fixtures).mapM readFixtures
  let workers ← (a.value? .workers).mapM readWorkers
  match a.words with
  | word :: _ => .error (.unexpectedWord word)
  | [] =>
    return .verify {
      fixtures
      checks := a.values .check
      workers
      verbose := a.has .verbose }

/-- Whether help is asked for in front of the first word, and the arguments from that word on. -/
def readLeading (asked : Bool) : List String → Except UsageFault (Bool × List String)
  | [] => .ok (asked, [])
  | argument :: rest =>
    if argument = "--" then .ok (asked, rest)
    else if !OptionArgument.isOption argument then .ok (asked, argument :: rest)
    else if argument = "--help" then readLeading true rest
    else .error (.unknownOption argument)

def commandName : String := "verify"

/-- Reads the arguments of the gate. An unknown command that has the form of an option is read as
one after all. -/
def read (arguments : List String) : Except UsageFault Request := do
  let (asked, words) ← readLeading false arguments
  if asked then return .help
  match words with
  | [] => .error .missingCommand
  | command :: rest =>
    if command = commandName then readVerify rest
    else if (← readLeading false words).1 then return .help
    else .error (.unknownCommand command)

end Request

end LintGate
