import Datamodel.Text.Visible

/-! What a run reports while it goes on.

An event has a level and a source; `Event.isShown` tells from which verbosity on it is shown, and
`Event.toText` is its line. -/

namespace Datamodel

/-- The part of the program that reports an event. -/
inductive LogSource where
  | commandLine
  /-- What works on schemas. -/
  | core (part : String)
  /-- What works on texts and files. -/
  | loader (part : String)
  deriving DecidableEq, Repr

def LogSource.toText : LogSource → String
  | commandLine => "schema_mixer"
  | core part => "schema_mixer_core::" ++ part
  | loader part => "schema_mixer_loader::" ++ part

inductive Level where
  | error
  | warn
  | info
  | debug
  deriving DecidableEq, Repr

namespace Level

def toText : Level → String
  | error => "ERROR"
  | warn => "WARN"
  | info => "INFO"
  | debug => "DEBUG"

/-- How much has to be asked for to see events of a level. Warnings and errors are always seen. -/
def rank : Level → Nat
  | error | warn => 0
  | info => 1
  | debug => 2

end Level

/-- Something that happened, with the names and the texts of what it is about. -/
structure Event where
  level : Level
  source : LogSource
  message : String
  fields : List (String × String) := []
  deriving DecidableEq, Repr

namespace Event

/-- The verbosity from which on an event is shown. The command line itself reports one level
less. -/
def verbosity (e : Event) : Nat :=
  match e.source, e.level.rank with
  | _, 0 => 0
  | .commandLine, n => n + 1
  | _, n => n

def isShown (verbosity : Nat) (e : Event) : Bool := e.verbosity ≤ verbosity

/-- The line of an event. From a verbosity of two on it names the source. -/
def toText (verbosity : Nat) (e : Event) : String :=
  e.level.toText ++ " " ++ (if 2 ≤ verbosity then e.source.toText ++ ": " else "") ++ e.message ++
    String.join (e.fields.map fun (name, value) => " " ++ name ++ "=" ++ value)

end Event

/-! ### Texts in events -/

namespace Event

/-- One character as it stands in a quoted text. -/
def quoteChar : Char → List Char
  | '"' => ['\\', '"']
  | '\\' => ['\\', '\\']
  | '\x00' => ['\\', '0']
  | '\t' => ['\\', 't']
  | '\n' => ['\\', 'n']
  | '\r' => ['\\', 'r']
  | c =>
    if Text.isVisible c then [c]
    else ['\\', 'u', '{'] ++ Nat.toDigits 16 c.toNat ++ ['}']

/-- A text between quotes, with codes for what does not show. -/
def quoted (s : String) : String := String.ofList ('"' :: s.toList.flatMap quoteChar ++ ['"'])

def quotedList (values : List String) : String := "[" ++ ", ".intercalate (values.map quoted) ++ "]"

end Event

end Datamodel
