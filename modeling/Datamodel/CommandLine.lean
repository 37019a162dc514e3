import Datamodel.Path

/-! The arguments of the command line.

Arguments are read from left to right. Those before the name of a command and those behind it are
kept apart: each option may be given once on either side, and what stands behind the name counts
more. -/

namespace Datamodel

/-- What an inspected schema is shown as. -/
inductive InspectFormat where
  | json
  | yaml
  | prisma
  deriving DecidableEq, Repr

def InspectFormat.ofText? : String → Option InspectFormat
  | "json" => some .json
  | "yaml" => some .yaml
  | "prisma" => some .prisma
  | _ => none

/-- The names of commands. -/
inductive CommandName where
  | mix
  | scan
  | inspect
  deriving DecidableEq, Repr

def CommandName.ofText? : String → Option CommandName
  | "mix" => some .mix
  | "scan" => some .scan
  | "inspect" => some .inspect
  | _ => none

/-- What is to be done. -/
inductive Command where
  /-- Runs the mixers with the given labels, or all of them. -/
  | mix (labels : List String) (toStdout : Bool)
  | scan (dir : Path)
  | inspect (files : List Path) (format : InspectFormat)
  deriving DecidableEq, Repr

/-- A command, and where it finds its files. -/
structure Invocation where
  config : Option Path
  verbosity : Nat
  /-- The folder that all paths are relative to. -/
  cwd : Path
  command : Command
  deriving DecidableEq, Repr

/-- What help can be asked for on. -/
inductive HelpTopic where
  | program
  | command (name : CommandName)
  /-- Help itself, which is asked for like a command. -/
  | help
  deriving DecidableEq, Repr

/-- The topic of a command, if there is one. -/
def HelpTopic.ofCommand (command : Option CommandName) : HelpTopic :=
  (command.map HelpTopic.command).getD .program

/-- Why arguments make no invocation. -/
inductive Usage where
  | invalid
  | help (topic : HelpTopic)
  deriving DecidableEq, Repr

/-- Options and operands on one side of the name of a command. -/
structure Arguments where
  config : Option Path := none
  cwd : Option Path := none
  verbosity : Nat := 0
  labels : List String := []
  toStdout : Bool := false
  format : Option InspectFormat := none
  operands : List Path := []
  deriving DecidableEq, Repr

/-- An option with a value. -/
inductive ValueOption where
  | config
  | cwd
  | mixer
  | format
  deriving DecidableEq, Repr

/-- The option with a value that a command knows by a name. Two of them are known everywhere. -/
def ValueOption.ofText? (command : Option CommandName) : String → Option ValueOption
  | "config" => some .config
  | "cwd" => some .cwd
  | "mixer" => if command = some .mix then some .mixer else none
  | "format" => if command = some .inspect then some .format else none
  | _ => none

/-- A path as an argument; it has to have some text. -/
def pathArgument (text : String) : Except Usage Path :=
  if text.isEmpty then .error .invalid else .ok ⟨text⟩

namespace Arguments

/-- Takes an option with its value. Only mixers may be given more than once. -/
def setOption (a : Arguments) (option : ValueOption) (value : String) :
    Except Usage Arguments := do
  match option with
  | .mixer => return { a with labels := a.labels ++ [value] }
  | .config =>
    if a.config.isSome then throw .invalid
    return { a with config := ← pathArgument value }
  | .cwd =>
    if a.cwd.isSome then throw .invalid
    return { a with cwd := ← pathArgument value }
  | .format =>
    match a.format, InspectFormat.ofText? value with
    | none, some format => return { a with format := some format }
    | _, _ => throw .invalid

/-- Takes an operand of a command. -/
def addOperand (a : Arguments) (command : CommandName) (text : String) :
    Except Usage Arguments := do
  let full := match command with
    | .mix => true
    | .scan => !a.operands.isEmpty
    | .inspect => false
  if full then throw .invalid
  return { a with operands := a.operands ++ [← pathArgument text] }

/-- Takes options of one letter each. -/
def addLetters (a : Arguments) (command : Option CommandName) :
    List Char → Except Usage Arguments
  | [] => .ok a
  | 'v' :: letters => { a with verbosity := a.verbosity + 1 }.addLetters command letters
  | 'h' :: _ => .error (.help (.ofCommand command))
  | _ => .error .invalid

end Arguments

/-- How far the arguments have been read. -/
structure ArgumentReader where
  /-- What stands before the name of the command. -/
  outer : Arguments := {}
  command : Option CommandName := none
  /-- What stands behind it. -/
  inner : Arguments := {}
  /-- An option whose value comes next. -/
  pending : Option ValueOption := none
  /-- Whether there are only operands left. -/
  onlyOperands : Bool := false
  /-- What help is asked for on, if it is asked for like a command. -/
  topic : Option HelpTopic := none
  deriving DecidableEq, Repr

namespace ArgumentReader

/-- The side that is being read. -/
def side (r : ArgumentReader) : Arguments := if r.command.isSome then r.inner else r.outer

def setSide (r : ArgumentReader) (a : Arguments) : ArgumentReader :=
  if r.command.isSome then { r with inner := a } else { r with outer := a }

/-- Takes an operand; the first one is the name of the command. -/
def operand (r : ArgumentReader) (text : String) : Except Usage ArgumentReader :=
  match r.command with
  | some command => (r.inner.addOperand command text).map r.setSide
  | none =>
    if r.onlyOperands then .error .invalid
    else if text == "help" then .ok { r with topic := some .program }
    else match CommandName.ofText? text with
      | some command => .ok { r with command := some command }
      | none => .error .invalid

/-- Takes a long option, from behind its dashes. Its value stands behind an equals sign or is the
next argument. -/
def long (r : ArgumentReader) (text : List Char) : Except Usage ArgumentReader :=
  let name := String.ofList (text.takeWhile (· != '='))
  let value : Option String := match text.dropWhile (· != '=') with
    | '=' :: value => some (String.ofList value)
    | _ => none
  match ValueOption.ofText? r.command name, value with
  | some option, some value => (r.side.setOption option value).map r.setSide
  | some option, none => .ok { r with pending := some option }
  | none, some _ => .error .invalid
  | none, none =>
    if name == "help" then .error (.help (.ofCommand r.command))
    else if name == "stdout" && r.command == some .mix && !r.inner.toStdout then
      .ok { r with inner := { r.inner with toStdout := true } }
    else .error .invalid

/-- Narrows a topic down by the name of a command. -/
def narrow (topic : HelpTopic) (text : String) : Except Usage HelpTopic :=
  match topic, CommandName.ofText? text with
  | .program, some name => .ok (.command name)
  | .program, none => if text == "help" then .ok .help else .error .invalid
  | _, _ => .error .invalid

/-- Takes an argument. -/
def step (r : ArgumentReader) (text : String) : Except Usage ArgumentReader :=
  if let some topic := r.topic then
    (narrow topic text).map fun topic => { r with topic := some topic }
  else if r.onlyOperands then r.operand text
  else match r.pending, text.toList with
    | some _, '-' :: _ :: _ => .error .invalid
    | some option, _ => (r.side.setOption option text).map { r with pending := none }.setSide
    | none, ['-', '-'] => .ok { r with onlyOperands := true }
    | none, '-' :: '-' :: text => r.long text
    | none, '-' :: letter :: letters =>
      (r.side.addLetters r.command (letter :: letters)).map r.setSide
    | none, _ => r.operand text

/-- The command with its operands, of which none may be missing. -/
def command? (name : CommandName) (a : Arguments) : Option Command :=
  match name, a.operands with
  | .mix, _ => some (.mix a.labels a.toStdout)
  | .scan, [dir] => some (.scan dir)
  | .scan, _ => none
  | .inspect, [] => none
  | .inspect, files => some (.inspect files (a.format.getD .prisma))

/-- The invocation, once all arguments are read. -/
def finish (r : ArgumentReader) : Except Usage Invocation :=
  if let some topic := r.topic then .error (.help topic)
  else if r.pending.isSome then .error .invalid
  else match r.command.bind (command? · r.inner) with
    | none => .error .invalid
    | some command => .ok {
        config := r.inner.config.or r.outer.config
        verbosity := if r.inner.verbosity = 0 then r.outer.verbosity else r.inner.verbosity
        cwd := (r.inner.cwd.or r.outer.cwd).getD ⟨"."⟩
        command }

end ArgumentReader

/-- Reads the arguments of the command line. -/
def Invocation.ofArguments (args : List String) : Except Usage Invocation := do
  (← args.foldlM ArgumentReader.step {}).finish

/-! ### Help -/

namespace Usage

def aboutConfig : String :=
  "      --config <CONFIG>  Config file (default: schema-mixer.yml, .yaml or .json in the " ++
    "working directory)\n"

def aboutVerbosity : String := "  -v...                  Increase verbosity (-v, -vv, -vvv)\n"

def aboutFolder : String :=
  "      --cwd <CWD>        Directory that input and output paths are relative to [default: .]\n" ++
  "  -h, --help             Print help\n"

/-- The text that is printed when help is asked for. -/
def helpText : HelpTopic → String
  | .program =>
    "Merge Prisma schema fragments into one schema file\n\n" ++
    "Usage: schema-mixer [OPTIONS] <COMMAND>\n\n" ++
    "Commands:\n" ++
    "  mix      Run the configured mixers\n" ++
    "  scan     List the schema files a directory scan picks up\n" ++
    "  inspect  Load and merge schema files and print the result\n" ++
    "  help     Print this message or the help of the given subcommand(s)\n\n" ++
    "Options:\n" ++ aboutConfig ++ aboutVerbosity ++ aboutFolder
  | .command .mix =>
    "Run the configured mixers\n\n" ++
    "Usage: schema-mixer mix [OPTIONS]\n\n" ++
    "Options:\n" ++ aboutConfig ++
    "      --mixer <MIXERS>   Only run the named mixer. Repeatable\n" ++
    "      --stdout           Print the rendered schemas instead of writing them\n" ++
    aboutVerbosity ++ aboutFolder
  | .command .scan =>
    "List the schema files a directory scan picks up\n\n" ++
    "Usage: schema-mixer scan [OPTIONS] <DIR>\n\n" ++
    "Arguments:\n  <DIR>  Directory to scan recursively\n\n" ++
    "Options:\n" ++ aboutConfig ++ aboutVerbosity ++ aboutFolder
  | .command .inspect =>
    "Load and merge schema files and print the result\n\n" ++
    "Usage: schema-mixer inspect [OPTIONS] <FILES>...\n\n" ++
    "Arguments:\n  <FILES>...  Schema files, merged in the order given\n\n" ++
    "Options:\n" ++ aboutConfig ++
    "      --format <FORMAT>  [default: prisma] [possible values: json, yaml, prisma]\n" ++
    aboutVerbosity ++ aboutFolder
  | .help =>
    "Print this message or the help of the given subcommand(s)\n\n" ++
    "Usage: schema-mixer help [COMMAND]...\n\n" ++
    "Arguments:\n  [COMMAND]...  Print help for the subcommand(s)\n"

end Usage

end Datamodel
