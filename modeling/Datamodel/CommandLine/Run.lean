import Datamodel.CommandLine
import Datamodel.Mixer.Reading
import Datamodel.Outline.Json
import Datamodel.Outline.Yaml
import Datamodel.Trace

/-! Running a command on a tree of files.

`Invocation.run` answers with a report: the exit code, what is printed, what is logged, and the tree
that is left behind. What the text of a configuration says is up to a reader. -/

namespace Datamodel

/-- What came of a run. -/
structure Report where
  code : Nat := 0
  stdout : String := ""
  stderr : String := ""
  /-- The lines of the events that are shown. -/
  logs : List String := []
  tree : FileTree
  deriving Repr

/-- Why a command failed as a whole. -/
inductive CommandError where
  | noConfig (cwd : Path)
  | badConfig (path : Path) (e : ConfigError)
  | badSelection (e : ConfigError)
  /-- The labels of the mixers that failed. -/
  | failedMixers (labels : List String)
  | notFolder (path : Path)
  | nothingLoaded
  | notRendered (e : RenderError)
  deriving DecidableEq, Repr

/-- The wording of the error. -/
def CommandError.message : CommandError → String
  | noConfig cwd =>
    "no schema-mixer.yml, schema-mixer.yaml or schema-mixer.json found in " ++ cwd.text
  | badConfig path e => path.text ++ ": " ++ e.message
  | badSelection e => e.message
  | failedMixers labels =>
    toString labels.length ++ " mixer(s) failed: " ++ ", ".intercalate labels
  | notFolder path => path.text ++ " is not a directory"
  | nothingLoaded => "none of the given files could be loaded"
  | notRendered e => e.message

/-- What a command did. -/
structure Deed where
  tree : FileTree
  stdout : String := ""
  stderr : String := ""
  events : List Event := []
  failure : Option CommandError := none
  deriving Repr

/-! ### Mixing -/

/-- The configuration that is asked for, or else the one in the working folder. -/
def configPath (t : FileTree) (config : Option Path) (cwd : Path) : Except CommandError Path :=
  match config with
  | some p => .ok (cwd.join p)
  | none =>
    match MixerFile.default? t cwd with
    | some p => .ok p
    | none => .error (.noConfig cwd)

/-- The mixers to run. -/
def selectedMixers (t : FileTree) (path : Path) (labels : List String)
    (reader : ConfigReader := MixerFile.ofText?) : Except CommandError (List Mixer) :=
  match MixerFile.load t path reader with
  | .error e => .error (.badConfig path e)
  | .ok c =>
    match c.select labels with
    | .error e => .error (.badSelection e)
    | .ok mixers => .ok mixers

/-- What is printed for a mixer that succeeded. -/
def Mix.summary (made : Mix) (toStdout : Bool) : String :=
  if toStdout then made.rendered
  else made.label ++ ": merged " ++ toString made.fragments ++ " of " ++
    toString made.inputs.length ++ " file(s) into " ++ made.output.text ++ "\n"

/-- What is printed for the results of mixers, on standard output and on standard error. -/
def summaries (toStdout : Bool) :
    List (String × Except MixError Mix) → String × String
  | [] => ("", "")
  | (label, result) :: more =>
    let (out, err) := summaries toStdout more
    match result with
    | .ok made => (made.summary toStdout ++ out, err)
    | .error e => (out, label ++ ": " ++ e.message ++ "\n" ++ err)

/-- The labels of the mixers that failed. -/
def failedLabels (results : List (String × Except MixError Mix)) : List String :=
  (results.filter fun (_, result) => !result.isOk).map (·.1)

def runMix (t : FileTree) (config : Option Path) (cwd : Path) (labels : List String)
    (toStdout : Bool) (reader : ConfigReader) : Deed :=
  match configPath t config cwd with
  | .error e => { tree := t, failure := some e }
  | .ok path =>
    let loading : Event := ⟨.debug, .commandLine, "loading config", [("path", path.text)]⟩
    match selectedMixers t path labels reader with
    | .error e => { tree := t, events := [loading], failure := some e }
    | .ok mixers =>
      let (tree, results) := runAll (!toStdout) cwd t mixers
      let (stdout, stderr) := summaries toStdout results
      let failed := failedLabels results
      { tree, stdout, stderr
        events := loading :: Trace.ofRunAll (!toStdout) cwd t mixers
        failure := if failed.isEmpty then none else some (.failedMixers failed) }

/-! ### Scanning and inspecting -/

def runScan (t : FileTree) (cwd dir : Path) : Deed :=
  let dir := cwd.join dir
  if t.isFolder dir then
    { tree := t
      stdout := String.join ((t.scan dir).map fun p => (p.relativeTo cwd).text ++ "\n") }
  else { tree := t, failure := some (.notFolder dir) }

/-- A schema in one of the formats. -/
def Schema.inFormat (s : Schema) : InspectFormat → Except RenderError String
  | .json => .ok s.outline.toJson
  | .yaml => .ok s.outline.toYaml
  | .prisma => s.toText

def runInspect (t : FileTree) (cwd : Path) (files : List Path) (format : InspectFormat) : Deed :=
  let paths := files.map cwd.join
  let fragments := loadFragments t paths
  let events := paths.flatMap (Trace.ofFile t)
  if fragments.isEmpty then { tree := t, events, failure := some .nothingLoaded }
  else
    let events := events ++ Trace.ofMerge fragments .last
    match (merge fragments).inFormat format with
    | .ok stdout => { tree := t, stdout, events }
    | .error e => { tree := t, events, failure := some (.notRendered e) }

/-! ### The command line -/

/-- What a command does. -/
def Invocation.deed (i : Invocation) (t : FileTree) (reader : ConfigReader) : Deed :=
  match i.command with
  | .mix labels toStdout => runMix t i.config i.cwd labels toStdout reader
  | .scan dir => runScan t i.cwd dir
  | .inspect files format => runInspect t i.cwd files format

/-- Runs a command. A failure is the last that is said on standard error. -/
def Invocation.run (i : Invocation) (t : FileTree) (reader : ConfigReader) : Report :=
  let deed := i.deed t reader
  { code := if deed.failure.isSome then 1 else 0
    stdout := deed.stdout
    stderr := deed.stderr ++ match deed.failure with
      | some e => "error: " ++ e.message ++ "\n"
      | none => ""
    logs := (deed.events.filter (Event.isShown i.verbosity)).map (Event.toText i.verbosity)
    tree := deed.tree }

/-- Runs the command that arguments name. -/
def runArguments (args : List String) (t : FileTree)
    (reader : ConfigReader := MixerFile.ofText?) : Report :=
  match Invocation.ofArguments args with
  | .ok i => i.run t reader
  | .error (.help topic) => { stdout := Usage.helpText topic, tree := t }
  | .error .invalid =>
    { code := 2, stderr := "error: invalid arguments\n\n" ++ Usage.helpText .program, tree := t }

end Datamodel
