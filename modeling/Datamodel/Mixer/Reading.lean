import Datamodel.Json
import Datamodel.Mixer
import Datamodel.Yaml.Node

/-! Reading mixers from a configuration.

What mixers look like is said once, by `Mixer.read` and `MixerFile.read`, over a `View` of the
values of a document. JSON and YAML differ in how a value shows itself. -/

namespace Datamodel

/-- A record is given by the names of its fields, or else by its values in the order of the
fields. -/
inductive Record (α : Type) where
  | named (members : List (String × α))
  | ordered (items : List α)

/-- What a value of a document can be taken for. The readers carry along how many aliases may still
be followed. -/
structure View (α : Type) where
  text : α → StateT Nat Option String
  /-- A text that may be missing. -/
  optionalText : α → StateT Nat Option (Option String)
  items : α → StateT Nat Option (List α)
  record : α → StateT Nat Option (Record α)
  /-- One of several words. -/
  choice : α → StateT Nat Option String

namespace View

/-- The values of the fields of a record. Of the given names only those of fields matter, and they
come up once. -/
def fields {α : Type} (v : View α) (names : List String) (x : α) :
    StateT Nat Option (List (Option α)) := do
  match ← v.record x with
  | .named members =>
    let given := (members.map (·.1)).filter (names.contains ·)
    if given.Nodup then return names.map fun name => members.lookup name else failure
  | .ordered items =>
    if items.length ≤ names.length then
      return items.map some ++ List.replicate (names.length - items.length) none
    else failure

end View

/-- The policy with the given name. -/
def Policy.ofText? : String → Option Policy
  | "first" => some .first
  | "last" => some .last
  | _ => none

/-- Reads a mixer. Its name and its policy may be left out. -/
def Mixer.read {α : Type} (v : View α) (x : α) : StateT Nat Option Mixer := do
  match ← v.fields ["name", "input", "output", "datasource"] x with
  | [name, some input, some output, datasource] =>
    return {
      name := ← match name with
        | none => pure none
        | some name => v.optionalText name
      input := ← (← v.items input).mapM v.text
      output := ← v.text output
      datasource := ← match datasource with
        | none => pure .last
        | some policy => do Policy.ofText? (← v.choice policy) }
  | _ => failure

/-- Reads a list of mixers. -/
def MixerFile.read {α : Type} (v : View α) (x : α) : StateT Nat Option MixerFile := do
  match ← v.fields ["mixers"] x with
  | [some mixers] => return { mixers := ← (← v.items mixers).mapM (Mixer.read v) }
  | _ => failure

namespace Json

def text? : Json → Option String
  | text value => value
  | _ => none

/-- In JSON, a value is what it is written as; a choice may be the name of a member that is
null. -/
def view : View Json where
  text value := value.text?
  optionalText
    | null => return none
    | value => return some (← value.text?)
  items
    | array items => return items
    | _ => failure
  record
    | object members => return .named (← members.mapM fun (name, value) => name.map (·, value))
    | array items => return .ordered items
    | _ => failure
  choice
    | object [(some name, null)] => return name
    | value => value.text?

end Json

namespace Yaml

/-- The ways to write that there is no value. -/
def isNull (text : String) : Bool := text ∈ ["null", "Null", "NULL", "~"]

/-- The tag of a missing value. -/
def nullTag : String := "tag:yaml.org,2002:null"

/-- The choice that a tag names: what stands behind its exclamation mark. Other tags name none. -/
def choiceOfTag? (tag : String) : Option String :=
  match tag.toList with
  | '!' :: name => some (String.ofList name)
  | _ => none

def Document.text (d : Document) (node : Node) : StateT Nat Option String := do
  match ← d.follow node with
  | .scalar text _ _ => return text
  | _ => failure

/-- In YAML, each scalar is a text. A plain scalar may stand for nothing, if no tag says
otherwise: without text for no items, and also with one of a few words for no value. -/
def Document.view (d : Document) : View Node where
  text := d.text
  optionalText node := do
    match ← d.follow node with
    | .scalar text true { tag := none, .. } =>
      return if text.isEmpty || isNull text then none else some text
    | .scalar text plain { tag := some tag, .. } =>
      if plain && tag == nullTag then if isNull text then return none else failure
      else return some text
    | .scalar text false _ => return some text
    | _ => failure
  items node := do
    match ← d.follow node with
    | .sequence items _ => return items
    | .scalar "" true _ => return []
    | _ => failure
  record node := do
    match ← d.follow node with
    | .mapping members _ =>
      return .named (← members.mapM fun (key, value) => return (← d.text key, value))
    | .sequence items _ => return .ordered items
    | .scalar "" true _ => return .ordered []
    | _ => failure
  choice node := do
    match ← d.follow node with
    | .scalar text plain p =>
      match p.tag.bind choiceOfTag? with
      | some name => if plain && (text.isEmpty || isNull text) then return name else failure
      | none => return text
    | _ => failure

end Yaml

/-- A reader of the texts of configurations. -/
abbrev ConfigReader := ConfigFormat → String → Option MixerFile

namespace MixerFile

/-- Reads a configuration. -/
def ofText? (format : ConfigFormat) (text : String) : Option MixerFile :=
  match format with
  | .json => (Json.ofText? text.toList).bind fun x => (read Json.view x).run' 0
  | .yaml => (Yaml.Document.ofText? text.toList).bind fun d => (read d.view d.root).run' d.limit

/-- The format of a file, by the end of its name. -/
def formatOf (p : Path) : ConfigFormat := if p.extension? = some "json" then .json else .yaml

/-- Loads the mixers of a file, which have to be such that they can be run. -/
def load (t : FileTree) (p : Path) (reader : ConfigReader := ofText?) :
    Except ConfigError MixerFile :=
  match t.read p with
  | .error reason => .error (.unreadable reason)
  | .ok text =>
    match reader (formatOf p) text with
    | none => .error (.malformed (formatOf p))
    | some c =>
      match c.fault? with
      | some fault => .error (.invalid fault)
      | none => .ok c

/-- The names under which a configuration is looked for. -/
def defaultNames : List String := ["schema-mixer.yml", "schema-mixer.yaml", "schema-mixer.json"]

/-- The first configuration in a folder. -/
def default? (t : FileTree) (root : Path) : Option Path :=
  (defaultNames.map fun name => root.join ⟨name⟩).find? t.isFile

end MixerFile

end Datamodel
