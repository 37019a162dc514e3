import Datamodel.FileTree
import Datamodel.Selection
import Datamodel.Text.Blank

/-! Mixers: which files are merged into which file.

A configuration lists mixers. `MixerFile.check` tells whether they can be run at all, and
`MixerFile.select` picks some of them by their labels. -/

namespace Datamodel

/-- A merge of the files that some patterns name into one file. -/
structure Mixer where
  name : Option String := none
  input : List String
  output : String
  datasource : Policy := .last
  deriving DecidableEq, Repr

/-- What a mixer is called: its name, or the path of its output. -/
def Mixer.label (m : Mixer) : String := m.name.getD m.output

/-- The mixers of a configuration. -/
structure MixerFile where
  mixers : List Mixer
  deriving DecidableEq, Repr

/-- What a configuration is written in. -/
inductive ConfigFormat where
  | json
  | yaml
  deriving DecidableEq, Repr

/-- Why mixers cannot be run. -/
inductive ConfigFault where
  | noMixers
  /-- Mixers are counted from one. -/
  | noOutput (number : Nat)
  | noInputs (label : String)
  deriving DecidableEq, Repr

def ConfigFault.message : ConfigFault → String
  | noMixers => "no mixers defined"
  | noOutput number => "mixer #" ++ toString number ++ " has an empty output path"
  | noInputs label => "mixer `" ++ label ++ "` has no inputs"

/-- Why there are no mixers to run. -/
inductive ConfigError where
  | unreadable (reason : FileError)
  /-- The text holds no configuration of its format. -/
  | malformed (format : ConfigFormat)
  | invalid (fault : ConfigFault)
  | unknownMixer (label : String)
  deriving DecidableEq, Repr

/-- The wording of the error. -/
def ConfigError.message : ConfigError → String
  | unreadable reason => "I/O error: " ++ reason.message
  | malformed .json => "JSON error: the text is no list of mixers"
  | malformed .yaml => "YAML error: the text is no list of mixers"
  | invalid fault => "invalid config: " ++ fault.message
  | unknownMixer label => "unknown mixer `" ++ label ++ "`"

/-- Why a mixer cannot be run. -/
def Mixer.fault? (m : Mixer) (number : Nat) : Option ConfigFault :=
  if Text.allBlank m.output.toList then some (.noOutput number)
  else if m.input.isEmpty then some (.noInputs m.label)
  else none

namespace MixerFile

/-- Why the mixers cannot be run. The first fault counts. -/
def fault? (c : MixerFile) : Option ConfigFault :=
  if c.mixers.isEmpty then some .noMixers
  else (c.mixers.zipIdx 1).findSome? fun (m, number) => m.fault? number

/-- The mixers with the given labels, in their own order, or all of them if none is given. -/
def select (c : MixerFile) (labels : List String) : Except ConfigError (List Mixer) :=
  match labels.find? fun label => !c.mixers.any (·.label == label) with
  | some label => .error (.unknownMixer label)
  | none => .ok (if labels.isEmpty then c.mixers else c.mixers.filter (labels.contains ·.label))

end MixerFile

end Datamodel
