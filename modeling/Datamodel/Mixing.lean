import Datamodel.Fragment
import Datamodel.Inputs
import Datamodel.Merge
import Datamodel.Mixer
import Datamodel.Schema.Printer

/-! Running mixers.

`Mixer.mix` answers with what a mixer makes of the files of a tree and leaves the tree alone;
`Mixer.run` writes it to the output. Of several mixers each works on the tree that those before it
leave behind, whether they failed or not. -/

namespace Datamodel

/-- What a mixer made. -/
structure Mix where
  label : String
  output : Path
  /-- All files that were asked for, in the order of the merge. -/
  inputs : List Path
  /-- How many of them were loaded. -/
  fragments : Nat
  schema : Schema
  rendered : String
  deriving DecidableEq, Repr

/-- Why a mixer failed. -/
inductive MixError where
  | badPattern (e : PatternError)
  | notRendered (label : String) (e : RenderError)
  | notWritten (path : Path) (reason : FileError)
  deriving DecidableEq, Repr

/-- The wording of the error. -/
def MixError.message : MixError → String
  | badPattern e => e.message
  | notRendered label e => "mixer `" ++ label ++ "` cannot render its schema: " ++ e.message
  | notWritten path reason => "failed to write " ++ path.text ++ ": " ++ reason.message

/-- Writes a text into a file, and makes the folders on the way to it. -/
def FileTree.save (t : FileTree) (p : Path) (text : String) :
    FileTree × Except FileError Unit :=
  match t.makeFolders (p.parent?.getD []) with
  | (t', .error reason) => (t', .error reason)
  | (t', .ok ()) =>
    match t'.write p text with
    | .error reason => (t', .error reason)
    | .ok t'' => (t'', .ok ())

namespace Mixer

/-- The files that a mixer takes. Its output is none of them. -/
def inputs (m : Mixer) (t : FileTree) (root : Path) : Except PatternError (List Path) :=
  resolveInputs t root m.input [⟨m.output⟩]

/-- The merge of the files that a mixer takes. -/
def mix (m : Mixer) (t : FileTree) (root : Path) : Except MixError Mix :=
  match m.inputs t root with
  | .error e => .error (.badPattern e)
  | .ok inputs =>
    let fragments := loadFragments t inputs
    let schema := merge fragments m.datasource
    match schema.toText with
    | .error e => .error (.notRendered m.label e)
    | .ok rendered =>
      .ok {
        label := m.label, output := root.join ⟨m.output⟩, inputs
        fragments := fragments.length, schema, rendered }

/-- Writes the merge to the output. -/
def run (m : Mixer) (t : FileTree) (root : Path) : FileTree × Except MixError Mix :=
  match m.mix t root with
  | .error e => (t, .error e)
  | .ok made =>
    match t.save made.output made.rendered with
    | (t', .error reason) => (t', .error (.notWritten made.output reason))
    | (t', .ok ()) => (t', .ok made)

end Mixer

/-- Runs mixers one after another, or only mixes if nothing is to be written, and answers with the
label of each and what came of it. -/
def runAll (write : Bool) (root : Path) (t : FileTree) :
    List Mixer → FileTree × List (String × Except MixError Mix)
  | [] => (t, [])
  | m :: ms =>
    let (t', result) := if write then m.run t root else (t, m.mix t root)
    let (t'', results) := runAll write root t' ms
    (t'', (m.label, result) :: results)

end Datamodel
