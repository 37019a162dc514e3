import Datamodel.Block.Grammar
import Datamodel.FileTree
import Datamodel.Notes
import Datamodel.Resolution
import Datamodel.Token.Lexer

/-! From a schema text to a fragment.

The structure of the text is read by its grammar, and the storage notes line by line; the
notes then fill what the structure leaves open. -/

namespace Datamodel

/-- The blocks of a schema text. -/
def Block.ofText (source : String) : Except SourceError (List Block) := do
  Block.ofTokens (← Token.tokenize source)

/-- The schema that the structure of a text declares, without storage notes. -/
def Schema.ofText (source : String) : Except SourceError Schema := do
  resolve (← Block.ofText source)

/-- Why no fragment was loaded. -/
inductive LoadError where
  | unreadable (path : Path) (reason : FileError)
  | refused (origin : String) (cause : SourceError)
  deriving DecidableEq, Repr

/-- The wording of the error. -/
def LoadError.message : LoadError → String
  | unreadable path reason => "failed to read " ++ path.text ++ ": " ++ reason.message
  | refused origin cause => "failed to parse " ++ origin ++ ": " ++ cause.message

/-- Loads a schema text under the name of its origin. A byte order mark is no part of it. -/
def Fragment.load (origin source : String) : Except LoadError Fragment :=
  let text := Text.dropMark source.toList
  match Schema.ofText (String.ofList text) with
  | .error cause => .error (.refused origin cause)
  | .ok schema =>
    .ok { origin, schema := { schema with
      models := (Notes.extract text).overlay schema.models } }

/-- Loads the schema file of a path, under the name of that path. -/
def Fragment.ofFile (t : FileTree) (p : Path) : Except LoadError Fragment :=
  match t.read p with
  | .error reason => .error (.unreadable p reason)
  | .ok source => Fragment.load p.text source

/-- Loads schema files, less those that cannot be loaded. -/
def loadFragments (t : FileTree) (paths : List Path) : List Fragment :=
  paths.filterMap fun p => (Fragment.ofFile t p).toOption

end Datamodel
