/-! Paths of files, as they are written.

A path is its text; different texts may name the same file. `Path.steps` is what a text says about
the way to the file, and `Path.normal` is that way without the steps that stay where they are: two
paths are taken for the same if their normal forms are. -/

namespace Datamodel

/-- A path, as it is written. -/
structure Path where
  text : String
  deriving DecidableEq, Repr

/-- A step on the way that a path describes. -/
inductive Path.Step where
  | root
  | here
  | up
  | down (name : String)
  deriving DecidableEq, Repr

namespace Path

namespace Step

/-- The step that the text between two slashes stands for. No text, no step. -/
def ofPiece? : List Char → Option Step
  | [] => none
  | ['.'] => some here
  | ['.', '.'] => some up
  | piece => some (down (String.ofList piece))

/-- Where a step stands among steps of other kinds, and its name. -/
def key : Step → Nat × String
  | root => (0, "")
  | here => (1, "")
  | up => (2, "")
  | down name => (3, name)

/-- Names come after all other steps, and stand in the order of their code points. -/
def before (a b : Step) : Bool :=
  a.key.1 < b.key.1 || (a.key.1 == b.key.1 && a.key.2 < b.key.2)

end Step

/-- The texts between the slashes of a path. -/
def pieces (p : Path) : List (List Char) := p.text.toList.splitOn '/'

def isAbsolute (p : Path) : Bool := p.text.toList.head? == some '/'

def endsInSlash (p : Path) : Bool := p.text.toList.getLast? == some '/'

/-- The steps of a path, in order. -/
def steps (p : Path) : List Step :=
  (if p.isAbsolute then [.root] else []) ++ p.pieces.filterMap Step.ofPiece?

/-- The way a path describes, whatever its spelling. -/
def normal (p : Path) : List Step := p.steps.filter (· != .here)

/-- The components of a path: its steps, less those that stay where they are. At the start of a
path such a step counts. -/
def components (p : Path) : List Step :=
  match p.steps with
  | .here :: ss => .here :: ss.filter (· != .here)
  | ss => ss.filter (· != .here)

/-- Paths are sorted component by component, so that a folder and what is in it stay together. -/
def le (p q : Path) : Bool := !List.lex q.components p.components Step.before

/-- `p`, as seen from `base`. -/
def join (base p : Path) : Path :=
  if p.isAbsolute || base.text.isEmpty then p
  else if base.endsInSlash then ⟨base.text ++ p.text⟩
  else ⟨base.text ++ "/" ++ p.text⟩

/-- The path of the folder that the last component stands in. The root and the empty path have no
such folder. -/
def parent? (p : Path) : Option (List Step) :=
  match p.components.getLast? with
  | none | some .root => none
  | some _ => some p.components.dropLast

/-- The name at the end of a path, if it ends in one. -/
def fileName? (p : Path) : Option String :=
  match p.components.getLast? with
  | some (.down name) => some name
  | _ => none

/-- What follows the last dot of a name, unless that dot is its first character. -/
def nameExtension? (name : String) : Option String :=
  match name.toList.reverse.span (· != '.') with
  | (ext, '.' :: _ :: _) => some (String.ofList ext.reverse)
  | _ => none

def extension? (p : Path) : Option String := p.fileName?.bind nameExtension?

/-- Whether the text between two slashes is a component, if it is not the first. -/
def isInnerComponent (piece : List Char) : Bool := piece != [] && piece != ['.']

/-- The pieces after the first `n` inner components. -/
def dropInner : Nat → List (List Char) → List (List Char)
  | _, [] => []
  | 0, piece :: rest => if isInnerComponent piece then piece :: rest else dropInner 0 rest
  | n + 1, piece :: rest => dropInner (if isInnerComponent piece then n else n + 1) rest

/-- The path without its first `n` components. -/
def dropComponents (p : Path) (n : Nat) : Path :=
  let rest := match n, p.pieces with
    | 0, pieces => pieces
    | n + 1, [] :: rest | n + 1, ['.'] :: rest => dropInner n rest
    | n + 1, pieces => dropInner (n + 1) pieces
  ⟨String.ofList (['/'].intercalate rest)⟩

/-- `p` as seen from `base`, if `base` is on the way to it, and otherwise `p` itself. -/
def relativeTo (p base : Path) : Path :=
  if base.components.isPrefixOf p.components then p.dropComponents base.components.length else p

end Path

end Datamodel
