import Datamodel.Path
import Datamodel.Text.Utf8

/-! Trees of files and folders, without links.

A tree lists its files and folders with the names on the way to them. Looking up, making and
writing follow the rules of a file system: each step of a path starts at a folder, folders are made
one at a time, and a file is written as a whole. -/

namespace Datamodel

/-- The names on the way from the root to a file or a folder. -/
abbrev Location := List String

/-- What a file holds. -/
inductive Content where
  | text (text : String)
  /-- Bytes that are no text. -/
  | binary (bytes : List UInt8)
  deriving DecidableEq, Repr

namespace Content

/-- What bytes hold. -/
def ofBytes (bytes : ByteArray) : Content :=
  match String.fromUTF8? bytes with
  | some s => text s
  | none => binary bytes.toList

/-- The content as a text, with replacement characters for bytes that are no text. -/
def toText : Content → String
  | text s => s
  | binary bytes => String.ofList (Text.ofBytes bytes)

end Content

inductive Entry where
  | file (content : Content)
  | folder
  deriving DecidableEq, Repr

/-- Why a file or a folder cannot be read or made. -/
inductive FileError where
  | missing
  | isFolder
  | notFolder
  | taken
  | notText
  deriving DecidableEq, Repr

/-- The wording of the error. -/
def FileError.message : FileError → String
  | missing => "No such file or directory (os error 2)"
  | isFolder => "Is a directory (os error 21)"
  | notFolder => "Not a directory (os error 20)"
  | taken => "File exists (os error 17)"
  | notText => "stream did not contain valid UTF-8"

/-- A tree of files and folders. -/
structure FileTree where
  /-- The files and folders, the root apart. -/
  entries : List (Location × Entry) := []
  /-- The folder where relative paths start. -/
  start : Location := []
  deriving DecidableEq, Repr

namespace Location

/-- Locations are sorted name by name, so that a folder comes before what is in it. -/
def le (a b : Location) : Bool := !List.lex b a (fun x y => decide (x < y))

/-- Where a step leads from a location. -/
def follow (loc : Location) : Path.Step → Location
  | .root => []
  | .here => loc
  | .up => loc.dropLast
  | .down name => loc ++ [name]

end Location

/-- The entries, with one more or one replaced. -/
def putEntry (loc : Location) (e : Entry) : List (Location × Entry) → List (Location × Entry)
  | [] => [(loc, e)]
  | (l, x) :: rest => if l = loc then (loc, e) :: rest else (l, x) :: putEntry loc e rest

theorem lookup_putEntry (loc l : Location) (e : Entry) (entries : List (Location × Entry)) :
    (putEntry loc e entries).lookup l = if l = loc then some e else entries.lookup l := by
  induction entries with
  | nil => rw [putEntry, List.lookup_cons, List.lookup_nil]; grind
  | cons x rest ih =>
    obtain ⟨k, v⟩ := x
    simp only [putEntry]
    split <;> rw [List.lookup_cons, List.lookup_cons] <;> grind

namespace FileTree

/-- What is at a location. The root is a folder. -/
def lookup? (t : FileTree) (loc : Location) : Option Entry :=
  if loc = [] then some .folder else t.entries.lookup loc

/-- The tree with an entry at a location. -/
def put (t : FileTree) (loc : Location) (e : Entry) : FileTree :=
  { t with entries := putEntry loc e t.entries }

theorem lookup?_put {t : FileTree} {loc : Location} {e : Entry} (h : loc ≠ []) (l : Location) :
    (t.put loc e).lookup? l = if l = loc then some e else t.lookup? l := by
  by_cases hl : l = []
  · simp [lookup?, hl, Ne.symm h]
  · simp [lookup?, put, hl, lookup_putEntry]

/-- The tree without what is at a location and below it. -/
def erase (t : FileTree) (loc : Location) : FileTree :=
  { t with entries := t.entries.filter fun x => !loc.isPrefixOf x.1 }

/-- What is below a location, with the way to it from there. -/
def below (t : FileTree) (loc : Location) : List (Location × Entry) :=
  t.entries.filterMap fun (l, e) =>
    match loc.isPrefixOf? l with
    | some (name :: more) => some (name :: more, e)
    | _ => none

/-- A tree that can exist: no location comes up twice, a name is not empty and holds no slash,
and what a location goes through is a folder. -/
structure WellFormed (t : FileTree) : Prop where
  nodup : (t.entries.map (·.1)).Nodup
  ne_root : ∀ x ∈ t.entries, x.1 ≠ []
  names : ∀ x ∈ t.entries, ∀ name ∈ x.1, name ≠ "" ∧ name ≠ "." ∧ name ≠ ".." ∧ '/' ∉ name.toList
  folders : ∀ x ∈ t.entries, t.lookup? x.1.dropLast = some .folder
  start : t.lookup? t.start = some .folder

/-! ### Finding -/

/-- Where steps lead from a location. Each of them starts at a folder; what is there in the end is
not asked. -/
def walk (t : FileTree) (loc : Location) : List Path.Step → Except FileError Location
  | [] => .ok loc
  | s :: more =>
    match t.lookup? loc with
    | none => .error .missing
    | some (.file _) => .error .notFolder
    | some .folder => t.walk (loc.follow s) more

/-- What steps lead to from the starting folder, and where that is. No steps lead nowhere. -/
def findSteps (t : FileTree) (steps : List Path.Step) : Except FileError (Location × Entry) :=
  if steps.isEmpty then .error .missing
  else match t.walk t.start steps with
    | .error e => .error e
    | .ok loc =>
      match t.lookup? loc with
      | none => .error .missing
      | some e => .ok (loc, e)

/-- What a path leads to, and where that is. A slash at the end asks for a folder. -/
def find (t : FileTree) (p : Path) : Except FileError (Location × Entry) :=
  match t.findSteps p.steps with
  | .ok (_, .file _) =>
    if p.endsInSlash then .error .notFolder else t.findSteps p.steps
  | found => found

/-- The location of the folder that a path leads to. -/
def folder? (t : FileTree) (p : Path) : Option Location :=
  match t.find p with
  | .ok (loc, .folder) => some loc
  | _ => none

def isFolder (t : FileTree) (p : Path) : Bool := (t.folder? p).isSome

def isFile (t : FileTree) (p : Path) : Bool :=
  match t.find p with
  | .ok (_, .file _) => true
  | _ => false

/-- Whether a path leads to anything. -/
def has (t : FileTree) (p : Path) : Bool := (t.find p).isOk

/-- The text of a file. -/
def read (t : FileTree) (p : Path) : Except FileError String :=
  match t.find p with
  | .error e => .error e
  | .ok (_, .folder) => .error .isFolder
  | .ok (_, .file (.binary _)) => .error .notText
  | .ok (_, .file (.text text)) => .ok text

/-! ### Making and writing -/

/-- The location of the folder in which the last of some steps is taken. -/
def lastFolder (t : FileTree) (steps : List Path.Step) : Except FileError Location :=
  match t.walk t.start steps.dropLast with
  | .error e => .error e
  | .ok loc =>
    match t.lookup? loc with
    | none => .error .missing
    | some (.file _) => .error .notFolder
    | some .folder => .ok loc

/-- Makes one folder, where there is nothing yet. -/
def makeFolder (t : FileTree) (steps : List Path.Step) : Except FileError FileTree :=
  match steps.getLast? with
  | none => .error .missing
  | some last =>
    match t.lastFolder steps with
    | .error e => .error e
    | .ok loc =>
      match last with
      | .down name =>
        match t.lookup? (loc ++ [name]) with
        | some _ => .error .taken
        | none => .ok (t.put (loc ++ [name]) .folder)
      | _ => .error .taken

/-- Whether steps lead to a folder. -/
def leadsToFolder (t : FileTree) (steps : List Path.Step) : Bool :=
  match t.findSteps steps with
  | .ok (_, .folder) => true
  | _ => false

/-- Makes one folder, unless it is there. -/
def ensureFolder (t : FileTree) (steps : List Path.Step) : Except FileError FileTree :=
  match t.makeFolder steps with
  | .ok t' => .ok t'
  | .error e => if t.leadsToFolder steps then .ok t else .error e

/-- Makes a folder and those on the way to it, unless they are there. What was made stays, also if
a later one cannot be made. -/
def makeFolders (t : FileTree) (steps : List Path.Step) : FileTree × Except FileError Unit :=
  if _h : steps = [] then (t, .ok ())
  else
    match t.ensureFolder steps with
    | .ok t' => (t', .ok ())
    | .error .missing =>
      match t.makeFolders steps.dropLast with
      | (t', .error e) => (t', .error e)
      | (t', .ok ()) =>
        match t'.ensureFolder steps with
        | .ok t'' => (t'', .ok ())
        | .error e => (t', .error e)
    | .error e => (t, .error e)
termination_by steps.length
decreasing_by
  have := List.length_pos_iff.2 ‹_›
  simp only [List.length_dropLast]
  omega

/-- The location of the file that is written through a path: a new one in a folder that is there,
or one that is there. -/
def writable (t : FileTree) (p : Path) : Except FileError Location :=
  match p.steps.getLast? with
  | none => .error .missing
  | some last =>
    match t.lastFolder p.steps with
    | .error e => .error e
    | .ok loc =>
      match last with
      | .down name =>
        if p.endsInSlash || t.lookup? (loc ++ [name]) == some .folder then .error .isFolder
        else .ok (loc ++ [name])
      | _ => .error .isFolder

/-- Writes a text into a file, which is made if need be. -/
def write (t : FileTree) (p : Path) (text : String) : Except FileError FileTree :=
  (t.writable p).map fun loc => t.put loc (.file (.text text))

end FileTree

end Datamodel
