import Datamodel.Schema
import Datamodel.Text.Blank
import Datamodel.Text.Pattern
import Datamodel.Text.Word

/-! Storage notes: column names, native types, update actions, constraint names and secondary
indexes, read off the lines of a schema text.

The reader looks at one line at a time and knows no tokens. A text is cut after each line feed with
a closing brace behind it; in each piece the first line that opens a model names the model to which
the lines after it belong. -/

namespace Datamodel

/-- What a line says about the storage of a field. -/
structure FieldNotes where
  columnName : Option String := none
  nativeType : Option String := none
  onUpdate : Option ReferentialAction := none
  /-- The name of the relation's constraint. -/
  relationMap : Option String := none
  deriving DecidableEq, Repr

/-- What a line of a model says about storage. -/
inductive LineNote where
  | field (name : String) (notes : FieldNotes)
  | secondaryIndex (text : String)
  deriving DecidableEq, Repr

namespace Notes

open Text (after? firstMatch isBlank isWordChar)

/-! ### The parts of a line -/

/-- The name in `@map("...")`. A character that is no `@` has to stand before it, so `@@map` is
none. -/
def columnName? (line : List Char) : Option String :=
  line |> firstMatch fun
    | '@' :: _ => none
    | _ :: s => do
      let s ← after? "@map(".toList s
      let (name, s) ← Text.quotedPrefix? s
      let _ ← after? [')'] s
      return String.ofList name
    | [] => none

/-- Arguments between parentheses, one character at least, at the head of `s`; the empty text if
there are none. -/
def parenthesized (s : List Char) : List Char :=
  match s with
  | '(' :: s =>
    match Text.span (· != ')') s with
    | (c :: args, ')' :: _) => '(' :: c :: args ++ [')']
    | _ => []
  | _ => []

/-- The native type `@db.Name`, with its arguments. -/
def nativeType? (line : List Char) : Option String :=
  line |> firstMatch fun s => do
    let s ← after? "@db.".toList s
    match Text.span (fun c => !(isBlank c || c == '(' || c == ')')) s with
    | ([], _) => none
    | (name, s) => some (String.ofList ("@db.".toList ++ name ++ parenthesized s))

/-- The action that `s` starts with. -/
def actionPrefix? (s : List Char) : Option ReferentialAction :=
  ReferentialAction.all.find? fun action => (after? action.toText.toList s).isSome

/-- The action after `onUpdate:`. -/
def onUpdate? (relation : List Char) : Option ReferentialAction :=
  relation |> firstMatch fun s => do
    let s ← after? "onUpdate:".toList s
    actionPrefix? (Text.trimLeft s)

/-- The name after `map:`, where no word character stands before that. -/
def relationMap? (relation : List Char) : Option String :=
  relation |> firstMatch fun
    | c :: s => do
      if isWordChar c then none
      let s ← after? "map:".toList s
      let (name, _) ← Text.quotedPrefix? (Text.trimLeft s)
      return String.ofList name
    | [] => none

/-- `@@index(...)` up to the last closing parenthesis on its line. -/
def secondaryIndex? (line : List Char) : Option String :=
  line |> firstMatch fun s => do
    let s ← after? "@@index(".toList s
    let args ← Text.throughLast? ')' (s.takeWhile (· != '\n'))
    return String.ofList ("@@index(".toList ++ args)

/-- The rest of a line from its first `@relation(` on, where the arguments of a relation stand. -/
def relationPart (line : List Char) : List Char :=
  (firstMatch (fun s => (after? "@relation(".toList s).map fun _ => s) line).getD []

/-- What a field's line says, given the line as it stands and trimmed. -/
def ofFieldLine (line trimmed : List Char) : FieldNotes where
  columnName := columnName? line
  nativeType := nativeType? trimmed
  onUpdate := onUpdate? (relationPart trimmed)
  relationMap := relationMap? (relationPart trimmed)

/-- What a line of a model says. Blank lines and comments say nothing, and a line that starts with
`@@` no more than a secondary index; any other is taken for the field that its first word names. -/
def ofLine? (line : List Char) : Option LineNote :=
  let trimmed := Text.trim line
  if trimmed.isEmpty || (after? "//".toList trimmed).isSome then none
  else if (after? "@@".toList trimmed).isSome then
    (secondaryIndex? trimmed).map LineNote.secondaryIndex
  else
    let notes := ofFieldLine line trimmed
    if notes = {} then none
    else some (.field (String.ofList (trimmed.takeWhile (!isBlank ·))) notes)

/-- The name of the model that a line opens. -/
def openedModel? (line : List Char) : Option String := do
  let line := Text.trimLeft line
  let s ← (after? "model".toList line).or (after? "view".toList line)
  let (blanks, s) := Text.span isBlank s
  let (name, s) := Text.span isWordChar s
  if blanks.isEmpty || name.isEmpty then none
  let _ ← after? ['{'] (Text.trimLeft s)
  return String.ofList name

/-! ### The whole text -/

end Notes

/-- The annotated lines of a model, in the order of the text. -/
structure ModelNotes where
  model : String
  lines : List LineNote
  deriving DecidableEq, Repr

/-- What a text says about the storage of its models. A model may come up more than once. -/
abbrev Notes := List ModelNotes

namespace Notes

/-- The notes of one piece: the lines after the first that opens a model. -/
def ofLines? : List (List Char) → Option ModelNotes
  | [] => none
  | line :: more =>
    match openedModel? line with
    | some model => some ⟨model, more.filterMap ofLine?⟩
    | none => ofLines? more

/-- The notes of a schema text. -/
def extract (source : List Char) : Notes :=
  (Text.splitAtClosings source).filterMap fun piece => ofLines? (Text.lines piece)

end Notes

namespace Notes

/-- All annotated lines of the model of that name, if the text opens it at all. -/
def linesOf? (as : Notes) (model : String) : Option (List LineNote) :=
  if as.any (·.model == model) then
    some ((as.filter (·.model == model)).flatMap (·.lines))
  else none

end Notes

namespace LineNote

def fieldName? : LineNote → Option String
  | field name _ => some name
  | secondaryIndex _ => none

def secondaryIndex? : LineNote → Option String
  | field _ _ => none
  | secondaryIndex text => some text

def notesOf? (name : String) : LineNote → Option FieldNotes
  | field n notes => if n = name then some notes else none
  | secondaryIndex _ => none

/-- What lines say about the field of that name. The last of them that says anything counts. -/
def fieldIn? (lines : List LineNote) (name : String) : Option FieldNotes :=
  (lines.filterMap (notesOf? name)).getLast?

/-- The secondary indexes in lines. -/
def secondaryIndexesIn (lines : List LineNote) : List String :=
  lines.filterMap secondaryIndex?

end LineNote

/-! ### The overlay -/

/-- A relation with the annotated action and constraint name where it has none. -/
def Relation.overlay (r : Relation) (a : FieldNotes) : Relation :=
  { r with
    onUpdate := r.onUpdate.or a.onUpdate
    map := r.map.or a.relationMap }

/-- A field with what its notes add. What the field has stays. -/
def Field.overlay (f : Field) (a : FieldNotes) : Field :=
  { f with
    columnName := f.columnName.or a.columnName
    nativeType := f.nativeType.or a.nativeType
    relation := f.relation.map (·.overlay a) }

/-- A model with what its lines add. Its secondary indexes become those of the lines. -/
def Model.overlay (m : Model) (lines : List LineNote) : Model :=
  { m with
    fields := m.fields.map fun f =>
      match LineNote.fieldIn? lines f.name with
      | some a => f.overlay a
      | none => f
    secondaryIndexes := LineNote.secondaryIndexesIn lines }

/-- Models with what the notes of a text add. -/
def Notes.overlay (as : Notes) (models : List Model) : List Model :=
  models.map fun m =>
    match as.linesOf? m.name with
    | some lines => m.overlay lines
    | none => m

end Datamodel
