import Datamodel.Schema
import Datamodel.Text.Blank
import Datamodel.Text.Quoted

/-! Schemas as text, in one fixed layout.

A schema is a banner and its blocks, an empty line between any two; a block is indented by two
spaces. Two things have no text: a field of unsupported kind, and a default that is none. -/

namespace Datamodel

/-- Why a schema has no text. -/
inductive RenderError where
  | unsupportedKind (model field : String) (kind : FieldKind)
  | unsupportedDefault (model field raw : String)
  deriving DecidableEq, Repr

/-- The wording of the error. -/
def RenderError.message : RenderError → String
  | unsupportedKind model field kind =>
    "unsupported field kind \"" ++ kind.toText ++ "\" on " ++ model ++ "." ++ field
  | unsupportedDefault model field raw =>
    "unsupported default value `" ++ raw ++ "` on " ++ model ++ "." ++ field

open Text.Quoted (quote)

namespace Printer

/-- The first line of every schema. -/
def banner : String := "// *** GENERATED BY SCHEMA MIXER :: DO NOT EDIT ***"

def commaList (items : List String) : String := ", ".intercalate items

/-- Names between brackets. -/
def nameList (names : List String) : String := "[" ++ commaList names ++ "]"

/-- String literals between brackets. -/
def textList (values : List String) : String := nameList (values.map quote)

def isBlankLine (line : String) : Bool := Text.allBlank line.toList

/-- The lines of a text, which line feeds separate. -/
def splitLines (s : String) : List String := (s.toList.splitOn '\n').map String.ofList

/-- A documentation text as comment lines. -/
def docLines : Option String → List String
  | none => []
  | some text =>
    (splitLines text).map fun line => if line.isEmpty then "///" else "/// " ++ line

/-- A block. Blank lines are left out. -/
def block (keyword name : String) (lines : List String) (documentation : Option String) :
    String :=
  String.join ((docLines documentation).map (· ++ "\n")) ++
    keyword ++ " " ++ name ++ " \x7b\n" ++
    String.join ((lines.filter (!isBlankLine ·)).map ("  " ++ · ++ "\n")) ++ "\x7d"

/-- The argument `name: "..."`, if there is a name. -/
def nameArgument : Option String → List String
  | none => []
  | some name => ["name: " ++ quote name]

/-- A block attribute over a list of fields, such as `@@unique([a, b], name: "n")`. -/
def indexLine (attr : String) (index : Index) : String :=
  attr ++ "(" ++ commaList (nameList index.fields :: nameArgument index.name) ++ ")"

/-- The line `@@map("...")`, if there is a name and it is not empty. -/
def mapLine (dbName : Option String) : List String :=
  match dbName.filter (!·.isEmpty) with
  | none => []
  | some name => ["@@map(" ++ quote name ++ ")"]

end Printer

open Printer

def EnvValue.toText : EnvValue → String
  | env name => "env(" ++ quote name ++ ")"
  | value literal => quote literal

def ConfigValue.toText : ConfigValue → String
  | text value => quote value
  | env name => "env(" ++ quote name ++ ")"
  | list values => textList values
  | raw written => written

def ConfigEntry.toText (e : ConfigEntry) : String := e.key ++ " = " ++ e.value.toText

def DataSource.toText (d : DataSource) : String :=
  block "datasource" d.name
    (["provider = " ++ quote d.provider] ++
      (d.url.map fun url => "url = " ++ url.toText).toList ++
      d.config.map ConfigEntry.toText)
    none

def Generator.toText (g : Generator) : String :=
  block "generator" g.name
    (["provider = " ++ g.provider.toText] ++
      (g.output.map fun output => "output = " ++ output.toText).toList ++
      g.config.map ConfigEntry.toText ++
      (if g.binaryTargets.isEmpty then [] else ["binaryTargets = " ++ textList g.binaryTargets]) ++
      (if g.previewFeatures.isEmpty then []
        else ["previewFeatures = " ++ textList g.previewFeatures]))
    none

/-- A name in the database is written only where it differs. -/
def EnumValue.toText (v : EnumValue) : String :=
  match v.dbName with
  | some dbName => if dbName = v.name then v.name else v.name ++ " @map(" ++ quote dbName ++ ")"
  | none => v.name

def Enum.toText (e : Enum) : String :=
  block "enum" e.name (e.values.map EnumValue.toText ++ mapLine e.dbName) e.documentation

/-- A relation as an attribute. The side without a link gives no more than its name, and without a
name nothing. -/
def Relation.toText (r : Relation) : String :=
  if r.fromFields.isEmpty then
    if r.name.isEmpty then "" else "@relation(name: " ++ quote r.name ++ ")"
  else
    "@relation(" ++ commaList (
      ["name: " ++ quote r.name, "fields: " ++ nameList r.fromFields,
        "references: " ++ nameList r.toFields] ++
      (r.onDelete.map fun action => "onDelete: " ++ action.toText).toList ++
      (r.onUpdate.map fun action => "onUpdate: " ++ action.toText).toList ++
      (r.map.map fun name => "map: " ++ quote name).toList) ++ ")"

/-- The value of a default, or the text that makes it none. A string is quoted where the type of
the field is a scalar that is written so, and the arguments of `dbgenerated` are one string. -/
def DefaultValue.valueText (kind : FieldKind) (type : String) : DefaultValue → Except String String
  | text value =>
    .ok (if kind = .scalar ∧ type ≠ "BigInt" then quote value else value)
  | number lexeme => .ok lexeme
  | boolean value => .ok (if value then "true" else "false")
  | member name => .ok name
  | call function args =>
    .ok (function ++ "(" ++
      (if function = "dbgenerated" then quote (commaList args) else commaList args) ++ ")")
  | unrecognized raw => .error raw

/-- A default of the field `f` as an attribute. -/
def Field.defaultText (model : String) (f : Field) (default : DefaultValue) :
    Except RenderError String :=
  match default.valueText f.kind f.type with
  | .ok value => .ok ("@default(" ++ value ++ ")")
  | .error raw => .error (.unsupportedDefault model f.name raw)

/-- The mark of a list or an optional field, behind its type. -/
def Field.modifier (f : Field) : String :=
  if f.isList then "[]" else if f.isRequired then "" else "?"

/-- The attributes of a field, with the text of its default in its place. -/
def Field.attributeTexts (f : Field) (default : Option String) : List String :=
  (if f.isId then ["@id"] else []) ++
  (if f.isUnique then ["@unique"] else []) ++
  (if f.isUpdatedAt then ["@updatedAt"] else []) ++
  (f.columnName.map fun name => "@map(" ++ quote name ++ ")").toList ++
  default.toList ++ f.nativeType.toList ++ (f.relation.map Relation.toText).toList

/-- The line of a field of the model `model`. -/
def Field.toText (model : String) (f : Field) : Except RenderError String := do
  if f.kind = .unsupported then throw (.unsupportedKind model f.name f.kind)
  let default ← f.default.mapM (f.defaultText model)
  return " ".intercalate
    ((f.name ++ " " ++ f.type ++ f.modifier) ::
      (f.attributeTexts default).filter (!·.isEmpty))

/-- The lines of the fields, each after its documentation. -/
def Model.fieldLines (model : String) : List Field → Except RenderError (List String)
  | [] => .ok []
  | f :: fs => do
    let line ← f.toText model
    let lines ← Model.fieldLines model fs
    return docLines f.documentation ++ line :: lines

/-- The lines of a model that follow its fields. -/
def Model.attributeLines (m : Model) : List String :=
  m.uniqueIndexes.map (indexLine "@@unique") ++ m.secondaryIndexes ++ mapLine m.dbName ++
    ((m.primaryKey.filter (!·.fields.isEmpty)).map (indexLine "@@id")).toList

def Model.toText (m : Model) : Except RenderError String := do
  let lines ← Model.fieldLines m.name m.fields
  return block (if m.isView then "view" else "model") m.name (lines ++ m.attributeLines)
    m.documentation

/-- The text of a schema: data sources, generators, models, enums. -/
def Schema.toText (s : Schema) : Except RenderError String := do
  let models ← s.models.mapM Model.toText
  return "\n\n".intercalate
    (banner :: s.datasources.map DataSource.toText ++ s.generators.map Generator.toText ++
      models ++ s.enums.map Enum.toText) ++ "\n"

end Datamodel
