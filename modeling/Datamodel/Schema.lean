import Datamodel.Text.Pattern

/-! The datamodel: models with their fields, indexes and relations, enums, data sources and
generators.

A `Schema` holds what one text declares, or what the merge of several yields. A `Fragment` is the
schema of one text, with the name of where it came from. -/

namespace Datamodel

/-- The built-in types of fields. -/
def scalarTypes : List String :=
  ["String", "Boolean", "Int", "BigInt", "Float", "Decimal", "DateTime", "Json", "Bytes"]

/-- What the type of a field refers to. -/
inductive FieldKind where
  | scalar
  | object
  | enum
  | unsupported
  deriving DecidableEq, Repr

def FieldKind.toText : FieldKind → String
  | scalar => "scalar"
  | object => "object"
  | enum => "enum"
  | unsupported => "unsupported"

/-- What happens to a record when the one that it refers to goes away or changes. -/
inductive ReferentialAction where
  | cascade
  | restrict
  | noAction
  | setNull
  | setDefault
  deriving DecidableEq, Repr

namespace ReferentialAction

def all : List ReferentialAction := [cascade, restrict, noAction, setNull, setDefault]

def toText : ReferentialAction → String
  | cascade => "Cascade"
  | restrict => "Restrict"
  | noAction => "NoAction"
  | setNull => "SetNull"
  | setDefault => "SetDefault"

/-- The action that a text names, exactly as it is written. -/
def ofText? (text : String) : Option ReferentialAction := all.find? (·.toText == text)

theorem ofText?_toText (a : ReferentialAction) : ofText? a.toText = some a := by
  cases a <;> decide

end ReferentialAction

/-- The default of a field. -/
inductive DefaultValue where
  | text (value : String)
  /-- A number, kept as it is written. -/
  | number (lexeme : String)
  | boolean (value : Bool)
  /-- A value of the field's enum. -/
  | member (name : String)
  | call (function : String) (args : List String)
  /-- An expression that is no default, as it is written. -/
  | unrecognized (raw : String)
  deriving DecidableEq, Repr

/-- The relation that an object field stands for. The side that holds the link names the fields of
both sides. -/
structure Relation where
  name : String
  fromFields : List String := []
  toFields : List String := []
  onDelete : Option ReferentialAction := none
  onUpdate : Option ReferentialAction := none
  /-- The name of the constraint in the database. -/
  map : Option String := none
  deriving DecidableEq, Repr

structure Field where
  name : String
  kind : FieldKind
  /-- The name of the type; for an unsupported field the whole `Unsupported("...")`. -/
  type : String
  isList : Bool := false
  isRequired : Bool := true
  default : Option DefaultValue := none
  isUnique : Bool := false
  isId : Bool := false
  isUpdatedAt : Bool := false
  columnName : Option String := none
  /-- The `@db.` attribute, as it is written. -/
  nativeType : Option String := none
  relation : Option Relation := none
  documentation : Option String := none
  deriving DecidableEq, Repr

/-- A list of fields taken together, with a name of its own or without. -/
structure Index where
  name : Option String := none
  fields : List String := []
  deriving DecidableEq, Repr

structure Model where
  name : String
  fields : List Field := []
  /-- The name of the table in the database. -/
  dbName : Option String := none
  uniqueIndexes : List Index := []
  /-- The fields of the unique indexes, index by index. -/
  uniqueFields : List (List String) := []
  /-- The `@@index` attributes, as they are written. -/
  secondaryIndexes : List String := []
  primaryKey : Option Index := none
  documentation : Option String := none
  deriving DecidableEq, Repr

namespace Model

def field? (m : Model) (name : String) : Option Field := m.fields.find? (·.name == name)

def fieldNames (m : Model) : List String := m.fields.map (·.name)

/-- A model whose name holds `view` is a view. -/
def isView (m : Model) : Bool := Text.contains "view".toList m.name.toList

def addUniqueIndex (m : Model) (index : Index) : Model :=
  { m with
    uniqueIndexes := m.uniqueIndexes ++ [index]
    uniqueFields := m.uniqueFields ++ [index.fields] }

end Model

structure EnumValue where
  name : String
  dbName : Option String := none
  deriving DecidableEq, Repr

structure Enum where
  name : String
  values : List EnumValue := []
  dbName : Option String := none
  documentation : Option String := none
  deriving DecidableEq, Repr

/-- A text given in place, or the environment variable that holds it. -/
inductive EnvValue where
  | env (name : String)
  | value (text : String)
  deriving DecidableEq, Repr

/-- The value of a property that has no meaning of its own. -/
inductive ConfigValue where
  | text (value : String)
  | env (name : String)
  | list (values : List String)
  /-- Any other expression, as it is written. -/
  | raw (text : String)
  deriving DecidableEq, Repr

structure ConfigEntry where
  key : String
  value : ConfigValue
  deriving DecidableEq, Repr

structure DataSource where
  name : String
  provider : String
  url : Option EnvValue := none
  config : List ConfigEntry := []
  deriving DecidableEq, Repr

structure Generator where
  name : String
  provider : EnvValue
  output : Option EnvValue := none
  previewFeatures : List String := []
  binaryTargets : List String := []
  config : List ConfigEntry := []
  deriving DecidableEq, Repr

structure Schema where
  models : List Model := []
  enums : List Enum := []
  datasources : List DataSource := []
  generators : List Generator := []
  deriving DecidableEq, Repr

namespace Schema

instance : Inhabited Schema := ⟨{}⟩

/-- The declarations of two schemas, one after the other. -/
def append (a b : Schema) : Schema where
  models := a.models ++ b.models
  enums := a.enums ++ b.enums
  datasources := a.datasources ++ b.datasources
  generators := a.generators ++ b.generators

instance : Append Schema := ⟨append⟩

def model? (s : Schema) (name : String) : Option Model := s.models.find? (·.name == name)

def enum? (s : Schema) (name : String) : Option Enum := s.enums.find? (·.name == name)

def isEmpty (s : Schema) : Bool :=
  s.models.isEmpty && s.enums.isEmpty && s.datasources.isEmpty && s.generators.isEmpty

end Schema

/-- The schema of one text. -/
structure Fragment where
  /-- Where the text came from, as a path or any other name. -/
  origin : String
  schema : Schema := {}
  deriving DecidableEq, Repr

end Datamodel
