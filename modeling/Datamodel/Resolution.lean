import Datamodel.Block
import Datamodel.Error
import Datamodel.Schema

/-! From the blocks of a text to the schema that it declares.

A field's type is built in or the name of a model or an enum of the same text. Only what the schema
holds is taken from the attributes; the others have no effect here. -/

namespace Datamodel

/-! ### Declared types -/

/-- A model or an enum that a text declares. -/
structure Declaration where
  name : String
  kind : FieldKind
  line : Nat
  deriving DecidableEq, Repr

/-- What a block declares as a type of fields, if anything. -/
def Block.declaration? : Block → Option Declaration
  | model b => some ⟨b.name, .object, b.line⟩
  | enum b => some ⟨b.name, .enum, b.line⟩
  | datasource _ | generator _ => none

namespace Declaration

/-- How an error names the kind of a declaration. -/
def label (d : Declaration) : String := if d.kind = .enum then "enum" else "model"

/-- The first declaration whose name is in `seen` or stands earlier in the list. -/
def firstRepeat (seen : List String) : List Declaration → Option Declaration
  | [] => none
  | d :: ds => if d.name ∈ seen then some d else firstRepeat (d.name :: seen) ds

/-- The declarations of a text. No two of them have one name. -/
def ofBlocks (blocks : List Block) : Except SourceError (List Declaration) :=
  let declarations := blocks.filterMap Block.declaration?
  match firstRepeat [] declarations with
  | none => .ok declarations
  | some d => .error (.duplicate d.line d.label d.name)

end Declaration

/-- The kind of a field whose type has that name: built in, or declared. -/
def FieldKind.ofName? (declared : List Declaration) (name : String) : Option FieldKind :=
  if name ∈ scalarTypes then some .scalar
  else (declared.find? (·.name == name)).map (·.kind)

/-! ### Expressions -/

/-- The names that an expression lists; an item that is no name counts as it is written. -/
def Expr.names : Expr → List String
  | .array items => items.map fun
    | .name ident => ident
    | .call function _ => function
    | item => item.toText
  | .name ident => [ident]
  | _ => []

/-- A string argument without its quotes, and any other argument as it is written. -/
def Argument.bareText : Argument → String
  | ⟨none, .text value⟩ => value
  | a => a.toText

/-- The default that an expression gives to a field of that kind. -/
def Expr.toDefault (kind : FieldKind) : Expr → DefaultValue
  | .text value => .text value
  | .number lexeme => .number lexeme
  | .name "true" => .boolean true
  | .name "false" => .boolean false
  | .name ident => if kind = .enum then .member ident else .unrecognized ident
  | .call function args => .call function (args.map Argument.bareText)
  | .array items => .unrecognized (Expr.array items).toText

/-- The value of a property that takes a string or an environment variable. -/
def Expr.toEnvValue (line : Nat) (e : Expr) : Except SourceError EnvValue :=
  match e.env?, e.text? with
  | some var, _ => .ok (.env var)
  | none, some value => .ok (.value value)
  | none, none => .error (.malformed line (.expected "a string or env(\"...\")" e.toText))

/-- The value of a property without a meaning of its own. -/
def Expr.toConfigValue (e : Expr) : ConfigValue :=
  match e.env?, e with
  | some var, _ => .env var
  | none, .text value => .text value
  | none, .array items =>
    if items.all (·.text?.isSome) then .list (items.filterMap Expr.text?) else .raw e.toText
  | none, _ => .raw e.toText

/-- The strings of a property that takes one or more of them. -/
def Expr.texts : Expr → List String
  | .array items => items.map Expr.bareText
  | .text value => [value]
  | _ => []

namespace Attribute

/-- The string in the first positional argument. -/
def text? (a : Attribute) : Option String := a.positional?.bind Expr.text?

/-- The index that an attribute such as `@@unique([a, b], name: "n")` describes. -/
def toIndex (a : Attribute) : Index where
  name := (a.labelled? "name").bind Expr.text?
  fields := (((a.labelled? "fields").or a.positional?).map Expr.names).getD []

/-- The name in the database that the first `@map` of a list gives. -/
def mapName? (attributes : List Attribute) : Option String :=
  (attributes.find? (·.name == "map")).bind text?

end Attribute

/-! ### Models -/

/-- The name of a relation that is given none: both models in the order of their names. -/
def Relation.defaultName (model target : String) : String :=
  if target < model then target ++ "To" ++ model else model ++ "To" ++ target

/-- The action that an `onDelete` argument gives, if there is one. -/
def Attribute.onDelete (a : Attribute) : Except SourceError (Option ReferentialAction) :=
  match a.labelled? "onDelete" with
  | none => .ok none
  | some value =>
    match ReferentialAction.ofText? value.toText with
    | some action => .ok (some action)
    | none => .error (.malformed a.line (.unknownAction value.toText))

/-- The relation of a field of `model` whose type is the model `target`, from the field's
`@relation`. -/
def Relation.resolve (model target : String) (attr : Option Attribute) :
    Except SourceError Relation :=
  match attr with
  | none => .ok { name := Relation.defaultName model target }
  | some a => do
    let onDelete ← a.onDelete
    return {
      name := (((a.labelled? "name").or a.positional?).bind Expr.text?).getD
        (Relation.defaultName model target)
      fromFields := ((a.labelled? "fields").map Expr.names).getD []
      toFields := ((a.labelled? "references").map Expr.names).getD []
      onDelete }

/-- What an attribute changes in a field. -/
def Field.applyAttribute (f : Field) (a : Attribute) : Field :=
  match a.name with
  | "id" => { f with isId := true }
  | "unique" => { f with isUnique := true }
  | "updatedAt" => { f with isUpdatedAt := true }
  | "default" => { f with default := (a.positional?.map (Expr.toDefault f.kind)).or f.default }
  | _ => f

/-- The kind of a declared field, and its type as text. -/
def FieldDecl.kind (declared : List Declaration) (model : String) (f : FieldDecl) :
    Except SourceError FieldKind :=
  match f.type with
  | .unsupported _ => .ok .unsupported
  | .named name =>
    match FieldKind.ofName? declared name with
    | some kind => .ok kind
    | none => .error (.undeclaredType f.line model f.name name)

def FieldDecl.resolve (declared : List Declaration) (model : String) (f : FieldDecl) :
    Except SourceError Field := do
  let kind ← f.kind declared model
  let field : Field := f.attributes.foldl Field.applyAttribute {
    name := f.name
    kind
    type := f.type.toText
    isList := f.arity = .list
    isRequired := f.arity = .required
    documentation := f.documentation }
  if kind = .object then
    let relation ← Relation.resolve model field.type (f.attribute? "relation")
    return { field with relation := some relation }
  return field

/-- What an attribute changes in a model. -/
def Model.applyAttribute (m : Model) (a : Attribute) : Model :=
  match a.name with
  | "map" => { m with dbName := a.text? }
  | "unique" => m.addUniqueIndex a.toIndex
  | "id" => { m with primaryKey := some a.toIndex }
  | _ => m

def ModelBlock.resolve (declared : List Declaration) (b : ModelBlock) :
    Except SourceError Model := do
  let fields ← b.fields.mapM (FieldDecl.resolve declared b.name)
  return b.attributes.foldl Model.applyAttribute
    { name := b.name, fields, documentation := b.documentation }

/-! ### Enums, data sources, generators -/

def EnumValueDecl.resolve (v : EnumValueDecl) : EnumValue where
  name := v.name
  dbName := Attribute.mapName? v.attributes

def EnumBlock.resolve (b : EnumBlock) : Enum where
  name := b.name
  values := b.values.map EnumValueDecl.resolve
  dbName := Attribute.mapName? b.attributes
  documentation := b.documentation

namespace ConfigBlock

/-- The provider of a block, which has to give one. -/
def provider (b : ConfigBlock) (kind : String) : Except SourceError Expr :=
  match b.property? "provider" with
  | some p => .ok p.value
  | none => .error (.missingProperty b.line kind b.name "provider")

/-- The value of a property that takes a string or an environment variable, if it is there. -/
def envValue? (b : ConfigBlock) (key : String) : Except SourceError (Option EnvValue) :=
  (b.property? key).mapM fun p => p.value.toEnvValue p.line

def texts (b : ConfigBlock) (key : String) : List String :=
  ((b.property? key).map (·.value.texts)).getD []

/-- The properties whose keys are not among `known`. -/
def otherEntries (b : ConfigBlock) (known : List String) : List ConfigEntry :=
  (b.properties.filter (!known.contains ·.key)).map fun p => ⟨p.key, p.value.toConfigValue⟩

def resolveDatasource (b : ConfigBlock) : Except SourceError DataSource := do
  let provider ← b.provider "datasource"
  let some provider := provider.text? | throw (.malformed b.line (.providerNotString b.name))
  let url ← b.envValue? "url"
  return { name := b.name, provider, url, config := b.otherEntries ["provider", "url"] }

def resolveGenerator (b : ConfigBlock) : Except SourceError Generator := do
  let provider ← b.provider "generator"
  let provider ← provider.toEnvValue b.line
  let output ← b.envValue? "output"
  return {
    name := b.name
    provider
    output
    previewFeatures := b.texts "previewFeatures"
    binaryTargets := b.texts "binaryTargets"
    config := b.otherEntries ["provider", "output", "previewFeatures", "binaryTargets"] }

end ConfigBlock

/-! ### The whole text -/

/-- The schema that one block makes. -/
def Block.resolve (declared : List Declaration) : Block → Except SourceError Schema
  | model b => do let m ← b.resolve declared; return { models := [m] }
  | enum b => .ok { enums := [b.resolve] }
  | datasource b => do let d ← b.resolveDatasource; return { datasources := [d] }
  | generator b => do let g ← b.resolveGenerator; return { generators := [g] }

/-- The schemas of blocks, one after the other. -/
def Schema.ofBlocks (declared : List Declaration) : List Block → Except SourceError Schema
  | [] => .ok {}
  | b :: bs => do
    let one ← b.resolve declared
    let more ← Schema.ofBlocks declared bs
    return one ++ more

/-- The schema that the blocks of a text declare. -/
def resolve (blocks : List Block) : Except SourceError Schema := do
  let declared ← Declaration.ofBlocks blocks
  Schema.ofBlocks declared blocks

end Datamodel
