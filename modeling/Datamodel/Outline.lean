import Datamodel.Schema

/-! Outlines: values as data formats show them, with named members in a fixed order.

`Schema.outline` is the outline of a schema. -/

namespace Datamodel

/-- A value made of texts, lists and named members. -/
inductive Outline where
  | null
  | flag (value : Bool)
  | text (value : String)
  | items (items : List Outline)
  | members (members : List (String × Outline))
  /-- A value of one of several kinds, and the name of the kind. -/
  | variant (kind : String) (value : Outline)
  deriving Repr, Inhabited

namespace Outline

def texts (values : List String) : Outline := .items (values.map .text)

def optional {α : Type} (outline : α → Outline) : Option α → Outline
  | none => .null
  | some a => outline a

end Outline

open Outline

def DefaultValue.outline : DefaultValue → Outline
  | text value => literal "string" (.text value)
  | number lexeme => literal "number" (.text lexeme)
  | boolean value => literal "boolean" (.flag value)
  | member name => .members [("kind", .text "enum_value"), ("value", .text name)]
  | call function args =>
    .members [("kind", .text "function"), ("name", .text function), ("args", texts args)]
  | unrecognized raw => .members [("kind", .text "unrecognized"), ("raw", .text raw)]
where
  literal (type : String) (value : Outline) : Outline :=
    .members [
      ("kind", .text "literal"), ("value", .members [("type", .text type), ("value", value)])]

def ReferentialAction.outline (a : ReferentialAction) : Outline := .text a.toText

def Relation.outline (r : Relation) : Outline := .members [
  ("name", .text r.name), ("from_fields", texts r.fromFields), ("to_fields", texts r.toFields),
  ("on_delete", optional ReferentialAction.outline r.onDelete),
  ("on_update", optional ReferentialAction.outline r.onUpdate), ("map", optional .text r.map)]

def Field.outline (f : Field) : Outline := .members [
  ("name", .text f.name), ("kind", .text f.kind.toText), ("field_type", .text f.type),
  ("is_list", .flag f.isList), ("is_required", .flag f.isRequired),
  ("default", optional DefaultValue.outline f.default), ("is_unique", .flag f.isUnique),
  ("is_id", .flag f.isId), ("is_updated_at", .flag f.isUpdatedAt),
  ("column_name", optional .text f.columnName), ("native_type", optional .text f.nativeType),
  ("relation", optional Relation.outline f.relation),
  ("documentation", optional .text f.documentation)]

def Index.outline (i : Index) : Outline :=
  .members [("name", optional .text i.name), ("fields", texts i.fields)]

def Model.outline (m : Model) : Outline := .members [
  ("name", .text m.name), ("fields", .items (m.fields.map Field.outline)),
  ("db_name", optional .text m.dbName),
  ("unique_indexes", .items (m.uniqueIndexes.map Index.outline)),
  ("unique_fields", .items (m.uniqueFields.map texts)),
  ("secondary_indexes", texts m.secondaryIndexes),
  ("primary_key", optional Index.outline m.primaryKey),
  ("documentation", optional .text m.documentation)]

def EnumValue.outline (v : EnumValue) : Outline :=
  .members [("name", .text v.name), ("db_name", optional .text v.dbName)]

def Enum.outline (e : Enum) : Outline := .members [
  ("name", .text e.name), ("values", .items (e.values.map EnumValue.outline)),
  ("db_name", optional .text e.dbName), ("documentation", optional .text e.documentation)]

def EnvValue.outline : EnvValue → Outline
  | env name => .variant "env" (.text name)
  | value literal => .variant "value" (.text literal)

def ConfigValue.outline : ConfigValue → Outline
  | text value => .variant "string" (.text value)
  | env name => .variant "env" (.text name)
  | list values => .variant "list" (texts values)
  | raw source => .variant "raw" (.text source)

def ConfigEntry.outline (e : ConfigEntry) : Outline :=
  .members [("key", .text e.key), ("value", e.value.outline)]

def DataSource.outline (d : DataSource) : Outline := .members [
  ("name", .text d.name), ("provider", .text d.provider),
  ("url", optional EnvValue.outline d.url),
  ("config", .items (d.config.map ConfigEntry.outline))]

def Generator.outline (g : Generator) : Outline := .members [
  ("name", .text g.name), ("provider", g.provider.outline),
  ("output", optional EnvValue.outline g.output),
  ("preview_features", texts g.previewFeatures), ("binary_targets", texts g.binaryTargets),
  ("config", .items (g.config.map ConfigEntry.outline))]

def Schema.outline (s : Schema) : Outline := .members [
  ("models", .items (s.models.map Model.outline)), ("enums", .items (s.enums.map Enum.outline)),
  ("datasources", .items (s.datasources.map DataSource.outline)),
  ("generators", .items (s.generators.map Generator.outline))]

end Datamodel
