import Datamodel.Selection

/-! The merge of fragments into one schema.

Declarations of one model are folded into the first of them: a later declaration of a field
replaces the earlier one in its place, but inherits a column name and a default that it leaves
out. -/

namespace Datamodel

/-- `incoming`, with the column name and the default of `existing` where it has none. -/
def Field.inherit (existing incoming : Field) : Field :=
  { incoming with
    columnName := incoming.columnName.or existing.columnName
    default := incoming.default.or existing.default }

/-- Merges a field into the field of its name, or adds it at the end. -/
def mergeField : List Field → Field → List Field := upsert Field.name Field.inherit

/-- A database name that says something. -/
def nonEmpty (name : Option String) : Option String := name.filter (!·.isEmpty)

/-- Adds a unique index, unless the very same one is there. -/
def Model.mergeUniqueIndex (m : Model) (index : Index) : Model :=
  if index ∈ m.uniqueIndexes then m else m.addUniqueIndex index

/-- Merges a later declaration of a model into an earlier one. What this does not mention, such as
the primary key, stays as the earlier declaration has it. -/
def Model.merge (existing incoming : Model) : Model :=
  incoming.uniqueIndexes.foldl Model.mergeUniqueIndex
    { existing with
      fields := incoming.fields.foldl mergeField existing.fields
      dbName := ((nonEmpty existing.dbName).or (nonEmpty incoming.dbName)).or existing.dbName
      secondaryIndexes := existing.secondaryIndexes ++ incoming.secondaryIndexes }

/-- Merges a model into the model of its name, or adds it at the end. -/
def mergeModel : List Model → Model → List Model := upsert Model.name Model.merge

/-- The declarations of models in all fragments, in order. -/
def declaredModels (fragments : List Fragment) : List Model :=
  fragments.flatMap (·.schema.models)

/-- The merge of the models of all fragments, in the order of the fragments. -/
def mergeModels (fragments : List Fragment) : List Model :=
  (declaredModels fragments).foldl mergeModel []

/-- The merge of fragments into one schema. -/
def merge (fragments : List Fragment) (policy : Policy := .last) : Schema where
  models := mergeModels fragments
  enums := selectEnums fragments
  datasources := selectDatasources fragments policy
  generators := selectGenerators fragments

end Datamodel
