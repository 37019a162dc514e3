import Datamodel.Expr

/-! The blocks of a schema text, as they are written.

Types and arguments are not yet looked up: a field names its type, and an attribute holds
expressions. -/

namespace Datamodel

/-- How many values a field holds. -/
inductive Arity where
  | required
  | optional
  | list
  deriving DecidableEq, Repr

/-- The type that a field declaration gives. -/
inductive TypeRef where
  | named (name : String)
  /-- `Unsupported("...")`, with the type's text in the database. -/
  | unsupported (dbType : String)
  deriving DecidableEq, Repr

def TypeRef.toText : TypeRef → String
  | named name => name
  | unsupported dbType => "Unsupported(" ++ Text.Quoted.quote dbType ++ ")"

structure FieldDecl where
  name : String
  type : TypeRef
  arity : Arity
  attributes : List Attribute
  documentation : Option String
  line : Nat

namespace FieldDecl

/-- The first attribute of that name. -/
def attribute? (f : FieldDecl) (name : String) : Option Attribute :=
  f.attributes.find? (·.name == name)

def hasAttribute (f : FieldDecl) (name : String) : Bool :=
  f.attributes.any (·.name == name)

end FieldDecl

/-- A `model` or `view` block. -/
structure ModelBlock where
  name : String
  isView : Bool
  fields : List FieldDecl
  attributes : List Attribute
  documentation : Option String
  line : Nat

structure EnumValueDecl where
  name : String
  attributes : List Attribute
  line : Nat

structure EnumBlock where
  name : String
  values : List EnumValueDecl
  attributes : List Attribute
  documentation : Option String
  line : Nat

/-- `key = value` in a `datasource` or `generator` block. -/
structure Property where
  key : String
  value : Expr
  line : Nat

/-- A `datasource` or `generator` block. -/
structure ConfigBlock where
  name : String
  properties : List Property
  line : Nat

/-- The first property of that key. -/
def ConfigBlock.property? (b : ConfigBlock) (key : String) : Option Property :=
  b.properties.find? (·.key == key)

inductive Block where
  | model (block : ModelBlock)
  | enum (block : EnumBlock)
  | datasource (block : ConfigBlock)
  | generator (block : ConfigBlock)

end Datamodel
