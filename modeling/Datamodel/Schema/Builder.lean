import Datamodel.Schema

/-! Building schemas piece by piece.

Every function here adds one thing to a value and leaves the rest of it alone, so that a chain of
them reads like a declaration. -/

namespace Datamodel

namespace Field

/-- A required field of a built-in type. -/
def scalar (name type : String) : Field := { name, kind := .scalar, type }

/-- A required field whose values are those of an enum. -/
def ofEnum (name enumName : String) : Field := { name, kind := .enum, type := enumName }

/-- A required field that stands for a relation to a model. -/
def object (name model : String) (relation : Relation) : Field :=
  { name, kind := .object, type := model, relation := some relation }

def asOptional (f : Field) : Field := { f with isRequired := false }

def asList (f : Field) : Field := { f with isList := true }

def asId (f : Field) : Field := { f with isId := true }

def asUnique (f : Field) : Field := { f with isUnique := true }

def asUpdatedAt (f : Field) : Field := { f with isUpdatedAt := true }

def withDefault (f : Field) (value : DefaultValue) : Field := { f with default := some value }

def withColumnName (f : Field) (name : String) : Field := { f with columnName := some name }

def withNativeType (f : Field) (type : String) : Field := { f with nativeType := some type }

def withDocumentation (f : Field) (text : String) : Field := { f with documentation := some text }

end Field

namespace Model

def addField (m : Model) (f : Field) : Model := { m with fields := m.fields ++ [f] }

def withDbName (m : Model) (name : String) : Model := { m with dbName := some name }

end Model

/-- An enum of plain values. -/
def Enum.ofNames (name : String) (values : List String) : Enum :=
  { name, values := values.map fun v => { name := v } }

/-- A data source with an address and no further properties. -/
def DataSource.ofUrl (name provider : String) (url : EnvValue) : DataSource :=
  { name, provider, url := some url }

/-- A generator with a provider and no further properties. -/
def Generator.ofProvider (name provider : String) : Generator :=
  { name, provider := .value provider }

namespace Fragment

def addModel (f : Fragment) (m : Model) : Fragment :=
  { f with schema.models := f.schema.models ++ [m] }

def addEnum (f : Fragment) (e : Enum) : Fragment :=
  { f with schema.enums := f.schema.enums ++ [e] }

def addDatasource (f : Fragment) (d : DataSource) : Fragment :=
  { f with schema.datasources := f.schema.datasources ++ [d] }

def addGenerator (f : Fragment) (g : Generator) : Fragment :=
  { f with schema.generators := f.schema.generators ++ [g] }

end Fragment

end Datamodel
