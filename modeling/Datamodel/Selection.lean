import Datamodel.Keyed
import Datamodel.Schema
import Datamodel.Text.Blank

/-! Which fragment the data sources, the generators and the enums of a merge come from.

Data sources and generators are taken from one fragment as a whole; of the enums of one name the
first declaration stays. -/

namespace Datamodel

/-- Whether a value can be had at all: the variable has a name, the text is not empty. -/
def EnvValue.isResolvable : EnvValue → Bool
  | env name => !Text.allBlank name.toList
  | value text => !text.isEmpty

/-- A data source is usable if its address can be had. -/
def DataSource.isUsable (d : DataSource) : Bool := d.url.any EnvValue.isResolvable

/-- Which of several fragments with usable data sources provides them. -/
inductive Policy where
  | first
  | last
  deriving DecidableEq, Repr

/-- The first or the last of a list. -/
def Policy.choose {α : Type} : Policy → List α → Option α
  | first, xs => xs.head?
  | last, xs => xs.getLast?

namespace Fragment

def hasUsableDatasource (f : Fragment) : Bool := f.schema.datasources.any DataSource.isUsable

def hasGenerators (f : Fragment) : Bool := !f.schema.generators.isEmpty

end Fragment

/-- The fragment that provides the data sources. -/
def datasourceFragment? (fragments : List Fragment) (policy : Policy) : Option Fragment :=
  policy.choose (fragments.filter Fragment.hasUsableDatasource)

/-- All data sources of the fragment that provides them, the unusable ones included. -/
def selectDatasources (fragments : List Fragment) (policy : Policy) : List DataSource :=
  ((datasourceFragment? fragments policy).map (·.schema.datasources)).getD []

/-- The last fragment with generators provides them. -/
def generatorFragment? (fragments : List Fragment) : Option Fragment :=
  (fragments.filter Fragment.hasGenerators).getLast?

def selectGenerators (fragments : List Fragment) : List Generator :=
  ((generatorFragment? fragments).map (·.schema.generators)).getD []

/-- Adds an enum, unless one of its name is there. -/
def addEnum : List Enum → Enum → List Enum := upsert Enum.name fun existing _ => existing

/-- The declarations of enums in all fragments, in order. -/
def declaredEnums (fragments : List Fragment) : List Enum := fragments.flatMap (·.schema.enums)

/-- The first declaration of each enum, in the order of the fragments. -/
def selectEnums (fragments : List Fragment) : List Enum :=
  (declaredEnums fragments).foldl addEnum []

end Datamodel
