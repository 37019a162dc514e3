/-! Why a schema text is refused.

`SourceError` is the cause of a refusal together with the line it is reported on, and
`SourceError.message` is its wording. -/

namespace Datamodel

/-- A text that does not follow the grammar, or an argument that has no meaning. -/
inductive Fault where
  | strayCharacter (c : Char)
  | openString
  /-- The characters in the place of the four digits of a `\u` escape. -/
  | badEscape (digits : String)
  /-- What the grammar asks for, and the item found in its place. -/
  | expected (wanted found : String)
  | unclosedBlock (name : String)
  /-- The first `provider` of a data source is not a string. -/
  | providerNotString (datasource : String)
  /-- The text of an `onDelete` argument that names no referential action. -/
  | unknownAction (text : String)
  deriving DecidableEq, Repr

/-- The wording of a fault. -/
def Fault.message : Fault → String
  | .strayCharacter c => "unexpected character `" ++ c.toString ++ "`"
  | .openString => "unterminated string literal"
  | .badEscape digits => "invalid unicode escape `\\u" ++ digits ++ "`"
  | .expected wanted found => "expected " ++ wanted ++ ", found " ++ found
  | .unclosedBlock name => "unclosed block `" ++ name ++ "`"
  | .providerNotString datasource =>
    "datasource `" ++ datasource ++ "` provider must be a string"
  | .unknownAction text => "unknown referential action: " ++ text

/-- The cause for which a schema text is refused, and the line it is reported on. -/
inductive SourceError where
  | malformed (line : Nat) (fault : Fault)
  | unsupportedBlock (line : Nat) (keyword : String)
  /-- A field type that is neither built in nor declared in the same text. -/
  | undeclaredType (line : Nat) (model field typeName : String)
  /-- A `model` or `enum` name that an earlier block of the text has taken. -/
  | duplicate (line : Nat) (kind name : String)
  | missingProperty (line : Nat) (kind name property : String)
  deriving DecidableEq, Repr

namespace SourceError

def line : SourceError → Nat
  | malformed line _ | unsupportedBlock line _ | undeclaredType line .. | duplicate line ..
  | missingProperty line .. => line

/-- The wording of the cause, without the line. -/
def cause : SourceError → String
  | malformed _ fault => fault.message
  | unsupportedBlock _ keyword => "unsupported block type `" ++ keyword ++ "`"
  | undeclaredType _ model field typeName =>
    "type `" ++ typeName ++ "` of field " ++ model ++ "." ++ field ++ " is not declared"
  | duplicate _ kind name => kind ++ " `" ++ name ++ "` is declared more than once"
  | missingProperty _ kind name property => kind ++ " `" ++ name ++ "` has no `" ++ property ++ "`"

def message (e : SourceError) : String := "line " ++ toString e.line ++ ": " ++ e.cause

end SourceError

end Datamodel
