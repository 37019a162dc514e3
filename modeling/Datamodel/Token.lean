/-! The tokens of a schema text.

A token is a kind with the text it carries, and the 1-based line it stands on. -/

namespace Datamodel

namespace Token

/-- What a token is. -/
inductive Kind where
  /-- An identifier, possibly dotted (`db.VarChar`). -/
  | name (ident : String)
  /-- A string literal, its escapes decoded. -/
  | text (value : String)
  /-- A number, kept as it is written. -/
  | number (lexeme : String)
  /-- The text of a `///` comment. -/
  | doc (line : String)
  | openBrace
  | closeBrace
  | openParen
  | closeParen
  | openBracket
  | closeBracket
  | comma
  | colon
  | equals
  | question
  /-- `@`, which opens an attribute of a field. -/
  | marker
  /-- `@@`, which opens an attribute of a block. -/
  | blockMarker
  | newline
  deriving DecidableEq, Repr

/-- How an error names a token. -/
def Kind.describe : Kind → String
  | name ident => "`" ++ ident ++ "`"
  | text value => "string \"" ++ value ++ "\""
  | number lexeme => "number " ++ lexeme
  | doc _ => "documentation comment"
  | openBrace => "`\x7b`"
  | closeBrace => "`\x7d`"
  | openParen => "`(`"
  | closeParen => "`)`"
  | openBracket => "`[`"
  | closeBracket => "`]`"
  | comma => "`,`"
  | colon => "`:`"
  | equals => "`=`"
  | question => "`?`"
  | marker => "`@`"
  | blockMarker => "`@@`"
  | newline => "end of line"

end Token

structure Token where
  kind : Token.Kind
  /-- 1-based; a `newline` stands on the line that it ends. -/
  line : Nat
  deriving DecidableEq, Repr

end Datamodel
