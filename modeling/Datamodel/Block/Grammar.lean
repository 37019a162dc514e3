import Datamodel.Block
import Datamodel.Expr.Grammar

/-! From tokens to blocks.

The body of every block is read by one loop, `readBody`, which passes over line breaks, collects
documentation lines and leaves each item to the reader of that kind of block. -/

namespace Datamodel

open Token (Reading Passing unexpected)

/-- The documentation that comment lines make, if there are any. -/
def joinDocs (docs : List String) : Option String :=
  if docs.isEmpty then none else some ("\n".intercalate docs)

namespace Block

/-- Reads a documentation comment at the end of an item's line, if there is one. -/
def trailingDoc (ts : List Token) : Passing (Option String) ts :=
  match ts with
  | ⟨.doc text, line⟩ :: rest => .one (some text) ⟨.doc text, line⟩ rest
  | ts => .stay none ts

/-- Passes over a comma, if there is one. -/
def trailingComma (ts : List Token) : Passing Unit ts :=
  match ts with
  | ⟨.comma, line⟩ :: rest => .one () ⟨.comma, line⟩ rest
  | ts => .stay () ts

/-- Reads the name of a block and its opening brace. -/
def readOpening (last : Nat) (what : String) (ts : List Token) :
    Except SourceError (Reading String ts) := do
  let name ← Token.ident last (what ++ " name") ts
  let brace ← Token.expect last .openBrace "`\x7b`" name.rest
  return ⟨name.value, brace.rest, by have := name.shorter; have := brace.shorter; omega⟩

/-- Reads the items of a block up to its closing brace. `item` reads one of them; it is given the
documentation lines that no item has taken yet, and answers with those that it leaves. -/
def readBody {α : Type} (last : Nat) (name : String)
    (item : List String → (ts : List Token) → Except SourceError (Reading (α × List String) ts))
    (docs : List String) (ts : List Token) : Except SourceError (Reading (List α) ts) :=
  match ts with
  | [] => .error (.malformed last (.unclosedBlock name))
  | ⟨.closeBrace, _⟩ :: rest => .ok ⟨[], rest, Nat.lt_succ_self _⟩
  | ⟨.newline, _⟩ :: rest =>
    (readBody last name item docs rest).map (·.widen (Nat.le_succ _))
  | ⟨.doc text, _⟩ :: rest =>
    (readBody last name item (docs ++ [text]) rest).map (·.widen (Nat.le_succ _))
  | t :: rest =>
    match item docs (t :: rest) with
    | .error e => .error e
    | .ok r =>
      have h := r.shorter
      (readBody last name item r.value.2 r.rest).map fun more =>
        (more.withValue (r.value.1 :: more.value)).widen (Nat.le_of_lt h)
termination_by ts.length
decreasing_by all_goals (simp only [List.length_cons] at *; omega)

end Block

/-! ### Models and views -/

/-- Reads a field's type, without its arity. -/
def TypeRef.read (last : Nat) (ts : List Token) : Except SourceError (Reading TypeRef ts) :=
  match ts with
  | ⟨.name "Unsupported", _⟩ :: ⟨.openParen, _⟩ :: ⟨.text dbType, _⟩ :: rest => do
    let close ← Token.expect last .closeParen "`)`" rest
    return ⟨.unsupported dbType, close.rest, by have := close.shorter; simp; omega⟩
  | ⟨.name "Unsupported", _⟩ :: ⟨.openParen, _⟩ :: rest =>
    .error (.malformed (Token.lineAt last rest.tail)
      (.expected "a string in Unsupported(..)" (Token.describeAt rest)))
  | ⟨.name name, _⟩ :: rest => .ok ⟨.named name, rest, Nat.lt_succ_self _⟩
  | ts => unexpected last "field type" ts

/-- Reads the mark of an optional or list type, if there is one. -/
def Arity.read (ts : List Token) : Passing Arity ts :=
  match ts with
  | ⟨.question, line⟩ :: rest => .one .optional ⟨.question, line⟩ rest
  | ⟨.openBracket, line⟩ :: ⟨.closeBracket, last⟩ :: rest =>
    (Passing.one .list ⟨.closeBracket, last⟩ rest).after ⟨.openBracket, line⟩
  | ts => .stay .required ts

/-- Reads a field with the rest of its line. The documentation lines before it come first; without
them, a documentation comment on its own line stands in. -/
def FieldDecl.read (last : Nat) (docs : List String) (ts : List Token) :
    Except SourceError (Reading FieldDecl ts) := do
  let name ← Token.ident last "field name" ts
  let type ← TypeRef.read last name.rest
  let arity := Arity.read type.rest
  let attributes ← Attribute.readAll last arity.rest
  let trailing := Block.trailingDoc attributes.rest
  let ending ← Token.endOfItem last trailing.rest
  return {
    value := {
      name := name.value
      type := type.value
      arity := arity.value
      attributes := attributes.value
      documentation := (joinDocs docs).or trailing.value
      line := Token.lineAt last ts }
    rest := ending.rest
    shorter := by
      have := name.shorter; have := type.shorter; have := arity.noLonger
      have := attributes.noLonger; have := trailing.noLonger; have := ending.noLonger
      omega }

/-- Reads an attribute of a block from after its `@@`, with the rest of its line. -/
def Attribute.readLine (last : Nat) (ts : List Token) :
    Except SourceError (Reading Attribute ts) := do
  let attr ← Attribute.read last ts
  let ending ← Token.endOfItem last attr.rest
  return ⟨attr.value, ending.rest,
    by have := attr.shorter; have := ending.noLonger; omega⟩

/-- An item of a `model` or `view` block. -/
inductive ModelItem where
  | field (decl : FieldDecl)
  | attr (attr : Attribute)

namespace ModelItem

def field? : ModelItem → Option FieldDecl
  | field decl => some decl
  | attr _ => none

def attr? : ModelItem → Option Attribute
  | field _ => none
  | attr a => some a

/-- Reads an item of a model. A field takes the documentation lines; an attribute leaves them to
the next field. -/
def read (last : Nat) (docs : List String) (ts : List Token) :
    Except SourceError (Reading (ModelItem × List String) ts) :=
  match ts with
  | ⟨.blockMarker, _⟩ :: rest => do
    let a ← Attribute.readLine last rest
    return (a.withValue (.attr a.value, docs)).widen (Nat.le_succ _)
  | ⟨.name ident, line⟩ :: rest => do
    let f ← FieldDecl.read last docs (⟨.name ident, line⟩ :: rest)
    return f.withValue (.field f.value, [])
  | ts => unexpected last "a field" ts

end ModelItem

/-- Reads a `model` or `view` block from after its keyword. -/
def ModelBlock.read (last : Nat) (isView : Bool) (docs : List String) (line : Nat)
    (ts : List Token) : Except SourceError (Reading ModelBlock ts) := do
  let name ← Block.readOpening last (if isView then "view" else "model") ts
  let body ← Block.readBody last name.value (ModelItem.read last) [] name.rest
  return {
    value := {
      name := name.value
      isView
      fields := body.value.filterMap ModelItem.field?
      attributes := body.value.filterMap ModelItem.attr?
      documentation := joinDocs docs
      line }
    rest := body.rest
    shorter := by have := name.shorter; have := body.shorter; omega }

/-! ### Enums -/

/-- Reads an enum value with the rest of its line, from after its name. -/
def EnumValueDecl.read (last : Nat) (name : String) (line : Nat) (ts : List Token) :
    Except SourceError (Passing EnumValueDecl ts) := do
  let attributes ← Attribute.readAll last ts
  let comma := Block.trailingComma attributes.rest
  let trailing := Block.trailingDoc comma.rest
  let ending ← Token.endOfItem last trailing.rest
  return {
    value := ⟨name, attributes.value, line⟩
    rest := ending.rest
    noLonger := by
      have := attributes.noLonger; have := comma.noLonger; have := trailing.noLonger
      have := ending.noLonger; omega }

/-- An item of an `enum` block. -/
inductive EnumItem where
  | value (decl : EnumValueDecl)
  | attr (attr : Attribute)

namespace EnumItem

def value? : EnumItem → Option EnumValueDecl
  | value decl => some decl
  | attr _ => none

def attr? : EnumItem → Option Attribute
  | value _ => none
  | attr a => some a

/-- Reads an item of an enum. -/
def read (last : Nat) (docs : List String) (ts : List Token) :
    Except SourceError (Reading (EnumItem × List String) ts) :=
  match ts with
  | ⟨.blockMarker, _⟩ :: rest => do
    let a ← Attribute.readLine last rest
    return (a.withValue (.attr a.value, docs)).widen (Nat.le_succ _)
  | ⟨.name name, line⟩ :: rest => do
    let v ← EnumValueDecl.read last name line rest
    return ⟨(.value v.value, docs), v.rest, Nat.lt_succ_of_le v.noLonger⟩
  | ts => unexpected last "an enum value" ts

end EnumItem

/-- Reads an `enum` block from after its keyword. -/
def EnumBlock.read (last : Nat) (docs : List String) (line : Nat) (ts : List Token) :
    Except SourceError (Reading EnumBlock ts) := do
  let name ← Block.readOpening last "enum" ts
  let body ← Block.readBody last name.value (EnumItem.read last) [] name.rest
  return {
    value := {
      name := name.value
      values := body.value.filterMap EnumItem.value?
      attributes := body.value.filterMap EnumItem.attr?
      documentation := joinDocs docs
      line }
    rest := body.rest
    shorter := by have := name.shorter; have := body.shorter; omega }

/-! ### Data sources and generators -/

/-- Reads a property with the rest of its line. -/
def Property.read (last : Nat) (docs : List String) (ts : List Token) :
    Except SourceError (Reading (Property × List String) ts) :=
  match ts with
  | ⟨.name key, line⟩ :: rest => do
    let equals ← Token.expect last .equals "`=`" rest
    let value ← Expr.read last equals.rest
    let ending ← Token.endOfItem last value.rest
    return {
      value := (⟨key, value.value, line⟩, docs)
      rest := ending.rest
      shorter := Nat.lt_succ_of_lt (Nat.lt_of_le_of_lt ending.noLonger
        (Nat.lt_trans value.shorter equals.shorter)) }
  | ts => unexpected last "a property" ts

/-- Reads a `datasource` or `generator` block from after its keyword. -/
def ConfigBlock.read (last : Nat) (line : Nat) (ts : List Token) :
    Except SourceError (Reading ConfigBlock ts) := do
  let name ← Block.readOpening last "block" ts
  let body ← Block.readBody last name.value (Property.read last) [] name.rest
  return ⟨⟨name.value, body.value, line⟩, body.rest,
    by have := name.shorter; have := body.shorter; omega⟩

/-! ### The whole text -/

namespace Block

/-- Reads a block from after its keyword. -/
def read (last : Nat) (keyword : String) (docs : List String) (line : Nat) (ts : List Token) :
    Except SourceError (Reading Block ts) :=
  match keyword with
  | "model" => do let b ← ModelBlock.read last false docs line ts; return b.withValue (.model b.value)
  | "view" => do let b ← ModelBlock.read last true docs line ts; return b.withValue (.model b.value)
  | "enum" => do let b ← EnumBlock.read last docs line ts; return b.withValue (.enum b.value)
  | "datasource" => do
    let b ← ConfigBlock.read last line ts; return b.withValue (.datasource b.value)
  | "generator" => do
    let b ← ConfigBlock.read last line ts; return b.withValue (.generator b.value)
  | keyword => .error (.unsupportedBlock line keyword)

/-- Reads blocks to the end of the text. Documentation lines belong to the block after them. -/
def readAll (last : Nat) (docs : List String) (ts : List Token) :
    Except SourceError (List Block) :=
  match ts with
  | [] => .ok []
  | ⟨.newline, _⟩ :: rest => readAll last docs rest
  | ⟨.doc text, _⟩ :: rest => readAll last (docs ++ [text]) rest
  | ⟨.name keyword, line⟩ :: rest =>
    match read last keyword docs line rest with
    | .error e => .error e
    | .ok block =>
      have : block.rest.length < rest.length + 1 := by have := block.shorter; omega
      (readAll last [] block.rest).map (block.value :: ·)
  | ts => unexpected last "a block" ts
termination_by ts.length

/-- The blocks that a list of tokens makes, in the order of the text. -/
def ofTokens (ts : List Token) : Except SourceError (List Block) :=
  readAll (Token.lastLine ts) [] ts

end Block

end Datamodel
