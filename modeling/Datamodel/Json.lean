import Datamodel.Text.Hex

/-! JSON documents.

A document is cut into tokens, and the tokens are read one after another: what is still open is
kept on a stack, and each token closes, opens or continues the innermost of it. A text whose
escapes name no character is kept as such and matters only where the text is asked for. -/

namespace Datamodel

/-- A JSON value. -/
inductive Json where
  | null
  | bool (value : Bool)
  | number
  /-- No text, if the escapes of the literal name half of a character. -/
  | text (value : Option String)
  | array (items : List Json)
  /-- The members in the order of the document; a name may come up twice. -/
  | object (members : List (Option String × Json))
  deriving Repr, Inhabited

namespace Json

inductive Token where
  | openBracket
  | closeBracket
  | openBrace
  | closeBrace
  | comma
  | colon
  /-- A value that is a token of its own. -/
  | leaf (value : Json)
  deriving Repr

/-! ### Tokens -/

/-- What stands for one unit of a text: a character itself, or a unit of 16 bits as an escape
names it. -/
inductive Unit16 where
  | char (c : Char)
  | code (n : Nat)

/-- The text of the units. Two surrogates stand for one character, and one alone for none. -/
def textOfUnits? : List Unit16 → Option (List Char)
  | [] => some []
  | .char c :: us => (textOfUnits? us).map (c :: ·)
  | .code n :: us =>
    if 0xD800 ≤ n ∧ n ≤ 0xDBFF then
      match us with
      | .code m :: us =>
        if 0xDC00 ≤ m ∧ m ≤ 0xDFFF then
          (textOfUnits? us).map (Char.ofNat (0x10000 + (n - 0xD800) * 0x400 + (m - 0xDC00)) :: ·)
        else none
      | _ => none
    else match Text.charOfCode? n with
      | some c => (textOfUnits? us).map (c :: ·)
      | none => none

/-- The character that an escape of one letter stands for. -/
def escapedChar? : Char → Option Char
  | '"' => some '"'
  | '\\' => some '\\'
  | '/' => some '/'
  | 'b' => some '\x08'
  | 'f' => some '\x0C'
  | 'n' => some '\n'
  | 'r' => some '\r'
  | 't' => some '\t'
  | _ => none

/-- Reads a literal from after its opening quote: its units, and the text after it. -/
def readUnits (s : List Char) : Option (List Unit16 × List Char) :=
  match s with
  | '"' :: s => some ([], s)
  | '\\' :: 'u' :: s => do
    let n ← Text.hexPrefix? 4 s
    let (units, rest) ← readUnits (s.drop 4)
    return (.code n :: units, rest)
  | '\\' :: c :: s => do
    let c ← escapedChar? c
    let (units, rest) ← readUnits s
    return (.char c :: units, rest)
  | c :: s =>
    if c.toNat < 0x20 then none
    else (readUnits s).map fun (units, rest) => (.char c :: units, rest)
  | [] => none
termination_by s.length
decreasing_by all_goals (simp; try omega)

/-- What follows one digit or more. -/
def afterDigits? (s : List Char) : Option (List Char) :=
  if s.head?.any Char.isDigit then some (s.dropWhile Char.isDigit) else none

/-- What follows a fraction, if there is one. -/
def afterFraction? : List Char → Option (List Char)
  | '.' :: s => afterDigits? s
  | s => some s

/-- What follows an exponent, if there is one. -/
def afterExponent? : List Char → Option (List Char)
  | 'e' :: '+' :: s | 'e' :: '-' :: s | 'e' :: s
  | 'E' :: '+' :: s | 'E' :: '-' :: s | 'E' :: s => afterDigits? s
  | s => some s

/-- What follows a number. It has no zeros in front. -/
def afterNumber? (s : List Char) : Option (List Char) := do
  let s := if s.head? = some '-' then s.drop 1 else s
  let s ← if s.head? = some '0' then some (s.drop 1) else afterDigits? s
  afterExponent? (← afterFraction? s)

/-- Reads the token that starts with `c`, and the text after it. -/
def readToken (c : Char) (s : List Char) : Option (Token × List Char) :=
  match c, s with
  | '[', s => some (.openBracket, s)
  | ']', s => some (.closeBracket, s)
  | '{', s => some (.openBrace, s)
  | '}', s => some (.closeBrace, s)
  | ',', s => some (.comma, s)
  | ':', s => some (.colon, s)
  | 'n', 'u' :: 'l' :: 'l' :: s => some (.leaf .null, s)
  | 't', 'r' :: 'u' :: 'e' :: s => some (.leaf (.bool true), s)
  | 'f', 'a' :: 'l' :: 's' :: 'e' :: s => some (.leaf (.bool false), s)
  | '"', s => (readUnits s).map fun (units, rest) =>
    (.leaf (.text ((textOfUnits? units).map String.ofList)), rest)
  | c, s => (afterNumber? (c :: s)).map fun rest => (.leaf .number, rest)

def isBlank (c : Char) : Bool := c == ' ' || c == '\t' || c == '\n' || c == '\r'

/-- The tokens of a document. Each of them has to take a character. -/
def tokens (s : List Char) : Option (List Token) :=
  match s with
  | [] => some []
  | c :: s =>
    if isBlank c then tokens s
    else
      match readToken c s with
      | none => none
      | some (t, rest) => if rest.length ≤ s.length then (tokens rest).map (t :: ·) else none
termination_by s.length
decreasing_by all_goals (simp_wf; try omega)

/-! ### Values -/

/-- Something open: an array with the items so far, or an object with the members so far and the
name of the one that is read. -/
inductive Frame where
  | array (items : List Json)
  | object (members : List (Option String × Json)) (name : Option String)

/-- What may come next. -/
inductive Expected where
  | value
  /-- A value, or the end of an array that has none. -/
  | firstItem
  /-- A name, or the end of an object that has none. -/
  | firstName
  | name
  | colon
  /-- A comma, or the end of what is open. -/
  | next
  | ending
  deriving DecidableEq

/-- How far the reading of a document has come. -/
structure Reader where
  expected : Expected := .value
  opened : List Frame := []
  /-- The whole value, once it is read. -/
  result : Option Json := none

namespace Reader

/-- Puts a value that is complete to where it belongs. -/
def put (value : Json) (r : Reader) : Reader :=
  match r.opened with
  | [] => { expected := .ending, result := some value }
  | .array items :: more => { expected := .next, opened := .array (items ++ [value]) :: more }
  | .object members name :: more =>
    { expected := .next, opened := .object (members ++ [(name, value)]) none :: more }

/-- Goes on by a token. -/
def step (r : Reader) (t : Token) : Option Reader :=
  match t, r.expected, r.opened with
  | .leaf value, .value, _ | .leaf value, .firstItem, _ => some (r.put value)
  | .leaf (.text name), .firstName, .object members _ :: more
  | .leaf (.text name), .name, .object members _ :: more =>
    some { expected := .colon, opened := .object members name :: more }
  | .openBracket, .value, opened | .openBracket, .firstItem, opened =>
    some { expected := .firstItem, opened := .array [] :: opened }
  | .openBrace, .value, opened | .openBrace, .firstItem, opened =>
    some { expected := .firstName, opened := .object [] none :: opened }
  | .closeBracket, .firstItem, .array items :: more
  | .closeBracket, .next, .array items :: more =>
    some (Reader.put (.array items) { r with opened := more })
  | .closeBrace, .firstName, .object members _ :: more
  | .closeBrace, .next, .object members _ :: more =>
    some (Reader.put (.object members) { r with opened := more })
  | .comma, .next, .array items :: more =>
    some { expected := .value, opened := .array items :: more }
  | .comma, .next, .object members name :: more =>
    some { expected := .name, opened := .object members name :: more }
  | .colon, .colon, opened => some { expected := .value, opened }
  | _, _, _ => none

end Reader

/-- Reads a document, which is one value. -/
def ofText? (s : List Char) : Option Json := do
  let r ← (← tokens s).foldlM Reader.step {}
  r.result

end Json

end Datamodel
