import Datamodel.Error
import Datamodel.Token

/-! What the readers of the grammar have in common.

A reader takes the tokens before it and answers with a value and the tokens that it left. The type
of its answer says how many tokens it took at least: `Reading` one or more, `Passing` none or
more. That is what makes the readers end. Errors are reported on the line of the first token left,
and at the end of the text on the line of its last token, which readers are given as `last`. -/

namespace Datamodel.Token

/-- A value read from `ts`, and fewer tokens left. -/
structure Reading (α : Type) (ts : List Token) where
  value : α
  rest : List Token
  shorter : rest.length < ts.length

/-- A value read from `ts`, and no more tokens left. -/
structure Passing (α : Type) (ts : List Token) where
  value : α
  rest : List Token
  noLonger : rest.length ≤ ts.length

/-- The same value, read from a longer list of tokens. -/
def Reading.widen {α : Type} {ts us : List Token} (r : Reading α ts)
    (h : ts.length ≤ us.length) : Reading α us :=
  ⟨r.value, r.rest, Nat.lt_of_lt_of_le r.shorter h⟩

/-- Another value, read from the same tokens. -/
def Reading.withValue {α β : Type} {ts : List Token} (r : Reading α ts) (value : β) :
    Reading β ts :=
  ⟨value, r.rest, r.shorter⟩

/-- A value that took no tokens. -/
def Passing.stay {α : Type} (value : α) (ts : List Token) : Passing α ts :=
  ⟨value, ts, Nat.le_refl _⟩

/-- The same value, read together with a token before it. -/
def Passing.after {α : Type} {ts : List Token} (t : Token) (r : Passing α ts) :
    Passing α (t :: ts) :=
  ⟨r.value, r.rest, Nat.le_succ_of_le r.noLonger⟩

/-- A value that took one token. -/
def Passing.one {α : Type} (value : α) (t : Token) (rest : List Token) : Passing α (t :: rest) :=
  (stay value rest).after t

/-- The line of the last token; an empty text ends on line 1. -/
def lastLine (ts : List Token) : Nat := (ts.getLast?.map (·.line)).getD 1

/-- The line on which the first of the tokens left stands. -/
def lineAt (last : Nat) : List Token → Nat
  | [] => last
  | t :: _ => t.line

/-- How an error names the first of the tokens left. -/
def describeAt : List Token → String
  | [] => "end of input"
  | t :: _ => t.kind.describe

/-- The error that something else was wanted in the place of the first token left. -/
def unexpected {α : Type} (last : Nat) (wanted : String) (ts : List Token) :
    Except SourceError α :=
  .error (.malformed (lineAt last ts) (.expected wanted (describeAt ts)))

/-- Reads the token that has to stand here. -/
def expect (last : Nat) (kind : Kind) (wanted : String) (ts : List Token) :
    Except SourceError (Reading Unit ts) :=
  match ts with
  | t :: rest =>
    if t.kind = kind then .ok ⟨(), rest, Nat.lt_succ_self _⟩ else unexpected last wanted (t :: rest)
  | [] => unexpected last wanted []

/-- Reads the identifier that has to stand here. -/
def ident (last : Nat) (wanted : String) (ts : List Token) :
    Except SourceError (Reading String ts) :=
  match ts with
  | ⟨.name ident, _⟩ :: rest => .ok ⟨ident, rest, Nat.lt_succ_self _⟩
  | ts => unexpected last wanted ts

/-- Reads the end of a line. A closing brace and the end of the text end it too, and stay. -/
def endOfItem (last : Nat) (ts : List Token) : Except SourceError (Passing Unit ts) :=
  match ts with
  | [] => .ok (.stay () [])
  | ⟨.closeBrace, line⟩ :: rest => .ok (.stay () (⟨.closeBrace, line⟩ :: rest))
  | ⟨.newline, line⟩ :: rest => .ok (.one () ⟨.newline, line⟩ rest)
  | ts => unexpected last "end of line" ts

end Datamodel.Token
