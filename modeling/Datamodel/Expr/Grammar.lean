import Datamodel.Expr
import Datamodel.Token.Reading

/-! From tokens to expressions and attributes.

Arguments stand between parentheses and array items between brackets, separated by commas; one
comma may follow the last of them. -/

namespace Datamodel

open Token (Reading Passing unexpected)

/-- Reads the label of an argument, if it has one. -/
def Argument.label? (ts : List Token) : Passing (Option String) ts :=
  match ts with
  | ⟨.name label, _⟩ :: ⟨.colon, _⟩ :: rest => ⟨some label, rest, Nat.le_add_right _ 2⟩
  | ts => .stay none ts

mutual

/-- Reads an expression. -/
def Expr.read (last : Nat) (ts : List Token) : Except SourceError (Reading Expr ts) :=
  match ts with
  | ⟨.text value, _⟩ :: rest => .ok ⟨.text value, rest, Nat.lt_succ_self _⟩
  | ⟨.number lexeme, _⟩ :: rest => .ok ⟨.number lexeme, rest, Nat.lt_succ_self _⟩
  | ⟨.name function, _⟩ :: ⟨.openParen, _⟩ :: rest =>
    match Argument.readAll last rest with
    | .error e => .error e
    | .ok r => .ok ⟨.call function r.value, r.rest, by have := r.shorter; simp; omega⟩
  | ⟨.name ident, _⟩ :: rest => .ok ⟨.name ident, rest, Nat.lt_succ_self _⟩
  | ⟨.openBracket, _⟩ :: rest =>
    match Expr.readItems last rest with
    | .error e => .error e
    | .ok r => .ok ⟨.array r.value, r.rest, by have := r.shorter; simp; omega⟩
  | ts => unexpected last "a value" ts
termination_by 2 * ts.length

/-- Reads the items of an array from after its opening bracket, with the closing one. -/
def Expr.readItems (last : Nat) (ts : List Token) : Except SourceError (Reading (List Expr) ts) :=
  match ts with
  | ⟨.closeBracket, _⟩ :: rest => .ok ⟨[], rest, Nat.lt_succ_self _⟩
  | ts =>
    match Expr.read last ts with
    | .error e => .error e
    | .ok item =>
      match h : item.rest with
      | ⟨.comma, _⟩ :: rest =>
        have : rest.length < ts.length := by have := item.shorter; simp [h] at this; omega
        match Expr.readItems last rest with
        | .error e => .error e
        | .ok r => .ok ⟨item.value :: r.value, r.rest, by have := r.shorter; omega⟩
      | ⟨.closeBracket, _⟩ :: rest =>
        .ok ⟨[item.value], rest, by have := item.shorter; simp [h] at this; omega⟩
      | rest => unexpected last "`,` or `]`" rest
termination_by 2 * ts.length + 1

/-- Reads arguments from after their opening parenthesis, with the closing one. -/
def Argument.readAll (last : Nat) (ts : List Token) :
    Except SourceError (Reading (List Argument) ts) :=
  match ts with
  | ⟨.closeParen, _⟩ :: rest => .ok ⟨[], rest, Nat.lt_succ_self _⟩
  | ts =>
    let ⟨label, unlabelled, _⟩ := Argument.label? ts
    match Expr.read last unlabelled with
    | .error e => .error e
    | .ok value =>
      match h : value.rest with
      | ⟨.comma, _⟩ :: rest =>
        have : rest.length < ts.length := by have := value.shorter; simp [h] at this; omega
        match Argument.readAll last rest with
        | .error e => .error e
        | .ok r => .ok ⟨⟨label, value.value⟩ :: r.value, r.rest, by have := r.shorter; omega⟩
      | ⟨.closeParen, _⟩ :: rest =>
        .ok ⟨[⟨label, value.value⟩], rest, by have := value.shorter; simp [h] at this; omega⟩
      | rest => unexpected last "`,` or `)`" rest
termination_by 2 * ts.length + 1

end

/-- Reads an attribute from after its `@` or `@@`. -/
def Attribute.read (last : Nat) (ts : List Token) : Except SourceError (Reading Attribute ts) :=
  match ts with
  | ⟨.name name, line⟩ :: ⟨.openParen, _⟩ :: rest =>
    match Argument.readAll last rest with
    | .error e => .error e
    | .ok r => .ok ⟨⟨name, r.value, line⟩, r.rest, by have := r.shorter; simp; omega⟩
  | ⟨.name name, line⟩ :: rest => .ok ⟨⟨name, [], line⟩, rest, Nat.lt_succ_self _⟩
  | ts => unexpected last "attribute name" ts

/-- Reads the attributes of a field or an enum value, as many as stand here. -/
def Attribute.readAll (last : Nat) (ts : List Token) :
    Except SourceError (Passing (List Attribute) ts) :=
  match ts with
  | ⟨.marker, _⟩ :: rest =>
    match Attribute.read last rest with
    | .error e => .error e
    | .ok a =>
      have : a.rest.length < rest.length + 1 := by have := a.shorter; omega
      match Attribute.readAll last a.rest with
      | .error e => .error e
      | .ok r => .ok ⟨a.value :: r.value, r.rest, by have := r.noLonger; simp; omega⟩
  | ts => .ok (.stay [] ts)
termination_by ts.length

end Datamodel
