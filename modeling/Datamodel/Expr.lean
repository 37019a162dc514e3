import Datamodel.Text.Quoted

/-! Expressions: the arguments of attributes and the values of configuration properties.

An expression is kept as it is written, unevaluated; `Expr.toText` writes it in one fixed layout.
An `Attribute` is a name with arguments, and its look-ups find the first argument that fits. -/

namespace Datamodel

mutual

/-- An attribute argument or a configuration value. -/
inductive Expr where
  | text (value : String)
  /-- A number, kept as it is written. -/
  | number (lexeme : String)
  | name (ident : String)
  | call (function : String) (args : List Argument)
  | array (items : List Expr)

/-- An argument, positional when it has no label. -/
structure Argument where
  label : Option String
  value : Expr

end

instance : Inhabited Expr := ⟨.text ""⟩

mutual

/-- An expression as text: one space after each comma and colon, strings quoted. -/
def Expr.toText : Expr → String
  | .text value => Text.Quoted.quote value
  | .number lexeme => lexeme
  | .name ident => ident
  | .call function args => function ++ "(" ++ ", ".intercalate (Argument.textList args) ++ ")"
  | .array items => "[" ++ ", ".intercalate (Expr.textList items) ++ "]"

def Expr.textList : List Expr → List String
  | [] => []
  | e :: es => e.toText :: Expr.textList es

def Argument.toText : Argument → String
  | ⟨some label, value⟩ => label ++ ": " ++ value.toText
  | ⟨none, value⟩ => value.toText

def Argument.textList : List Argument → List String
  | [] => []
  | a :: as => a.toText :: Argument.textList as

end

@[simp] theorem Expr.textList_eq_map (es : List Expr) : textList es = es.map toText := by
  induction es with
  | nil => rfl
  | cons e es ih => simp [textList, ih]

@[simp] theorem Argument.textList_eq_map (as : List Argument) : textList as = as.map toText := by
  induction as with
  | nil => rfl
  | cons a as ih => simp [textList, ih]

/-- The value of a string literal. -/
def Expr.text? : Expr → Option String
  | .text value => some value
  | _ => none

/-- The variable of a call `env("VAR")`, with its one argument positional. -/
def Expr.env? : Expr → Option String
  | .call "env" [⟨none, value⟩] => value.text?
  | _ => none

/-- A string without its quotes, and any other expression as it is written. -/
def Expr.bareText : Expr → String
  | .text value => value
  | e => e.toText

/-- `@name(args)` on a field or an enum value, `@@name(args)` on a block. -/
structure Attribute where
  name : String
  args : List Argument
  line : Nat

namespace Attribute

/-- The first positional argument. -/
def positional? (a : Attribute) : Option Expr :=
  (a.args.find? (·.label.isNone)).map (·.value)

/-- The first argument with that label. -/
def labelled? (a : Attribute) (label : String) : Option Expr :=
  (a.args.find? (·.label == some label)).map (·.value)

end Attribute

end Datamodel
