import Datamodel.Expr
import Datamodel.Proofs.Token.Lexing

/-! The tokens of printed expressions.

`Expr.kinds` gives the tokens that the text of an expression is made of (`Expr.lexes`), if its
identifiers and numbers are such (`Expr.Lexical`). -/

namespace Datamodel

open Token (Kind IsName IsNumber Lexes Stops)

/-! ### Induction -/

section
variable {P : Expr → Prop} (text : ∀ value, P (.text value)) (number : ∀ lexeme, P (.number lexeme))
  (name : ∀ ident, P (.name ident))
  (call : ∀ function args, (∀ a ∈ args, P (Argument.value a)) → P (.call function args))
  (array : ∀ items, (∀ e ∈ items, P e) → P (.array items))

include text number name call array in
/-- To prove something of all expressions, prove it of each from its arguments or items. -/
@[induction_eliminator]
theorem Expr.induction (e : Expr) : P e := by
  refine Expr.rec (motive_1 := P) (motive_2 := fun a => P a.value)
    (motive_3 := fun as => ∀ a ∈ as, P (Argument.value a)) (motive_4 := fun es => ∀ e ∈ es, P e)
    text number name call array (fun _ _ h => h) nofun ?_ nofun ?_ e
  · intro a as ha has b hb
    rcases List.mem_cons.mp hb with rfl | hb
    · exact ha
    · exact has b hb
  · intro e es he hes e' he'
    rcases List.mem_cons.mp he' with rfl | he'
    · exact he
    · exact hes e' he'

end

/-! ### Tokens -/

/-- Tokens with commas between them. -/
def Token.Kind.separated (kss : List (List Kind)) : List Kind := [Kind.comma].intercalate kss

mutual

/-- The tokens of an expression. -/
def Expr.kinds : Expr → List Kind
  | .text value => [.text value]
  | .number lexeme => [.number lexeme]
  | .name ident => [.name ident]
  | .call function args =>
    .name function :: .openParen :: (Kind.separated (Argument.kindsList args) ++ [.closeParen])
  | .array items => .openBracket :: (Kind.separated (Expr.kindsList items) ++ [.closeBracket])

def Expr.kindsList : List Expr → List (List Kind)
  | [] => []
  | e :: es => e.kinds :: Expr.kindsList es

/-- The tokens of an argument. -/
def Argument.kinds : Argument → List Kind
  | ⟨some label, value⟩ => .name label :: .colon :: value.kinds
  | ⟨none, value⟩ => value.kinds

def Argument.kindsList : List Argument → List (List Kind)
  | [] => []
  | a :: as => a.kinds :: Argument.kindsList as

end

@[simp] theorem Expr.kindsList_eq_map (es : List Expr) : kindsList es = es.map kinds := by
  induction es with
  | nil => rfl
  | cons e es ih => rw [kindsList, ih, List.map_cons]

@[simp] theorem Argument.kindsList_eq_map (as : List Argument) : kindsList as = as.map kinds := by
  induction as with
  | nil => rfl
  | cons a as ih => rw [kindsList, ih, List.map_cons]

/-- An expression all of whose identifiers and numbers are such. -/
inductive Expr.Lexical : Expr → Prop where
  | text (value : String) : Lexical (.text value)
  | number {lexeme : String} (h : IsNumber lexeme) : Lexical (.number lexeme)
  | name {ident : String} (h : IsName ident) : Lexical (.name ident)
  | call {function : String} {args : List Argument} (h : IsName function)
    (labels : ∀ a ∈ args, ∀ label ∈ a.label, IsName label)
    (values : ∀ a ∈ args, Lexical a.value) : Lexical (.call function args)
  | array {items : List Expr} (h : ∀ e ∈ items, Lexical e) : Lexical (.array items)

/-- An argument all of whose identifiers and numbers are such. -/
structure Argument.Lexical (a : Argument) : Prop where
  label : ∀ label ∈ a.label, IsName label
  value : a.value.Lexical

theorem Argument.lexical_labelled {label : String} {value : Expr} (h : IsName label)
    (hv : value.Lexical) : (⟨some label, value⟩ : Argument).Lexical :=
  ⟨by rintro _ ⟨⟩; exact h, hv⟩

theorem Argument.lexical_positional {value : Expr} (hv : value.Lexical) :
    (⟨none, value⟩ : Argument).Lexical := ⟨nofun, hv⟩

/-! ### From the text to the tokens -/

/-- Texts with commas between them. -/
theorem Token.Lexes.separated {α : Type} {text : α → String} {kinds : α → List Kind} {xs : List α}
    (h : ∀ x ∈ xs, Lexes (text x).toList (kinds x)) :
    Lexes (", ".intercalate (xs.map text)).toList (Kind.separated (xs.map kinds)) := by
  induction xs with
  | nil => exact .nil
  | cons x xs ih =>
    have hx := h x List.mem_cons_self
    have ih := ih fun y hy => h y (List.mem_cons_of_mem _ hy)
    cases xs with
    | nil => simpa [Kind.separated] using hx
    | cons y ys =>
      rw [List.map_cons, List.map_cons, String.intercalate_cons_cons, String.toList_append,
        String.toList_append, List.append_assoc]
      have := hx.append (Stops.cons (by decide)) (Lexes.comma (Lexes.space ih))
      simpa [Kind.separated, List.intercalate] using this

theorem Argument.lexes {a : Argument} (h : ∀ label ∈ a.label, IsName label)
    (hv : Lexes a.value.toText.toList a.value.kinds) : Lexes a.toText.toList a.kinds := by
  obtain ⟨_ | label, value⟩ := a
  · exact hv
  · have := Lexes.name (h label rfl) (Stops.cons (by decide)) (Lexes.colon (Lexes.space hv))
    simpa [Argument.toText, Argument.kinds] using this

/-- **The text of an expression is made of its tokens.** -/
theorem Expr.lexes {e : Expr} (h : e.Lexical) : Lexes e.toText.toList e.kinds := by
  induction h with
  | text value => simpa [toText, kinds] using Lexes.quote value .nil
  | number h => simpa [toText, kinds] using Lexes.number h .nil .nil
  | name h => simpa [toText, kinds] using Lexes.name h .nil .nil
  | @call function args h labels _ ih =>
    have hargs := Lexes.separated fun a ha => Argument.lexes (labels a ha) (ih a ha)
    have := Lexes.name h (Stops.cons (by decide)) (Lexes.openParen
      (hargs.append (Stops.cons (by decide)) (Lexes.closeParen .nil)))
    simpa [toText, kinds] using this
  | @array items _ ih =>
    have hitems := Lexes.separated ih
    have := Lexes.openBracket (hitems.append (Stops.cons (by decide)) (Lexes.closeBracket .nil))
    simpa [toText, kinds] using this

end Datamodel
