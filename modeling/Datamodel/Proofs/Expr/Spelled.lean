import Datamodel.Proofs.Expr.Printed

/-! The grammar of expressions.

`Expr.Spelled` says which tokens make an expression. Those of its own text do (`Expr.spelled_kinds`),
and all others differ from them by no more than a comma behind the last entry of a list. Arguments
and items are lists of the same form (`Kind.Listed`), so what holds of the tokens of an expression
is proved for both at once, entry by entry (`Kind.Listed.induction`). -/

namespace Datamodel

open Token (Balanced Kind)

/-! ### Lists -/

/-- The tokens of a list between its brackets: those of its entries, with commas between them. -/
inductive Token.Kind.Listed {α : Type} (R : α → List Kind → Prop) : List α → List Kind → Prop where
  | plain {xs : List α} {kss : List (List Kind)} (entries : List.Forall₂ R xs kss) :
    Listed R xs (separated kss)
  /-- One comma may stand behind the last entry. -/
  | trailing {x : α} {xs : List α} {kss : List (List Kind)}
    (entries : List.Forall₂ R (x :: xs) kss) : Listed R (x :: xs) (separated kss ++ [.comma])

namespace Token.Kind

theorem separated_singleton (ks : List Kind) : separated [ks] = ks := by
  rw [separated, List.intercalate_singleton]

theorem separated_cons_cons (ks ks' : List Kind) (kss : List (List Kind)) :
    separated (ks :: ks' :: kss) = ks ++ .comma :: separated (ks' :: kss) := by
  rw [separated, List.intercalate_cons_cons, List.append_assoc]
  rfl

namespace Listed

section
variable {α : Type} {R : α → List Kind → Prop} {x : α} {xs : List α} {ks more : List Kind}

theorem nil : Listed R [] [] := .plain .nil

theorem one (h : R x ks) : Listed R [x] ks := by
  rw [← separated_singleton ks]
  exact .plain (.cons h .nil)

theorem cons (h : R x ks) (hxs : Listed R xs more) : Listed R (x :: xs) (ks ++ .comma :: more) := by
  cases hxs with
  | plain entries =>
    cases entries with
    | nil =>
      rw [← separated_singleton ks]
      exact .trailing (.cons h .nil)
    | cons hy hys =>
      rw [← separated_cons_cons]
      exact .plain (.cons h (.cons hy hys))
  | trailing entries =>
    cases entries with
    | cons hy hys =>
      rw [← List.cons_append, ← List.append_assoc, ← separated_cons_cons]
      exact .trailing (.cons h (.cons hy hys))

/-- A list has no entries, or one, or starts with an entry and a comma. Behind this comma is a list
again; if that one has no entries, the comma is the one behind the last. -/
@[elab_as_elim]
theorem induction {motive : ∀ xs ks, Listed R xs ks → Prop} (nil : motive [] [] nil)
    (one : ∀ x ks (hx : R x ks), motive [x] ks (one hx))
    (cons : ∀ x xs ks more (hx : R x ks) (hxs : Listed R xs more), motive xs more hxs →
      motive (x :: xs) (ks ++ .comma :: more) (cons hx hxs))
    (h : Listed R xs ks) : motive xs ks h := by
  -- Both forms are one for the induction over the entries, up to the end of the last.
  have behind {xs : List α} {kss : List (List Kind)} {x : α} {ks tail : List Kind}
      (htail : tail = [] ∨ tail = [.comma]) (hx : R x ks) (hxs : List.Forall₂ R xs kss) :
      ∃ h, motive (x :: xs) (separated (ks :: kss) ++ tail) h := by
    induction hxs generalizing x ks with
    | nil =>
      rw [separated_singleton]
      rcases htail with rfl | rfl
      · rw [List.append_nil]
        exact ⟨_, one x ks hx⟩
      · exact ⟨_, cons x [] ks [] hx _ nil⟩
    | @cons y ks' xs kss hy _ ih =>
      obtain ⟨hmore, ih⟩ := ih hy
      rw [separated_cons_cons, List.append_assoc, List.cons_append]
      exact ⟨_, cons x (y :: xs) ks _ hx hmore ih⟩
  cases h with
  | plain entries =>
    cases entries with
    | nil => exact nil
    | cons hx hxs =>
      obtain ⟨_, h⟩ := behind (.inl rfl) hx hxs
      simpa using h
  | trailing entries =>
    cases entries with
    | cons hx hxs =>
      obtain ⟨_, h⟩ := behind (.inr rfl) hx hxs
      exact h

theorem of_map {f : α → List Kind} (h : ∀ x ∈ xs, R x (f x)) :
    Listed R xs (separated (xs.map f)) := by
  refine .plain ?_
  rw [List.forall₂_map_right_iff, List.forall₂_same]
  exact h

/-- The entries of a list are among its tokens. -/
theorem exists_of_mem (h : Listed R xs ks) : ∀ x ∈ xs, ∃ ks', R x ks' ∧ ks' ⊆ ks := by
  induction h using induction with
  | nil => nofun
  | one x ks hx => exact List.forall_mem_singleton.mpr ⟨ks, hx, List.Subset.refl ks⟩
  | cons x xs ks more hx _ ih =>
    refine List.forall_mem_cons.mpr ⟨⟨ks, hx, List.subset_append_left ks _⟩, fun y hy => ?_⟩
    obtain ⟨ks', hks', hsub⟩ := ih y hy
    exact ⟨ks', hks', fun k hk => by simp [hsub hk]⟩

/-- What holds of the comma and of the tokens of each entry holds of the tokens of the list. -/
theorem forall_mem {p : Kind → Prop} (h : Listed R xs ks) (hcomma : p .comma)
    (hentries : ∀ x ∈ xs, ∀ ks, R x ks → ∀ k ∈ ks, p k) : ∀ k ∈ ks, p k := by
  induction h using induction with
  | nil => nofun
  | one x ks hx => exact hentries x List.mem_cons_self ks hx
  | cons x xs ks more hx _ ih =>
    rw [List.forall_mem_append, List.forall_mem_cons]
    exact ⟨hentries x List.mem_cons_self ks hx, hcomma,
      ih fun y hy => hentries y (List.mem_cons_of_mem x hy)⟩

theorem balanced (h : Listed R xs ks) (hentries : ∀ x ∈ xs, ∀ ks, R x ks → Balanced ks) :
    Balanced ks := by
  induction h using induction with
  | nil => exact .nil
  | one x ks hx => exact hentries x List.mem_cons_self ks hx
  | cons x xs ks more hx _ ih =>
    have hmore : Balanced more := ih fun y hy => hentries y (List.mem_cons_of_mem x hy)
    exact (hentries x List.mem_cons_self ks hx).append (hmore.cons fun _ => rfl)

end

end Listed

end Token.Kind

/-! ### Expressions -/

mutual

/-- The tokens are a spelling of the expression. -/
inductive Expr.Spelled : Expr → List Kind → Prop where
  | text (value : String) : Expr.Spelled (.text value) [.text value]
  | number (lexeme : String) : Expr.Spelled (.number lexeme) [.number lexeme]
  | name (ident : String) : Expr.Spelled (.name ident) [.name ident]
  | call {function : String} {args : List Argument} {ks : List Kind}
    (h : Kind.Listed Argument.Spelled args ks) :
    Expr.Spelled (.call function args) (.name function :: .openParen :: (ks ++ [.closeParen]))
  | array {items : List Expr} {ks : List Kind} (h : Kind.Listed Expr.Spelled items ks) :
    Expr.Spelled (.array items) (.openBracket :: (ks ++ [.closeBracket]))

/-- The tokens are a spelling of the argument. -/
inductive Argument.Spelled : Argument → List Kind → Prop where
  | positional {value : Expr} {ks : List Kind} (h : Expr.Spelled value ks) :
    Argument.Spelled ⟨none, value⟩ ks
  | labelled {label : String} {value : Expr} {ks : List Kind} (h : Expr.Spelled value ks) :
    Argument.Spelled ⟨some label, value⟩ (.name label :: .colon :: ks)

end

/-- The tokens of an argument end with those of its value. -/
theorem Argument.Spelled.exists_value {a : Argument} {ks : List Kind} (h : a.Spelled ks) :
    ∃ ks', a.value.Spelled ks' ∧ ks' <:+ ks := by
  cases h with
  | positional h => exact ⟨ks, h, List.suffix_refl ks⟩
  | @labelled label value ks h => exact ⟨ks, h, [.name label, .colon], rfl⟩

/-! ### The tokens of the text -/

theorem Argument.spelled_kinds_of_value {a : Argument} (h : a.value.Spelled a.value.kinds) :
    a.Spelled a.kinds := by
  obtain ⟨_ | label, value⟩ := a
  · exact .positional h
  · exact .labelled h

/-- **The tokens of its text spell an expression.** -/
theorem Expr.spelled_kinds (e : Expr) : e.Spelled e.kinds := by
  induction e with
  | text value => exact .text value
  | number lexeme => exact .number lexeme
  | name ident => exact .name ident
  | call function args ih =>
    rw [kinds, Argument.kindsList_eq_map]
    exact .call (.of_map fun a ha => Argument.spelled_kinds_of_value (ih a ha))
  | array items ih =>
    rw [kinds, Expr.kindsList_eq_map]
    exact .array (.of_map ih)

theorem Argument.spelled_kinds (a : Argument) : a.Spelled a.kinds :=
  spelled_kinds_of_value a.value.spelled_kinds

theorem Argument.listed_kinds (args : List Argument) :
    Kind.Listed Argument.Spelled args (Kind.separated (args.map Argument.kinds)) :=
  .of_map fun a _ => a.spelled_kinds

/-! ### Brackets -/

section
variable {ks : List Kind}

theorem Argument.Spelled.balanced {a : Argument} (h : a.Spelled ks)
    (hvalue : ∀ {ks}, a.value.Spelled ks → Balanced ks) : Balanced ks := by
  cases h with
  | positional h => exact hvalue h
  | labelled h => exact ((hvalue h).cons fun _ => rfl).cons fun _ => rfl

/-- An expression closes its brackets. -/
theorem Expr.Spelled.balanced {e : Expr} (h : e.Spelled ks) : Balanced ks := by
  induction e generalizing ks with
  | text value | number lexeme | name ident =>
    cases h
    exact Balanced.nil.cons fun _ => rfl
  | call function args ih =>
    cases h with
    | call h =>
      exact Balanced.cons (fun _ => rfl) (h.balanced fun a ha _ hks => hks.balanced (ih a ha)).parens
  | array items ih =>
    cases h with
    | array h => exact (h.balanced fun e he _ => ih e he).brackets

theorem Argument.balanced_of_listed {args : List Argument}
    (h : Kind.Listed Argument.Spelled args ks) : Balanced ks :=
  h.balanced fun _ _ _ hks => hks.balanced Expr.Spelled.balanced

end

theorem Expr.balanced_kinds (e : Expr) : Balanced e.kinds := e.spelled_kinds.balanced

end Datamodel
