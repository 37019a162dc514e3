import Datamodel.Proofs.Expr.Accepted
import Datamodel.Proofs.Loading.Tokens

/-! What the expressions of a text are like.

From tokens of the lexer, an expression that is read is lexical (`Expr.lexical_of_read`). Every
reader leaves tokens of the lexer. -/

namespace Datamodel

open Token (Kind Lexed Passing Reading)

theorem Argument.Spelled.lexical {a : Argument} {ks : List Kind} (h : a.Spelled ks)
    (hks : ∀ k ∈ ks, k.Lexed)
    (hvalue : ∀ {ks}, a.value.Spelled ks → (∀ k ∈ ks, k.Lexed) → a.value.Lexical) :
    a.Lexical := by
  cases h with
  | positional h => exact lexical_positional (hvalue h hks)
  | labelled h =>
    simp only [List.forall_mem_cons] at hks
    exact lexical_labelled hks.1 (hvalue h hks.2.2)

/-- An expression is lexical if the tokens that spell it are of the lexer. -/
theorem Expr.Spelled.lexical {e : Expr} {ks : List Kind} (h : e.Spelled ks)
    (hks : ∀ k ∈ ks, k.Lexed) : e.Lexical := by
  induction e generalizing ks with
  | text value => exact .text value
  | number lexeme =>
    cases h
    exact .number (hks _ List.mem_cons_self)
  | name ident =>
    cases h
    exact .name (hks _ List.mem_cons_self)
  | call function args ih =>
    cases h with
    | call h =>
      simp only [List.forall_mem_cons, List.forall_mem_append] at hks
      have hargs (a : Argument) (ha : a ∈ args) : a.Lexical := by
        obtain ⟨ks', hspelled, hsub⟩ := h.exists_of_mem a ha
        exact hspelled.lexical (fun k hk => hks.2.2.1 k (hsub hk)) (ih a ha)
      exact .call hks.1 (fun a ha => (hargs a ha).label) fun a ha => (hargs a ha).value
  | array items ih =>
    cases h with
    | array h =>
      simp only [List.forall_mem_cons, List.forall_mem_append] at hks
      refine .array fun e he => ?_
      obtain ⟨ks', hspelled, hsub⟩ := h.exists_of_mem e he
      exact ih e he hspelled fun k hk => hks.2.1 k (hsub hk)

section
variable {last : Nat} {ts : List Token}

theorem Expr.lexical_of_read {r : Reading Expr ts} (hts : Lexed ts)
    (h : Expr.read last ts = .ok r) : r.value.Lexical ∧ Lexed r.rest := by
  obtain ⟨used, hused, hspelled, -⟩ := Expr.spelled_of_read h
  rw [hused, Lexed, List.forall_mem_append] at hts
  exact ⟨hspelled.lexical (List.forall_mem_map.mpr hts.1), hts.2⟩

theorem Argument.lexical_of_readAll {r : Reading (List Argument) ts} (hts : Lexed ts)
    (h : Argument.readAll last ts = .ok r) : (∀ a ∈ r.value, a.Lexical) ∧ Lexed r.rest := by
  obtain ⟨used, n, hused, hlisted⟩ := Argument.listed_of_readAll h
  rw [hused, Lexed, List.forall_mem_append] at hts
  refine ⟨fun a ha => ?_, (List.forall_mem_cons.mp hts.2).2⟩
  obtain ⟨ks, hspelled, hsub⟩ := hlisted.exists_of_mem a ha
  have hks := List.forall_mem_map.mpr hts.1
  exact hspelled.lexical (fun k hk => hks k (hsub hk)) Expr.Spelled.lexical

end

/-! ### Attributes -/

/-- An attribute whose arguments the lexer made. -/
def Attribute.Lexical (a : Attribute) : Prop := ∀ arg ∈ a.args, arg.Lexical

section
variable {last : Nat} {ts : List Token}

theorem Attribute.lexical_of_read {r : Reading Attribute ts} (hts : Lexed ts)
    (h : Attribute.read last ts = .ok r) : r.value.Lexical ∧ Lexed r.rest := by
  obtain ⟨name, line, ⟨heq, -, hvalue⟩ | ⟨n, rest, args, heq, hargs, hrest, hvalue⟩⟩ :=
    Attribute.cases_read h
  · rw [heq, Token.lexed_cons] at hts
    rw [hvalue]
    exact ⟨nofun, hts.2⟩
  · rw [heq, Token.lexed_cons, Token.lexed_cons] at hts
    rw [hvalue, hrest]
    exact Argument.lexical_of_readAll hts.2.2 hargs

theorem Attribute.lexical_of_readAll {r : Passing (List Attribute) ts} (hts : Lexed ts)
    (h : Attribute.readAll last ts = .ok r) : (∀ a ∈ r.value, a.Lexical) ∧ Lexed r.rest := by
  fun_induction Attribute.readAll last ts with
  | case1 => cases h
  | case2 => cases h
  | case3 line rest a ha _ more hmore ih =>
    cases h
    obtain ⟨hfirst, hrest⟩ := Attribute.lexical_of_read (Token.lexed_cons.mp hts).2 ha
    obtain ⟨hothers, hrest⟩ := ih hrest hmore
    exact ⟨List.forall_mem_cons.mpr ⟨hfirst, hothers⟩, hrest⟩
  | case4 =>
    cases h
    exact ⟨nofun, hts⟩

end

end Datamodel
