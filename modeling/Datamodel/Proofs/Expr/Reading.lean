import Datamodel.Expr.Grammar
import Datamodel.Proofs.Expr.Spelled

/-! Reading a spelling of an expression gives the expression (`Expr.read_spelled`).

Only the kinds of the tokens count, whatever lines they stand on. A bare identifier has to be
followed by something else than an opening parenthesis, which would make a call of it
(`Expr.StopsAt`). -/

namespace Datamodel

open Token (Kind Reading)

namespace Token

/-- A reader's answer: the value `a`, with the tokens `rest` left. -/
def Answers {α : Type} {ts : List Token} (r : Except SourceError (Reading α ts)) (a : α)
    (rest : List Token) : Prop :=
  ∃ h, r = .ok ⟨a, rest, h⟩

/-- The first token left, if any, opens no parenthesis. -/
def NoParen (rest : List Token) : Prop := ∀ t ∈ rest.head?, t.kind ≠ .openParen

theorem NoParen.cons {t : Token} {rest : List Token} (h : t.kind ≠ .openParen) :
    NoParen (t :: rest) := by
  simpa [NoParen] using h

theorem noParen_of_ne {rest : List Token}
    (h : ∀ line more, rest = ⟨.openParen, line⟩ :: more → False) : NoParen rest := by
  rintro ⟨_, line⟩ ht rfl
  obtain ⟨more, rfl⟩ := List.head?_eq_some_iff.mp ht
  exact h line more rfl

@[simp] theorem unexpected_ne_ok {α : Type} {last : Nat} {wanted : String} {ts : List Token}
    {a : α} : unexpected last wanted ts ≠ .ok a := nofun

end Token

open Token (Answers NoParen)

/-- The expression does not go on with the tokens after it, as a bare identifier does with a
parenthesis. -/
def Expr.StopsAt (e : Expr) (rest : List Token) : Prop := ∀ ident, e = .name ident → NoParen rest

section
variable {last line line' : Nat} {rest rest' : List Token}

theorem Expr.read_name {ident : String} (h : NoParen rest) :
    Answers (Expr.read last (⟨.name ident, line⟩ :: rest)) (.name ident) rest := by
  refine ⟨Nat.lt_succ_self _, ?_⟩
  rw [Expr.read]
  rintro l rest rfl
  exact h _ rfl rfl

theorem Expr.read_call {function : String} {args : List Argument}
    (h : Answers (Argument.readAll last rest) args rest') :
    Answers (Expr.read last (⟨.name function, line⟩ :: ⟨.openParen, line'⟩ :: rest))
      (.call function args) rest' := by
  obtain ⟨hlt, h⟩ := h
  refine ⟨by simp; omega, ?_⟩
  rw [Expr.read, h]

theorem Expr.read_array {items : List Expr} (h : Answers (Expr.readItems last rest) items rest') :
    Answers (Expr.read last (⟨.openBracket, line⟩ :: rest)) (.array items) rest' := by
  obtain ⟨hlt, h⟩ := h
  refine ⟨by simp; omega, ?_⟩
  rw [Expr.read, h]

theorem Expr.readItems_nil :
    Answers (Expr.readItems last (⟨.closeBracket, line⟩ :: rest)) [] rest :=
  ⟨Nat.lt_succ_self _, by rw [Expr.readItems]⟩

theorem Expr.readItems_last {ts : List Token} {e : Expr} (hts : ∀ t ∈ ts.head?, t.kind ≠ .closeBracket)
    (h : Answers (Expr.read last ts) e (⟨.closeBracket, line⟩ :: rest)) :
    Answers (Expr.readItems last ts) [e] rest := by
  obtain ⟨hlt, h⟩ := h
  refine ⟨by simp at hlt; omega, ?_⟩
  rw [Expr.readItems.eq_def]
  split
  · exact absurd rfl (hts _ rfl)
  · rw [h]

theorem Expr.readItems_cons {ts : List Token} {e : Expr} {es : List Expr}
    (hts : ∀ t ∈ ts.head?, t.kind ≠ .closeBracket)
    (h : Answers (Expr.read last ts) e (⟨.comma, line⟩ :: rest))
    (hes : Answers (Expr.readItems last rest) es rest') :
    Answers (Expr.readItems last ts) (e :: es) rest' := by
  obtain ⟨hlt, h⟩ := h
  obtain ⟨hlt', hes⟩ := hes
  refine ⟨by simp at hlt; omega, ?_⟩
  rw [Expr.readItems.eq_def]
  split
  · exact absurd rfl (hts _ rfl)
  · rw [h]
    simp only [hes]

theorem Argument.readAll_nil :
    Answers (Argument.readAll last (⟨.closeParen, line⟩ :: rest)) [] rest :=
  ⟨Nat.lt_succ_self _, by rw [Argument.readAll]⟩

theorem Argument.readAll_last {ts : List Token} {value : Expr}
    (hts : ∀ t ∈ ts.head?, t.kind ≠ .closeParen)
    (h : Answers (Expr.read last (Argument.label? ts).rest) value (⟨.closeParen, line⟩ :: rest)) :
    Answers (Argument.readAll last ts) [⟨(Argument.label? ts).value, value⟩] rest := by
  obtain ⟨hlt, h⟩ := h
  refine ⟨by have := (Argument.label? ts).noLonger; simp at hlt; omega, ?_⟩
  rw [Argument.readAll.eq_def]
  split
  · exact absurd rfl (hts _ rfl)
  · simp only [h]

theorem Argument.readAll_cons {ts : List Token} {value : Expr} {as : List Argument}
    (hts : ∀ t ∈ ts.head?, t.kind ≠ .closeParen)
    (h : Answers (Expr.read last (Argument.label? ts).rest) value (⟨.comma, line⟩ :: rest))
    (has : Answers (Argument.readAll last rest) as rest') :
    Answers (Argument.readAll last ts) (⟨(Argument.label? ts).value, value⟩ :: as) rest' := by
  obtain ⟨hlt, h⟩ := h
  obtain ⟨hlt', has⟩ := has
  refine ⟨by have := (Argument.label? ts).noLonger; simp at hlt; omega, ?_⟩
  rw [Argument.readAll.eq_def]
  split
  · exact absurd rfl (hts _ rfl)
  · simp only [h, has]

end

/-! ### Tokens of given kinds -/

theorem Token.map_kind_eq_cons {k : Kind} {ks : List Kind} {ts : List Token} :
    ts.map (·.kind) = k :: ks ↔ ∃ line us, ts = ⟨k, line⟩ :: us ∧ us.map (·.kind) = ks := by
  constructor
  · intro h
    obtain ⟨t, us, hts, hk, hus⟩ := List.map_eq_cons_iff.mp h
    refine ⟨t.line, us, ?_, hus⟩
    rw [hts, ← hk]
  · rintro ⟨line, us, rfl, rfl⟩
    rfl

section
variable {last line : Nat} {ts rest : List Token} {ks : List Kind}

/-- The tokens of an expression start with none that ends a list. -/
theorem Expr.Spelled.head? {e : Expr} (h : e.Spelled ks) (hts : ts.map (·.kind) = ks) :
    ∀ t ∈ (ts ++ rest).head?, t.kind ≠ .closeBracket ∧ t.kind ≠ .closeParen := by
  cases h <;> obtain ⟨line, us, rfl, -⟩ := Token.map_kind_eq_cons.mp hts <;> simp

theorem Argument.Spelled.head? {a : Argument} (h : a.Spelled ks) (hts : ts.map (·.kind) = ks) :
    ∀ t ∈ (ts ++ rest).head?, t.kind ≠ .closeParen := by
  cases h with
  | positional h => exact fun t ht => (h.head? hts t ht).2
  | labelled =>
    obtain ⟨line, us, rfl, -⟩ := Token.map_kind_eq_cons.mp hts
    simp

/-- The tokens of an expression do not start with a label. -/
theorem Argument.label?_of_expr {value : Expr} (h : value.Spelled ks)
    (hts : ts.map (·.kind) = ks) (hrest : ∀ t ∈ rest.head?, t.kind ≠ .colon) :
    label? (ts ++ rest) = .stay none (ts ++ rest) := by
  cases h with
  | text | number | array =>
    obtain ⟨line, us, rfl, -⟩ := Token.map_kind_eq_cons.mp hts
    rfl
  | name ident =>
    obtain ⟨line, us, rfl, hus⟩ := Token.map_kind_eq_cons.mp hts
    obtain rfl := List.map_eq_nil_iff.mp hus
    cases rest with
    | nil => rfl
    | cons t rest =>
      have ht : t.kind ≠ .colon := hrest t rfl
      rw [List.singleton_append, label?]
      rintro _ _ l rest' h
      cases h
      exact ht rfl
  | call =>
    obtain ⟨line, us, rfl, hus⟩ := Token.map_kind_eq_cons.mp hts
    obtain ⟨line', us, rfl, -⟩ := Token.map_kind_eq_cons.mp hus
    rfl

/-- The label of an argument is read off its tokens, which leaves the tokens of its value. -/
theorem Argument.label?_of_spelled {a : Argument} (h : a.Spelled ks) (hts : ts.map (·.kind) = ks)
    (hrest : ∀ t ∈ rest.head?, t.kind ≠ .colon) :
    ∃ us, (label? (ts ++ rest)).value = a.label ∧ (label? (ts ++ rest)).rest = us ++ rest ∧
      a.value.Spelled (us.map (·.kind)) := by
  cases h with
  | positional h =>
    rw [label?_of_expr h hts hrest]
    exact ⟨ts, rfl, rfl, hts ▸ h⟩
  | labelled h =>
    obtain ⟨line, us, rfl, hus⟩ := Token.map_kind_eq_cons.mp hts
    obtain ⟨line', vs, rfl, hvs⟩ := Token.map_kind_eq_cons.mp hus
    exact ⟨vs, rfl, rfl, hvs ▸ h⟩

/-! ### Spellings -/

/-- The values of a list of items are read as they are. -/
theorem Expr.readItems_listed {items : List Expr} (h : Kind.Listed Expr.Spelled items ks)
    (ih : ∀ e ∈ items, ∀ {ks : List Kind} {ts rest : List Token}, e.Spelled ks →
      ts.map (·.kind) = ks → NoParen rest → Answers (Expr.read last (ts ++ rest)) e rest)
    (hts : ts.map (·.kind) = ks) :
    Answers (Expr.readItems last (ts ++ ⟨.closeBracket, line⟩ :: rest)) items rest := by
  induction h using Kind.Listed.induction generalizing ts with
  | nil =>
    obtain rfl := List.map_eq_nil_iff.mp hts
    exact readItems_nil
  | one e ks he =>
    exact readItems_last (fun t ht => (he.head? hts t ht).1)
      (ih e List.mem_cons_self he hts (.cons (by simp)))
  | cons e es ks more he _ ihes =>
    obtain ⟨us, vs, rfl, hus, hvs⟩ := List.map_eq_append_iff.mp hts
    obtain ⟨line', ws, rfl, hws⟩ := Token.map_kind_eq_cons.mp hvs
    rw [List.append_assoc]
    exact readItems_cons (fun t ht => (he.head? hus t ht).1)
      (ih e List.mem_cons_self he hus (.cons (by simp)))
      (ihes (fun e' he' => ih e' (List.mem_cons_of_mem _ he')) hws)

theorem Argument.readAll_listed {args : List Argument} (h : Kind.Listed Argument.Spelled args ks)
    (ih : ∀ a ∈ args, ∀ {ks : List Kind} {ts rest : List Token}, a.value.Spelled ks →
      ts.map (·.kind) = ks → NoParen rest → Answers (Expr.read last (ts ++ rest)) a.value rest)
    (hts : ts.map (·.kind) = ks) :
    Answers (Argument.readAll last (ts ++ ⟨.closeParen, line⟩ :: rest)) args rest := by
  induction h using Kind.Listed.induction generalizing ts with
  | nil =>
    obtain rfl := List.map_eq_nil_iff.mp hts
    exact readAll_nil
  | one a ks ha =>
    obtain ⟨us, hlabel, hrest, hus⟩ := label?_of_spelled ha hts
      (show ∀ t ∈ (⟨.closeParen, line⟩ :: rest : List Token).head?, _ by simp)
    have hvalue := ih a List.mem_cons_self hus rfl
      (show NoParen (⟨.closeParen, line⟩ :: rest) from .cons (by simp))
    rw [← hrest] at hvalue
    have hone := readAll_last (ha.head? hts) hvalue
    rw [hlabel] at hone
    obtain ⟨label, value⟩ := a
    exact hone
  | cons a as ks more ha _ ihas =>
    obtain ⟨vs, ws, rfl, hvs, hws⟩ := List.map_eq_append_iff.mp hts
    obtain ⟨line', xs, rfl, hxs⟩ := Token.map_kind_eq_cons.mp hws
    rw [List.append_assoc]
    obtain ⟨us, hlabel, hrest, hus⟩ := label?_of_spelled ha hvs
      (show ∀ t ∈ (⟨.comma, line'⟩ :: xs ++ ⟨.closeParen, line⟩ :: rest).head?, _ by simp)
    have hvalue := ih a List.mem_cons_self hus rfl
      (show NoParen (⟨.comma, line'⟩ :: xs ++ ⟨.closeParen, line⟩ :: rest) from .cons (by simp))
    rw [← hrest] at hvalue
    have hall := readAll_cons (ha.head? hvs) hvalue
      (ihas (fun a' ha' => ih a' (List.mem_cons_of_mem _ ha')) hxs)
    rw [hlabel] at hall
    obtain ⟨label, value⟩ := a
    exact hall

/-- **Reading a spelling of an expression gives the expression**, and leaves what follows. -/
theorem Expr.read_spelled {e : Expr} (h : e.Spelled ks) (hts : ts.map (·.kind) = ks)
    (hrest : e.StopsAt rest) : Answers (Expr.read last (ts ++ rest)) e rest := by
  induction e generalizing ks ts rest with
  | text value | number lexeme =>
    cases h
    obtain ⟨line, us, rfl, hus⟩ := Token.map_kind_eq_cons.mp hts
    obtain rfl := List.map_eq_nil_iff.mp hus
    exact ⟨Nat.lt_succ_self _, by simp only [List.cons_append, List.nil_append, read]⟩
  | name ident =>
    cases h
    obtain ⟨line, us, rfl, hus⟩ := Token.map_kind_eq_cons.mp hts
    obtain rfl := List.map_eq_nil_iff.mp hus
    exact read_name (hrest ident rfl)
  | call function args ih =>
    cases h with
    | call hargs =>
      obtain ⟨line, us, rfl, hus⟩ := Token.map_kind_eq_cons.mp hts
      obtain ⟨line', vs, rfl, hvs⟩ := Token.map_kind_eq_cons.mp hus
      obtain ⟨inner, ws, rfl, hinner, hws⟩ := List.map_eq_append_iff.mp hvs
      obtain ⟨line'', xs, rfl, hxs⟩ := Token.map_kind_eq_cons.mp hws
      obtain rfl := List.map_eq_nil_iff.mp hxs
      have hread : Answers (Argument.readAll last (inner ++ ⟨.closeParen, line''⟩ :: rest)) args
          rest :=
        Argument.readAll_listed hargs
          (fun a ha _ _ _ hks hts hrest => ih a ha hks hts fun _ _ => hrest) hinner
      rw [List.append_cons] at hread
      exact read_call hread
  | array items ih =>
    cases h with
    | array hitems =>
      obtain ⟨line, us, rfl, hus⟩ := Token.map_kind_eq_cons.mp hts
      obtain ⟨inner, vs, rfl, hinner, hvs⟩ := List.map_eq_append_iff.mp hus
      obtain ⟨line', ws, rfl, hws⟩ := Token.map_kind_eq_cons.mp hvs
      obtain rfl := List.map_eq_nil_iff.mp hws
      have hread : Answers (readItems last (inner ++ ⟨.closeBracket, line'⟩ :: rest)) items rest :=
        readItems_listed hitems
          (fun e he _ _ _ hks hts hrest => ih e he hks hts fun _ _ => hrest) hinner
      rw [List.append_cons] at hread
      exact read_array hread

theorem Argument.readAll_spelled {args : List Argument} (h : Kind.Listed Argument.Spelled args ks)
    (hts : ts.map (·.kind) = ks) :
    Answers (Argument.readAll last (ts ++ ⟨.closeParen, line⟩ :: rest)) args rest :=
  readAll_listed h (fun _ _ _ _ _ hks hts hrest => Expr.read_spelled hks hts fun _ _ => hrest) hts

/-- Reading the tokens of an expression's text gives the expression. -/
theorem Expr.read_kinds (e : Expr) (last : Nat) (ts rest : List Token)
    (hts : ts.map (·.kind) = e.kinds) (hrest : NoParen rest) :
    Answers (Expr.read last (ts ++ rest)) e rest :=
  read_spelled e.spelled_kinds hts fun _ _ => hrest

end

end Datamodel
