import Datamodel.Proofs.Loading.Displayed
import Datamodel.Proofs.Stability.Defaults

/-! Defaults whose text is printed again.

`DefaultValue.Steady` asks that a default is printed as an expression, and that the default which
the expression gives, be it the same or another, has that text again. Both can be seen from the
shape of the default (`DefaultValue.steady_iff`), as the latter can be from that of the expression
(`Expr.restated_iff`). A default that is read back as what it is (`DefaultValue.Survives`) has such
a shape, and so has every call of `dbgenerated`. -/

namespace Datamodel

open Notes
open Printer (commaList)
open Text.Quoted (quote)

/-! ### Shapes -/

/-- An expression of a shape that the default which it gives is printed as. -/
def Expr.Restated (kind : FieldKind) (type : String) : Expr → Prop
  | .text _ => kind = .scalar ∧ type ≠ "BigInt"
  | .number _ => True
  | .name ident => ident = "true" ∨ ident = "false" ∨ kind = .enum
  | .call function args =>
    if function = "dbgenerated" then ∃ value, args = [⟨none, .text value⟩]
    else ∀ a ∈ args, a.toText = a.bareText
  | .array _ => False

/-- A default of a shape that is printed as such an expression. -/
def DefaultValue.Restated (kind : FieldKind) (type : String) : DefaultValue → Prop
  | text value =>
    (kind = .scalar ∧ type ≠ "BigInt") ∨
      ∃ e : Expr, e.Lexical ∧ e.Restated kind type ∧ e.toText = value
  | call function args =>
    function = "dbgenerated" ∨
      ∃ as : List Argument, (∀ a ∈ as, a.Lexical ∧ a.toText = a.bareText) ∧
        commaList (as.map Argument.toText) = commaList args
  | number _ | boolean _ | member _ => True
  | unrecognized _ => False

/-! ### Texts of expressions -/

theorem Token.quote_ne (s : String) : quote s ≠ s := by
  intro h
  have hscan := scan_quote s 1 0 []
  rw [List.append_nil, scan, h] at hscan
  have hlength := length_add_two_le_of_mem_scan hscan List.mem_cons_self
  omega

section
variable {kind : FieldKind} {type function : String} {e : Expr}

/-- Expressions of one text are the same. -/
theorem Expr.eq_of_toText_eq {e' : Expr} (he : e.Lexical) (he' : e'.Lexical)
    (h : e.toText = e'.toText) : e = e' := by
  obtain ⟨ts, hts, -, hread⟩ := he.readBack
  obtain ⟨ts', hts', -, hread'⟩ := he'.readBack
  obtain rfl := Except.ok.inj (hts.symm.trans (h ▸ hts'))
  obtain ⟨_, hread⟩ := hread 1
  obtain ⟨_, hread'⟩ := hread' 1
  exact congrArg (·.value) (Except.ok.inj (hread.symm.trans hread'))

/-- The text of a call is that of no other expression. -/
theorem Expr.exists_call_of_toText {args : List String} (he : e.Lexical)
    (hfunction : Token.IsName function)
    (h : e.toText = function ++ "(" ++ commaList args ++ ")") :
    ∃ as : List Argument, e = .call function as ∧
      (as.map Argument.bareText = args → ∀ arg ∈ args, IsBareArgument arg) := by
  obtain ⟨a, ha, -, hvalue⟩ := DefaultValue.exists_printed_of_expr he
  rw [h] at ha
  obtain ⟨as, rest, hargs, hbare⟩ := a.exists_call DefaultValue.isName_default hfunction ha
  have hcall : (a.toAttribute 1).positional? = some (.call function as) := by
    simp [Attribute.positional?, Attribute.Form.toAttribute, hargs]
  exact ⟨as, Option.some.inj ((hvalue 1).symm.trans hcall), hbare⟩

theorem Expr.restated_call_iff {as : List Argument} (he : (Expr.call function as).Lexical)
    (hfunction : Token.IsName function) :
    ((Expr.call function as).toDefault kind).valueText kind type = .ok (call function as).toText ↔
      (Expr.call function as).Restated kind type := by
  by_cases hgenerated : function = "dbgenerated"
  · subst hgenerated
    rw [toDefault, DefaultValue.valueText_generated, Except.ok.injEq, Restated, if_pos rfl]
    constructor
    · intro h
      have heq := eq_of_toText_eq (lexical_generated _) he h
      exact ⟨_, (Expr.call.inj heq).2.symm⟩
    · rintro ⟨value, rfl⟩
      rfl
  · rw [Restated, if_neg hgenerated, ← List.map_inj_left, toDefault, DefaultValue.valueText,
      if_neg hgenerated, Except.ok.injEq]
    constructor
    · intro h
      obtain ⟨_, heq, hbare⟩ := exists_call_of_toText he hfunction h.symm
      cases heq
      -- The bare texts are those of other arguments, and these are the same by their text.
      obtain ⟨as', hlexical, htexts, hbares⟩ := DefaultValue.exists_arguments (hbare rfl)
      rw [← htexts, ← toText_call] at h
      cases eq_of_toText_eq (lexical_call hfunction hlexical) he h
      exact htexts
    · intro h
      rw [toText_call, h]

/-- **An expression has the text of the default that it gives** just if it has such a shape. -/
theorem Expr.restated_iff (he : e.Lexical) :
    (e.toDefault kind).valueText kind type = .ok e.toText ↔ e.Restated kind type := by
  cases e with
  | text value =>
    rw [toDefault, DefaultValue.valueText, Expr.toText, Restated, Except.ok.injEq]
    split
    · next h => exact iff_of_true rfl h
    · next h => exact iff_of_false (Token.quote_ne value).symm h
  | number lexeme => exact iff_of_true rfl trivial
  | name ident =>
    by_cases htrue : ident = "true"
    · subst htrue
      exact iff_of_true rfl (.inl rfl)
    by_cases hfalse : ident = "false"
    · subst hfalse
      exact iff_of_true rfl (.inr (.inl rfl))
    rw [DefaultValue.toDefault_name htrue hfalse, Restated, or_iff_right htrue,
      or_iff_right hfalse]
    split
    · next henum => exact iff_of_true rfl henum
    · next henum => exact iff_of_false (by rintro ⟨⟩) henum
  | call function as =>
    cases he with
    | call hfunction hlabels hvalues =>
    exact restated_call_iff (.call hfunction hlabels hvalues) hfunction
  | array items => exact iff_of_false (by rintro ⟨⟩) (by rintro ⟨⟩)

/-! ### Defaults -/

namespace DefaultValue

/-- A default that is read back as what it is has such a shape. -/
theorem Survives.restated {d : DefaultValue} (h : d.Survives kind type) : d.Restated kind type := by
  cases d with
  | text value => exact .inl h
  | number | boolean | member => trivial
  | unrecognized raw => cases h
  | call function args =>
    by_cases hgenerated : function = "dbgenerated"
    · exact .inl hgenerated
    · rw [Survives, if_neg hgenerated] at h
      obtain ⟨as, hlexical, htexts, hbares⟩ := exists_arguments h
      have hbare : ∀ a ∈ as, a.toText = a.bareText :=
        List.map_inj_left.mp (htexts.trans hbares.symm)
      exact .inr ⟨as, fun a ha => ⟨hlexical a ha, hbare a ha⟩, congrArg commaList htexts⟩

theorem Restated.exists_valueText {d : DefaultValue} (h : d.Restated kind type) :
    ∃ v, d.valueText kind type = .ok v := by
  cases d with
  | unrecognized raw => cases h
  | _ => exact ⟨_, rfl⟩

theorem restated_call_iff_exists {args : List String} (hfunction : Token.IsName function) :
    (call function args).Restated kind type ↔ ∃ e : Expr, e.Lexical ∧ e.Restated kind type ∧
      (call function args).valueText kind type = .ok e.toText := by
  by_cases hgenerated : function = "dbgenerated"
  · subst hgenerated
    have hrestated : (Expr.generated args).Restated kind type := by
      rw [Expr.generated, Expr.Restated, if_pos rfl]
      exact ⟨_, rfl⟩
    exact iff_of_true (.inl rfl)
      ⟨_, Expr.lexical_generated args, hrestated, valueText_generated kind type args⟩
  rw [Restated, or_iff_right hgenerated, valueText, if_neg hgenerated]
  constructor
  · rintro ⟨as, has, hargs⟩
    refine ⟨.call function as, Expr.lexical_call hfunction fun a ha => (has a ha).1, ?_, ?_⟩
    · rw [Expr.Restated, if_neg hgenerated]
      exact fun a ha => (has a ha).2
    · rw [Expr.toText_call, hargs]
  · rintro ⟨e, he, hrestated, htext⟩
    have htext := Except.ok.inj htext
    obtain ⟨as, rfl, -⟩ := Expr.exists_call_of_toText he hfunction htext.symm
    rw [Expr.Restated, if_neg hgenerated] at hrestated
    rw [Expr.toText_call] at htext
    cases he with
    | call _ hlabels hvalues =>
    refine ⟨as, fun a ha => ⟨⟨hlabels a ha, hvalues a ha⟩, hrestated a ha⟩, ?_⟩
    simpa using htext.symm

/-- A default of such a shape is printed as an expression of one. -/
theorem restated_iff_exists (he : e.Lexical) :
    (e.toDefault kind).Restated kind type ↔ ∃ e' : Expr, e'.Lexical ∧ e'.Restated kind type ∧
      (e.toDefault kind).valueText kind type = .ok e'.toText := by
  cases e with
  | text value =>
    have htext : ((Expr.text value).toDefault kind).valueText kind type =
        .ok (if kind = .scalar ∧ type ≠ "BigInt" then quote value else value) := rfl
    rw [htext]
    split
    · next h => exact iff_of_true (.inl h) ⟨.text value, he, h, rfl⟩
    · next h => simp only [Expr.toDefault, Restated, or_iff_right h, Except.ok.injEq, eq_comm]
  | number lexeme => exact iff_of_true trivial ⟨.number lexeme, he, trivial, rfl⟩
  | name ident =>
    constructor
    · intro h
      obtain ⟨v, hv⟩ := h.exists_valueText
      obtain ⟨rfl, -⟩ := survives_name hv
      exact ⟨.name ident, he, (Expr.restated_iff he).mp hv, hv⟩
    · rintro ⟨_, -, -, hv⟩
      exact (survives_name hv).2.restated
  | call function as =>
    cases he with
    | call hfunction =>
    exact restated_call_iff_exists hfunction
  | array items => exact iff_of_false (by rintro ⟨⟩) (by rintro ⟨_, -, -, ⟨⟩⟩)

/-- **Steady defaults.** The default of an expression is steady just if it has such a shape and its
text holds no word that is looked for. -/
theorem steady_iff (he : e.Lexical) :
    (e.toDefault kind).Steady kind type ↔ (e.toDefault kind).Restated kind type ∧
      ∀ v, (e.toDefault kind).valueText kind type = .ok v → Lacks marks v := by
  rw [restated_iff_exists he]
  constructor
  · rintro ⟨e', he', hlacks, htext, hagain⟩
    refine ⟨⟨e', he', (Expr.restated_iff he').mp hagain, htext⟩, fun v hv => ?_⟩
    obtain rfl := Except.ok.inj (htext.symm.trans hv)
    exact hlacks
  · rintro ⟨⟨e', he', hrestated, htext⟩, hlacks⟩
    exact ⟨e', he', hlacks _ htext, htext, (Expr.restated_iff he').mpr hrestated⟩

end DefaultValue

end

end Datamodel
