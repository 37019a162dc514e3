import Datamodel.Proofs.Expr.Attributes
import Datamodel.Proofs.Loading.Taken
import Datamodel.Proofs.Spacing.Tokens

/-! Reading tokens of the same kinds gives the same expressions, whatever lines they stand on.

No expression takes a line break, so any relation will do that has tokens of the same kinds in front
of the first of them (`Token.Parallel`). `Follows` says of two readings that the second succeeds if
the first does; what they leave is related again (`Reading.Like`), so that readings can be put
together. -/

namespace Datamodel

open Token (Answers NoParen Parallel Passing Reading)

namespace Token

section
variable {α : Type} {A : List Token → List Token → Prop} {ts us : List Token}

/-- Readings of related values that leave related tokens. -/
structure Reading.Like (A : List Token → List Token → Prop) (V : α → α → Prop) (r : Reading α ts)
    (s : Reading α us) : Prop where
  value : V r.value s.value
  rest : A r.rest s.rest

structure Passing.Like (A : List Token → List Token → Prop) (V : α → α → Prop) (r : Passing α ts)
    (s : Passing α us) : Prop where
  value : V r.value s.value
  rest : A r.rest s.rest

/-- An answer with a related value, which leaves related tokens. -/
theorem Answers.follows {V : α → α → Prop} {a : α} {rest : List Token}
    {y : Except SourceError (Reading α us)} {r : Reading α ts} (h : Answers y a rest)
    (hvalue : V r.value a) (hrest : A r.rest rest) : ∃ s, y = .ok s ∧ Reading.Like A V r s := by
  obtain ⟨hlt, h⟩ := h
  exact ⟨_, h, hvalue, hrest⟩

theorem Answers.of_eq {r : Reading α ts} {y : Except SourceError (Reading α us)}
    {s : Reading α us} (h : y = .ok s) (hvalue : r.value = s.value) : Answers y r.value s.rest :=
  ⟨s.shorter, by rw [h, hvalue]⟩

theorem follows_ident (hA : Parallel A) (last last' : Nat) (h : A ts us) (wanted : String) :
    Follows (Reading.Like A Eq) (ident last wanted ts) (ident last' wanted us) := by
  intro r hr
  obtain ⟨n, hts⟩ := eq_cons_of_ident hr
  rw [hts] at h
  obtain ⟨m, us', rfl, hrest⟩ := hA.exists_cons h (by simp)
  exact ⟨_, rfl, rfl, hrest⟩

theorem follows_expect (hA : Parallel A) (last last' : Nat) (h : A ts us) (kind : Kind)
    (hkind : kind ≠ .newline) (wanted : String) :
    Follows (Reading.Like A Eq) (expect last kind wanted ts) (expect last' kind wanted us) := by
  intro r hr
  obtain ⟨n, hts⟩ := eq_cons_of_expect hr
  rw [hts] at h
  obtain ⟨m, us', rfl, hrest⟩ := hA.exists_cons h hkind
  exact ⟨_, if_pos rfl, rfl, hrest⟩

end

end Token

/-! ### Expressions -/

section
variable {A : List Token → List Token → Prop} {ts us : List Token}

theorem Token.Parallel.noParen (hA : Parallel A) (h : A ts us) (hts : NoParen ts) : NoParen us := by
  refine hA.head?_ne h (by simp) ?_
  rintro n rest rfl
  exact hts _ rfl rfl

theorem Expr.follows_read (hA : Parallel A) (last last' : Nat) (h : A ts us) :
    Follows (Reading.Like A Eq) (Expr.read last ts) (Expr.read last' us) := by
  intro r hr
  obtain ⟨used, hts, hspelled, hstops⟩ := Expr.spelled_of_read hr
  rw [hts] at h
  obtain ⟨vs, rest, rfl, hvs, hrest⟩ := hA.exists_append h fun t ht =>
    Token.Kind.ne_newline_of_isInner (hspelled.isInner t.kind (List.mem_map_of_mem ht))
  have hanswer : Answers (Expr.read last' (vs ++ rest)) r.value rest :=
    Expr.read_spelled hspelled hvs fun ident he => hA.noParen hrest (hstops ident he)
  exact hanswer.follows rfl hrest

theorem Argument.follows_readAll (hA : Parallel A) (last last' : Nat) (h : A ts us) :
    Follows (Reading.Like A Eq) (Argument.readAll last ts) (Argument.readAll last' us) := by
  intro r hr
  obtain ⟨used, n, hts, hlisted⟩ := Argument.listed_of_readAll hr
  rw [hts] at h
  obtain ⟨vs, rest, rfl, hvs, hclose⟩ := hA.exists_append h fun t ht =>
    Token.Kind.ne_newline_of_isInner
      (Argument.isInner_of_listed hlisted t.kind (List.mem_map_of_mem ht))
  obtain ⟨m, rest', rfl, hrest⟩ := hA.exists_cons hclose (by simp)
  have hanswer : Answers (Argument.readAll last' (vs ++ ⟨.closeParen, m⟩ :: rest')) r.value rest' :=
    Argument.readAll_spelled hlisted hvs
  exact hanswer.follows rfl hrest

/-! ### Attributes -/

/-- The attribute, whatever line it stands on. -/
def Attribute.unlined (a : Attribute) : Attribute := { a with line := 0 }

/-- Values that are the same once `f` is applied. -/
abbrev Agree {α β : Type} (f : α → β) (a b : α) : Prop := f a = f b

theorem Attribute.follows_read (hA : Parallel A) (last last' : Nat) (h : A ts us) :
    Follows (Reading.Like A (Agree unlined)) (Attribute.read last ts)
      (Attribute.read last' us) := by
  intro r hr
  obtain ⟨name, line, ⟨hts, hstop, hvalue⟩ | ⟨n, rest, args, hts, hargs, hrest, hvalue⟩⟩ :=
    Attribute.cases_read hr
  · rw [hts] at h
    obtain ⟨m, us', rfl, hrest⟩ := hA.exists_cons h (by simp)
    have hsame : Agree unlined r.value ⟨name, [], m⟩ := by rw [hvalue]; rfl
    exact (Attribute.read_name (hA.noParen hrest hstop)).follows hsame hrest
  · rw [hts] at h
    obtain ⟨m, us', rfl, hopen⟩ := hA.exists_cons h (by simp)
    obtain ⟨m', us'', rfl, hinner⟩ := hA.exists_cons hopen (by simp)
    obtain ⟨s, hs, hargs', hrest'⟩ := Argument.follows_readAll hA last last' hinner args hargs
    have hsame : Agree unlined r.value ⟨name, args.value, m⟩ := by rw [hvalue]; rfl
    exact (Attribute.read_call (Answers.of_eq hs hargs')).follows hsame (hrest ▸ hrest')

theorem Attribute.follows_readAll (hA : Parallel A) (last last' : Nat) (h : A ts us) :
    Follows (Passing.Like A (Agree (List.map unlined))) (Attribute.readAll last ts)
      (Attribute.readAll last' us) := by
  fun_induction Attribute.readAll last ts generalizing us with
  | case1 => exact .error
  | case2 => exact .error
  | case3 line rest a ha _ more hmore ih =>
    obtain ⟨m, us', rfl, hrest⟩ := hA.exists_cons h (by simp)
    obtain ⟨s, hs, hvalue, hrest'⟩ := Attribute.follows_read hA last last' hrest a ha
    obtain ⟨s', hs', hvalue', hrest''⟩ := ih hrest' more hmore
    have hlonger : s'.rest.length ≤ us'.length + 1 := by
      have := s'.noLonger
      have := s.shorter
      omega
    have hread : Attribute.readAll last' (⟨.marker, m⟩ :: us') =
        .ok ⟨s.value :: s'.value, s'.rest, hlonger⟩ := by
      rw [Attribute.readAll, hs]
      simp only [hs']
    intro r hr
    cases hr
    refine ⟨_, hread, ?_, hrest''⟩
    rw [Agree, List.map_cons, List.map_cons, hvalue, hvalue']
  | case4 ts hnot =>
    intro r hr
    cases hr
    have hmarker := hA.head?_ne h (by simp) hnot
    refine ⟨.stay [] us, ?_, rfl, h⟩
    rw [Attribute.readAll.eq_def]
    split
    · exact absurd rfl (hmarker _ rfl)
    · rfl

end

end Datamodel
