import Datamodel.Proofs.Expr.Reading

/-! The reader of expressions accepts its grammar and nothing else (`Expr.read_iff_spelled`).

Whatever is read, the tokens that were taken spell it. The readers of items and of arguments take
one entry after the other, each up to a comma or the closing bracket (`Expr.cases_readItems`,
`Argument.cases_readAll`), which is how the tokens of a list are put together. An attribute is its
name with such a list behind it or without one (`Attribute.cases_read`). -/

namespace Datamodel

open Token (Answers Kind NoParen Reading onLine)

/-! ### Single tokens -/

namespace Token
variable {last : Nat} {ts : List Token}

theorem eq_cons_of_ident {wanted : String} {r : Reading String ts}
    (h : ident last wanted ts = .ok r) : ∃ n, ts = ⟨.name r.value, n⟩ :: r.rest := by
  unfold ident at h
  split at h
  · cases h
    exact ⟨_, rfl⟩
  · exact absurd h unexpected_ne_ok

theorem eq_cons_of_expect {kind : Kind} {wanted : String} {r : Reading Unit ts}
    (h : expect last kind wanted ts = .ok r) : ∃ n, ts = ⟨kind, n⟩ :: r.rest := by
  unfold expect at h
  split at h
  · next t rest =>
    split at h
    · next hkind =>
      cases h
      exact ⟨t.line, by rw [← hkind]⟩
    · exact absurd h unexpected_ne_ok
  · exact absurd h unexpected_ne_ok

/-- What stands at the end of an item: a line break, which is taken, or the end of the block. -/
def EndsItem (ts rest : List Token) : Prop :=
  (∃ n, ts = ⟨.newline, n⟩ :: rest) ∨ rest = ts ∧ ∀ t ∈ ts.head?, t.kind = .closeBrace

theorem endsItem_of_endOfItem {r : Passing Unit ts} (h : endOfItem last ts = .ok r) :
    EndsItem ts r.rest := by
  unfold endOfItem at h
  split at h
  · cases h
    exact .inr ⟨rfl, nofun⟩
  · cases h
    exact .inr ⟨rfl, by rintro t ⟨⟩; rfl⟩
  · cases h
    exact .inl ⟨_, rfl⟩
  · exact absurd h unexpected_ne_ok

end Token

/-! ### One entry after the other -/

section
variable {last : Nat} {ts : List Token}

/-- Items are read one after the other, up to the bracket. -/
theorem Expr.cases_readItems {r : Reading (List Expr) ts} (h : Expr.readItems last ts = .ok r) :
    (∃ n, ts = ⟨.closeBracket, n⟩ :: r.rest ∧ r.value = []) ∨
    ∃ item : Reading Expr ts, ∃ n, Expr.read last ts = .ok item ∧
      ((item.rest = ⟨.closeBracket, n⟩ :: r.rest ∧ r.value = [item.value]) ∨
        ∃ rest, ∃ more : Reading (List Expr) rest, item.rest = ⟨.comma, n⟩ :: rest ∧
          Expr.readItems last rest = .ok more ∧ r.rest = more.rest ∧
          r.value = item.value :: more.value) := by
  rw [Expr.readItems.eq_def] at h
  split at h
  · cases h
    exact .inl ⟨_, rfl, rfl⟩
  · right
    split at h
    · cases h
    · next item hitem =>
      refine ⟨item, ?_⟩
      split at h
      · next n rest heq =>
        split at h
        · cases h
        · next more hmore =>
          cases h
          exact ⟨n, hitem, .inr ⟨rest, more, heq, hmore, rfl, rfl⟩⟩
      · next n rest heq =>
        cases h
        exact ⟨n, hitem, .inl ⟨heq, rfl⟩⟩
      · exact absurd h Token.unexpected_ne_ok

/-- Arguments are read one after the other, up to the parenthesis. -/
theorem Argument.cases_readAll {r : Reading (List Argument) ts}
    (h : Argument.readAll last ts = .ok r) :
    (∃ n, ts = ⟨.closeParen, n⟩ :: r.rest ∧ r.value = []) ∨
    ∃ value : Reading Expr (Argument.label? ts).rest, ∃ n,
      Expr.read last (Argument.label? ts).rest = .ok value ∧
      ((value.rest = ⟨.closeParen, n⟩ :: r.rest ∧
          r.value = [⟨(Argument.label? ts).value, value.value⟩]) ∨
        ∃ rest, ∃ more : Reading (List Argument) rest, value.rest = ⟨.comma, n⟩ :: rest ∧
          Argument.readAll last rest = .ok more ∧ r.rest = more.rest ∧
          r.value = ⟨(Argument.label? ts).value, value.value⟩ :: more.value) := by
  rw [Argument.readAll.eq_def] at h
  split at h
  · cases h
    exact .inl ⟨_, rfl, rfl⟩
  · right
    split at h
    next label unlabelled hunlabelled hlabel =>
    rw [hlabel]
    split at h
    · cases h
    · next value hvalue =>
      refine ⟨value, ?_⟩
      split at h
      · next n rest heq =>
        split at h
        · cases h
        · next more hmore =>
          cases h
          exact ⟨n, hvalue, .inr ⟨rest, more, heq, hmore, rfl, rfl⟩⟩
      · next n rest heq =>
        cases h
        exact ⟨n, hvalue, .inl ⟨heq, rfl⟩⟩
      · exact absurd h Token.unexpected_ne_ok

/-- An attribute is read from its name and, in parentheses, its arguments. -/
theorem Attribute.cases_read {r : Reading Attribute ts} (h : Attribute.read last ts = .ok r) :
    ∃ name line,
      (ts = ⟨.name name, line⟩ :: r.rest ∧ NoParen r.rest ∧ r.value = ⟨name, [], line⟩) ∨
      ∃ n rest, ∃ args : Reading (List Argument) rest,
        ts = ⟨.name name, line⟩ :: ⟨.openParen, n⟩ :: rest ∧
        Argument.readAll last rest = .ok args ∧ r.rest = args.rest ∧
        r.value = ⟨name, args.value, line⟩ := by
  unfold Attribute.read at h
  split at h
  · next name line n rest =>
    split at h
    · cases h
    · next args hargs =>
      cases h
      exact ⟨name, line, .inr ⟨n, rest, args, rfl, hargs, rfl, rfl⟩⟩
  · next name line rest hnot =>
    cases h
    exact ⟨name, line, .inl ⟨rfl, Token.noParen_of_ne hnot, rfl⟩⟩
  · exact absurd h Token.unexpected_ne_ok

/-- The tokens of a label and those of a value spell the argument. -/
theorem Argument.spelled_label? (ts : List Token) : ∃ front, ts = front ++ (label? ts).rest ∧
    ∀ {value : Expr} {ks : List Kind}, value.Spelled ks →
      Argument.Spelled ⟨(label? ts).value, value⟩ (front.map (·.kind) ++ ks) := by
  unfold label?
  split
  · next label line line' rest =>
    exact ⟨[⟨.name label, line⟩, ⟨.colon, line'⟩], rfl, .labelled⟩
  · exact ⟨[], rfl, .positional⟩

end

/-! ### What is taken -/

mutual

/-- **The tokens that are taken for an expression spell it.** -/
theorem Expr.spelled_of_read {last : Nat} {ts : List Token} {r : Reading Expr ts}
    (h : Expr.read last ts = .ok r) :
    ∃ used, ts = used ++ r.rest ∧ r.value.Spelled (used.map (·.kind)) ∧
      r.value.StopsAt r.rest := by
  rw [Expr.read.eq_def] at h
  split at h
  · next value line rest =>
    cases h
    exact ⟨[⟨.text value, line⟩], rfl, .text value, nofun⟩
  · next lexeme line rest =>
    cases h
    exact ⟨[⟨.number lexeme, line⟩], rfl, .number lexeme, nofun⟩
  · next function line line' rest =>
    split at h
    · cases h
    · next args hargs =>
      cases h
      obtain ⟨used, n, hused, hlisted⟩ := Argument.listed_of_readAll hargs
      refine ⟨⟨.name function, line⟩ :: ⟨.openParen, line'⟩ :: (used ++ [⟨.closeParen, n⟩]),
        by simp [hused], ?_, nofun⟩
      simpa using Expr.Spelled.call hlisted
  · next ident line rest hnot =>
    cases h
    refine ⟨[⟨.name ident, line⟩], rfl, .name ident, fun _ _ => ?_⟩
    exact Token.noParen_of_ne hnot
  · next line rest =>
    split at h
    · cases h
    · next items hitems =>
      cases h
      obtain ⟨used, n, hused, hlisted⟩ := Expr.listed_of_readItems hitems
      refine ⟨⟨.openBracket, line⟩ :: (used ++ [⟨.closeBracket, n⟩]), by simp [hused], ?_, nofun⟩
      simpa using Expr.Spelled.array hlisted
  · exact absurd h Token.unexpected_ne_ok
termination_by 2 * ts.length

theorem Expr.listed_of_readItems {last : Nat} {ts : List Token} {r : Reading (List Expr) ts}
    (h : Expr.readItems last ts = .ok r) :
    ∃ used n, ts = used ++ ⟨.closeBracket, n⟩ :: r.rest ∧
      Kind.Listed Expr.Spelled r.value (used.map (·.kind)) := by
  rcases Expr.cases_readItems h with ⟨n, hts, hvalue⟩ | ⟨item, n, hitem, hcases⟩
  · rw [hvalue]
    exact ⟨[], n, hts, .nil⟩
  · obtain ⟨used, hused, hspelled, -⟩ := Expr.spelled_of_read hitem
    rcases hcases with ⟨hclose, hvalue⟩ | ⟨rest, more, hcomma, hmore, hrest, hvalue⟩
    · rw [hvalue]
      exact ⟨used, n, hclose ▸ hused, .one hspelled⟩
    · have hshorter : rest.length < ts.length := by
        have := item.shorter
        rw [hcomma, List.length_cons] at this
        omega
      obtain ⟨used', m, hused', hlisted⟩ := Expr.listed_of_readItems hmore
      rw [hvalue, hrest]
      refine ⟨used ++ ⟨.comma, n⟩ :: used', m, hused.trans (by simp [hcomma, hused']), ?_⟩
      rw [List.map_append]
      exact .cons hspelled hlisted
termination_by 2 * ts.length + 1

theorem Argument.listed_of_readAll {last : Nat} {ts : List Token} {r : Reading (List Argument) ts}
    (h : Argument.readAll last ts = .ok r) :
    ∃ used n, ts = used ++ ⟨.closeParen, n⟩ :: r.rest ∧
      Kind.Listed Argument.Spelled r.value (used.map (·.kind)) := by
  obtain ⟨front, hfront, hlabel⟩ := Argument.spelled_label? ts
  rcases Argument.cases_readAll h with ⟨n, hts, hvalue⟩ | ⟨value, n, hread, hcases⟩
  · rw [hvalue]
    exact ⟨[], n, hts, .nil⟩
  · have hshort := (Argument.label? ts).noLonger
    obtain ⟨used, hused, hspelled, -⟩ := Expr.spelled_of_read hread
    rcases hcases with ⟨hclose, hvalue⟩ | ⟨rest, more, hcomma, hmore, hrest, hvalue⟩
    · rw [hvalue]
      refine ⟨front ++ used, n, hfront.trans (by simp [hused, hclose]), ?_⟩
      rw [List.map_append]
      exact .one (hlabel hspelled)
    · have hshorter : rest.length < ts.length := by
        have := value.shorter
        rw [hcomma, List.length_cons] at this
        omega
      obtain ⟨used', m, hused', hlisted⟩ := Argument.listed_of_readAll hmore
      rw [hvalue, hrest]
      refine ⟨front ++ used ++ ⟨.comma, n⟩ :: used', m,
        hfront.trans (by simp [hused, hcomma, hused']), ?_⟩
      rw [List.map_append, List.map_append]
      exact .cons (hlabel hspelled) hlisted
termination_by 2 * ts.length + 1

end

/-! ### Reading and spelling -/

/-- Tokens spell one expression at most. -/
theorem Expr.Spelled.unique {e e' : Expr} {ks : List Kind} (h : e.Spelled ks)
    (h' : e'.Spelled ks) : e = e' := by
  have hts : (onLine 1 ks).map (·.kind) = ks := Token.map_kind_onLine 1 ks
  have hreads {x : Expr} (hx : x.Spelled ks) : Answers (Expr.read 1 (onLine 1 ks ++ [])) x [] :=
    Expr.read_spelled hx hts nofun
  obtain ⟨_, hread⟩ := hreads h
  obtain ⟨_, hread'⟩ := hreads h'
  exact congrArg (·.value) (Except.ok.inj (hread.symm.trans hread'))

/-- **The reader accepts the grammar.** An expression is read, with `rest` left, from those tokens
that spell it in front of `rest`, and its own tokens are among them. All that is asked of `rest` is
that a bare identifier does not go on with it. -/
theorem Expr.read_iff_spelled (e : Expr) (last : Nat) (rest : List Token) :
    (∀ ts, Answers (Expr.read last ts) e rest ↔
      ∃ used, ts = used ++ rest ∧ e.Spelled (used.map (·.kind)) ∧ e.StopsAt rest) ∧
    ∀ used, used.map (·.kind) = e.kinds → e.StopsAt rest →
      Answers (Expr.read last (used ++ rest)) e rest := by
  refine ⟨fun ts => ⟨?_, ?_⟩, fun used hused hstops => read_spelled e.spelled_kinds hused hstops⟩
  · rintro ⟨hlt, hread⟩
    exact spelled_of_read hread
  · rintro ⟨used, rfl, hspelled, hstops⟩
    exact read_spelled hspelled rfl hstops

/-- The call `f(x: [1, y,], "a")` with the comma behind `y` and without it, in front of an opening
parenthesis. -/
theorem Expr.read_iff_spelled_nested :
    ∃ e : Expr, ∃ rest : List Token, e.toText = "f(x: [1, y], \"a\")" ∧ e.StopsAt rest ∧
      rest.map (·.kind) = [.openParen] ∧
      Answers (Expr.read 1 (onLine 1 e.kinds ++ rest)) e rest ∧
      Answers (Expr.read 1 (onLine 1 [.name "f", .openParen, .name "x", .colon, .openBracket,
        .number "1", .comma, .name "y", .comma, .closeBracket, .comma, .text "a",
        .closeParen] ++ rest)) e rest := by
  let e : Expr := .call "f" [⟨some "x", .array [.number "1", .name "y"]⟩, ⟨none, .text "a"⟩]
  have hstops : e.StopsAt [⟨.openParen, 1⟩] := nofun
  have hspelled : e.Spelled [.name "f", .openParen, .name "x", .colon, .openBracket,
      .number "1", .comma, .name "y", .comma, .closeBracket, .comma, .text "a", .closeParen] :=
    .call (.plain (.cons (.labelled (.array (.trailing (.cons (.number "1")
      (.cons (.name "y") .nil))))) (.cons (.positional (.text "a")) .nil)))
  have hread := read_iff_spelled e 1 [⟨.openParen, 1⟩]
  refine ⟨e, [⟨.openParen, 1⟩], by decide +kernel, hstops, rfl, ?_, ?_⟩
  · exact hread.2 (onLine 1 e.kinds) (Token.map_kind_onLine 1 e.kinds) hstops
  · refine (hread.1 _).mpr ⟨_, rfl, ?_, hstops⟩
    rw [Token.map_kind_onLine]
    exact hspelled

/-- No comma in front of the first entry, and no two in a row. -/
example : [[.openBracket, .comma, .closeBracket],
    [.openBracket, .number "1", .comma, .comma, .closeBracket],
    [.openBracket, .number "1", .comma, .closeBracket]].map
      (fun ks => (Expr.read 1 (onLine 1 ks)).isOk) = [false, false, true] := by
  decide +kernel

end Datamodel
