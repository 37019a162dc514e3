import Datamodel.Block.Grammar
import Datamodel.Proofs.Except
import Datamodel.Proofs.Expr.Accepted

/-! What the readers of blocks accept.

There is one lemma for each reader. From a result it gives the tokens that the reader took itself,
the results of the readers that it called, and what was put together from them. What a text is like
and which tokens belong to what is then shown of these parts. -/

namespace Datamodel

open Token (EndsItem Passing Reading endsItem_of_endOfItem eq_cons_of_expect eq_cons_of_ident)

section
variable {last : Nat} {docs : List String} {ts : List Token}

theorem Block.eq_of_readOpening {what : String} {r : Reading String ts}
    (h : readOpening last what ts = .ok r) :
    ∃ n n', ts = ⟨.name r.value, n⟩ :: ⟨.openBrace, n'⟩ :: r.rest := by
  obtain ⟨name, hname, h⟩ := exists_of_bind h
  obtain ⟨brace, hbrace, h⟩ := exists_of_bind h
  cases h
  obtain ⟨n, hname⟩ := eq_cons_of_ident hname
  obtain ⟨n', hbrace⟩ := eq_cons_of_expect hbrace
  exact ⟨n, n', hname.trans (congrArg _ hbrace)⟩

/-! ### Models -/

theorem TypeRef.cases_read {r : Reading TypeRef ts} (h : TypeRef.read last ts = .ok r) :
    (∃ name n, ts = ⟨.name name, n⟩ :: r.rest ∧ r.value = .named name) ∨
    ∃ dbType n n' m m', ts = ⟨.name "Unsupported", n⟩ :: ⟨.openParen, n'⟩ :: ⟨.text dbType, m⟩ ::
      ⟨.closeParen, m'⟩ :: r.rest ∧ r.value = .unsupported dbType := by
  unfold TypeRef.read at h
  split at h
  · obtain ⟨close, hclose, h⟩ := exists_of_bind h
    cases h
    obtain ⟨m', hclose⟩ := eq_cons_of_expect hclose
    exact .inr ⟨_, _, _, _, m', congrArg (_ :: _ :: _ :: ·) hclose, rfl⟩
  · cases h
  · cases h
    exact .inl ⟨_, _, rfl, rfl⟩
  · exact absurd h Token.unexpected_ne_ok

/-- A field is read from its name, its type and its attributes, up to the end of its line. -/
theorem FieldDecl.cases_read {r : Reading FieldDecl ts} (h : FieldDecl.read last docs ts = .ok r) :
    ∃ name line rest, ∃ type : Reading TypeRef rest,
      ∃ attributes : Passing (List Attribute) (Arity.read type.rest).rest,
      ts = ⟨.name name, line⟩ :: rest ∧ TypeRef.read last rest = .ok type ∧
      Attribute.readAll last (Arity.read type.rest).rest = .ok attributes ∧
      EndsItem (Block.trailingDoc attributes.rest).rest r.rest ∧
      r.value = ⟨name, type.value, (Arity.read type.rest).value, attributes.value,
        (joinDocs docs).or (Block.trailingDoc attributes.rest).value, line⟩ := by
  obtain ⟨name, hname, h⟩ := exists_of_bind h
  obtain ⟨type, htype, h⟩ := exists_of_bind h
  obtain ⟨attributes, hattributes, h⟩ := exists_of_bind h
  obtain ⟨ending, hending, h⟩ := exists_of_bind h
  cases h
  obtain ⟨line, hname⟩ := eq_cons_of_ident hname
  have hline : Token.lineAt last ts = line := congrArg (Token.lineAt last) hname
  refine ⟨name.value, line, name.rest, type, attributes, hname, htype, hattributes,
    endsItem_of_endOfItem hending, ?_⟩
  rw [← hline]

theorem Attribute.cases_readLine {r : Reading Attribute ts}
    (h : Attribute.readLine last ts = .ok r) : ∃ a : Reading Attribute ts,
      Attribute.read last ts = .ok a ∧ EndsItem a.rest r.rest ∧ r.value = a.value := by
  obtain ⟨attr, hattr, h⟩ := exists_of_bind h
  obtain ⟨ending, hending, h⟩ := exists_of_bind h
  cases h
  exact ⟨attr, hattr, endsItem_of_endOfItem hending, rfl⟩

theorem ModelItem.cases_read {r : Reading (ModelItem × List String) ts}
    (h : ModelItem.read last docs ts = .ok r) :
    (∃ n rest, ∃ a : Reading Attribute rest, ts = ⟨.blockMarker, n⟩ :: rest ∧
      Attribute.readLine last rest = .ok a ∧ r.rest = a.rest ∧
      r.value = (.attr a.value, docs)) ∨
    ∃ f, FieldDecl.read last docs ts = .ok f ∧ r.rest = f.rest ∧
      r.value = (.field f.value, []) := by
  unfold ModelItem.read at h
  split at h
  · obtain ⟨a, ha, h⟩ := exists_of_bind h
    cases h
    exact .inl ⟨_, _, a, rfl, ha, rfl, rfl⟩
  · obtain ⟨f, hf, h⟩ := exists_of_bind h
    cases h
    exact .inr ⟨f, hf, rfl, rfl⟩
  · exact absurd h Token.unexpected_ne_ok

theorem ModelBlock.cases_read {isView : Bool} {line : Nat} {r : Reading ModelBlock ts}
    (h : ModelBlock.read last isView docs line ts = .ok r) :
    ∃ name n n' rest, ∃ body : Reading (List ModelItem) rest,
      ts = ⟨.name name, n⟩ :: ⟨.openBrace, n'⟩ :: rest ∧
      Block.readBody last name (ModelItem.read last) [] rest = .ok body ∧ r.rest = body.rest ∧
      r.value = ⟨name, isView, body.value.filterMap ModelItem.field?,
        body.value.filterMap ModelItem.attr?, joinDocs docs, line⟩ := by
  obtain ⟨name, hname, h⟩ := exists_of_bind h
  obtain ⟨body, hbody, h⟩ := exists_of_bind h
  cases h
  obtain ⟨n, n', hts⟩ := Block.eq_of_readOpening hname
  exact ⟨name.value, n, n', name.rest, body, hts, hbody, rfl, rfl⟩

/-! ### Enums -/

theorem EnumValueDecl.cases_read {name : String} {line : Nat} {r : Passing EnumValueDecl ts}
    (h : EnumValueDecl.read last name line ts = .ok r) :
    ∃ attributes : Passing (List Attribute) ts, Attribute.readAll last ts = .ok attributes ∧
      EndsItem (Block.trailingDoc (Block.trailingComma attributes.rest).rest).rest r.rest ∧
      r.value = ⟨name, attributes.value, line⟩ := by
  obtain ⟨attributes, hattributes, h⟩ := exists_of_bind h
  obtain ⟨ending, hending, h⟩ := exists_of_bind h
  cases h
  exact ⟨attributes, hattributes, endsItem_of_endOfItem hending, rfl⟩

theorem EnumItem.cases_read {r : Reading (EnumItem × List String) ts}
    (h : EnumItem.read last docs ts = .ok r) :
    (∃ n rest, ∃ a : Reading Attribute rest, ts = ⟨.blockMarker, n⟩ :: rest ∧
      Attribute.readLine last rest = .ok a ∧ r.rest = a.rest ∧
      r.value = (.attr a.value, docs)) ∨
    ∃ name line rest, ∃ v : Passing EnumValueDecl rest, ts = ⟨.name name, line⟩ :: rest ∧
      EnumValueDecl.read last name line rest = .ok v ∧ r.rest = v.rest ∧
      r.value = (.value v.value, docs) := by
  unfold EnumItem.read at h
  split at h
  · obtain ⟨a, ha, h⟩ := exists_of_bind h
    cases h
    exact .inl ⟨_, _, a, rfl, ha, rfl, rfl⟩
  · obtain ⟨v, hv, h⟩ := exists_of_bind h
    cases h
    exact .inr ⟨_, _, _, v, rfl, hv, rfl, rfl⟩
  · exact absurd h Token.unexpected_ne_ok

theorem EnumBlock.cases_read {line : Nat} {r : Reading EnumBlock ts}
    (h : EnumBlock.read last docs line ts = .ok r) :
    ∃ name n n' rest, ∃ body : Reading (List EnumItem) rest,
      ts = ⟨.name name, n⟩ :: ⟨.openBrace, n'⟩ :: rest ∧
      Block.readBody last name (EnumItem.read last) [] rest = .ok body ∧ r.rest = body.rest ∧
      r.value = ⟨name, body.value.filterMap EnumItem.value?,
        body.value.filterMap EnumItem.attr?, joinDocs docs, line⟩ := by
  obtain ⟨name, hname, h⟩ := exists_of_bind h
  obtain ⟨body, hbody, h⟩ := exists_of_bind h
  cases h
  obtain ⟨n, n', hts⟩ := Block.eq_of_readOpening hname
  exact ⟨name.value, n, n', name.rest, body, hts, hbody, rfl, rfl⟩

/-! ### Data sources and generators -/

theorem Property.cases_read {r : Reading (Property × List String) ts}
    (h : Property.read last docs ts = .ok r) :
    ∃ key line n rest, ∃ value : Reading Expr rest,
      ts = ⟨.name key, line⟩ :: ⟨.equals, n⟩ :: rest ∧ Expr.read last rest = .ok value ∧
      EndsItem value.rest r.rest ∧ r.value = (⟨key, value.value, line⟩, docs) := by
  unfold Property.read at h
  split at h
  · obtain ⟨equals, hequals, h⟩ := exists_of_bind h
    obtain ⟨value, hvalue, h⟩ := exists_of_bind h
    obtain ⟨ending, hending, h⟩ := exists_of_bind h
    cases h
    obtain ⟨n, hequals⟩ := eq_cons_of_expect hequals
    exact ⟨_, _, n, equals.rest, value, congrArg _ hequals, hvalue, endsItem_of_endOfItem hending,
      rfl⟩
  · exact absurd h Token.unexpected_ne_ok

theorem ConfigBlock.cases_read {line : Nat} {r : Reading ConfigBlock ts}
    (h : ConfigBlock.read last line ts = .ok r) :
    ∃ name n n' rest, ∃ body : Reading (List Property) rest,
      ts = ⟨.name name, n⟩ :: ⟨.openBrace, n'⟩ :: rest ∧
      Block.readBody last name (Property.read last) [] rest = .ok body ∧ r.rest = body.rest ∧
      r.value = ⟨name, body.value, line⟩ := by
  obtain ⟨name, hname, h⟩ := exists_of_bind h
  obtain ⟨body, hbody, h⟩ := exists_of_bind h
  cases h
  obtain ⟨n, n', hts⟩ := Block.eq_of_readOpening hname
  exact ⟨name.value, n, n', name.rest, body, hts, hbody, rfl, rfl⟩

/-! ### Blocks -/

/-- A block is read by the reader of its keyword. -/
theorem Block.cases_read {keyword : String} {line : Nat} {r : Reading Block ts}
    (h : Block.read last keyword docs line ts = .ok r) :
    (∃ isView, ∃ b : Reading ModelBlock ts, ModelBlock.read last isView docs line ts = .ok b ∧
      r.rest = b.rest ∧ r.value = .model b.value) ∨
    (∃ b : Reading EnumBlock ts, EnumBlock.read last docs line ts = .ok b ∧ r.rest = b.rest ∧
      keyword = "enum" ∧ r.value = .enum b.value) ∨
    ∃ b : Reading ConfigBlock ts, ConfigBlock.read last line ts = .ok b ∧ r.rest = b.rest ∧
      (keyword = "datasource" ∧ r.value = .datasource b.value ∨
        keyword = "generator" ∧ r.value = .generator b.value) := by
  unfold Block.read at h
  split at h
  · obtain ⟨b, hb, h⟩ := exists_of_bind h
    cases h
    exact .inl ⟨false, b, hb, rfl, rfl⟩
  · obtain ⟨b, hb, h⟩ := exists_of_bind h
    cases h
    exact .inl ⟨true, b, hb, rfl, rfl⟩
  · obtain ⟨b, hb, h⟩ := exists_of_bind h
    cases h
    exact .inr (.inl ⟨b, hb, rfl, rfl, rfl⟩)
  · obtain ⟨b, hb, h⟩ := exists_of_bind h
    cases h
    exact .inr (.inr ⟨b, hb, rfl, .inl ⟨rfl, rfl⟩⟩)
  · obtain ⟨b, hb, h⟩ := exists_of_bind h
    cases h
    exact .inr (.inr ⟨b, hb, rfl, .inr ⟨rfl, rfl⟩⟩)
  · cases h

end

end Datamodel
