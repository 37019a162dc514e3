import Datamodel.Proofs.Block.Accepted
import Datamodel.Proofs.Loading.Expressions
import Datamodel.Proofs.Schema.Blocks

/-! What the blocks of a text are like.

There is one lemma for each reader of the grammar: from tokens of the lexer it makes names,
documentation and values that are lexical. The loop over the items of a block keeps what its item
reader keeps (`Block.of_readBody`). -/

namespace Datamodel

open Token (IsDocLine IsName Lexed Passing Reading)

/-! ### Documentation -/

/-- Documentation lines that the lexer made. -/
def AreDocLines (docs : List String) : Prop := ∀ line ∈ docs, IsDocLine line

theorem areDocLines_nil : AreDocLines [] := nofun

theorem splitLines_intercalate {docs : List String} (hne : docs ≠ [])
    (h : ∀ line ∈ docs, '\n' ∉ line.toList) :
    Printer.splitLines ("\n".intercalate docs) = docs := by
  have hlines : ∀ line ∈ docs.map String.toList, '\n' ∉ line := List.forall_mem_map.mpr h
  have hsplit := List.splitOn_intercalate '\n' hlines (by simpa using hne)
  have htext : "\n".toList.intercalate (docs.map String.toList) =
      ['\n'].intercalate (docs.map String.toList) := rfl
  rw [Printer.splitLines, String.toList_intercalate, htext, hsplit, List.map_map]
  simp [Function.comp_def]

theorem isDocumentation_joinDocs {docs : List String} (h : AreDocLines docs) :
    IsDocumentation (joinDocs docs) := by
  intro text htext
  cases docs with
  | nil => cases htext
  | cons doc docs =>
    cases htext
    rw [splitLines_intercalate (List.cons_ne_nil _ _) fun line hline => (h line hline).1]
    exact fun line hline => (h line hline).2

theorem isDocumentation_line {line : String} (h : IsDocLine line) : IsDocumentation (some line) := by
  have hlines : AreDocLines [line] := List.forall_mem_singleton.mpr h
  exact isDocumentation_joinDocs hlines

theorem Block.of_trailingDoc {ts : List Token} (hts : Lexed ts) :
    IsDocumentation (Block.trailingDoc ts).value ∧ Lexed (Block.trailingDoc ts).rest := by
  unfold Block.trailingDoc
  split
  · obtain ⟨hdoc, hrest⟩ := Token.lexed_cons.mp hts
    exact ⟨isDocumentation_line hdoc, hrest⟩
  · exact ⟨nofun, hts⟩

/-! ### Bodies -/

namespace Block
variable {last : Nat} {ts : List Token}

theorem lexed_trailingComma (hts : Lexed ts) : Lexed (trailingComma ts).rest := by
  unfold trailingComma
  split
  · exact (Token.lexed_cons.mp hts).2
  · exact hts

theorem lexed_of_endsItem {rest : List Token} (hts : Lexed ts) (h : Token.EndsItem ts rest) :
    Lexed rest := by
  rcases h with ⟨n, rfl⟩ | ⟨rfl, -⟩
  · exact (Token.lexed_cons.mp hts).2
  · exact hts

theorem lexed_of_opening {name : String} {n n' : Nat} {rest : List Token} (hts : Lexed ts)
    (heq : ts = ⟨.name name, n⟩ :: ⟨.openBrace, n'⟩ :: rest) : IsName name ∧ Lexed rest := by
  subst heq
  simp only [Token.lexed_cons] at hts
  exact ⟨hts.1, hts.2.2⟩

/-- A reader of items that makes, from tokens of the lexer, items which fit `P`. -/
def Makes {α : Type} (item : ItemReader α) (P : α → Prop) : Prop :=
  ∀ last docs ts r, AreDocLines docs → Lexed ts → item last docs ts = .ok r →
    P r.value.1 ∧ AreDocLines r.value.2 ∧ Lexed r.rest

/-- **The items of a block** are as their reader makes them. -/
theorem of_readBody {α : Type} {item : ItemReader α} {P : α → Prop} (hitem : Makes item P)
    {name : String} {docs : List String} {r : Reading (List α) ts} (hdocs : AreDocLines docs)
    (hts : Lexed ts) (h : readBody last name (item last) docs ts = .ok r) :
    (∀ x ∈ r.value, P x) ∧ Lexed r.rest := by
  fun_induction readBody last name (item last) docs ts with
  | case1 => cases h
  | case2 =>
    cases h
    exact ⟨nofun, (Token.lexed_cons.mp hts).2⟩
  | case3 docs line rest ih =>
    obtain ⟨more, hmore, rfl⟩ := exists_of_map h
    exact ih hdocs (Token.lexed_cons.mp hts).2 hmore
  | case4 docs text line rest ih =>
    obtain ⟨more, hmore, rfl⟩ := exists_of_map h
    obtain ⟨hdoc, hrest⟩ := Token.lexed_cons.mp hts
    refine ih ?_ hrest hmore
    exact List.forall_mem_append.mpr ⟨hdocs, List.forall_mem_singleton.mpr hdoc⟩
  | case5 => cases h
  | case6 docs t rest _ _ _ first hfirst _ ih =>
    obtain ⟨more, hmore, rfl⟩ := exists_of_map h
    obtain ⟨hx, hdocs', hrest⟩ := hitem last docs _ first hdocs hts hfirst
    obtain ⟨hmore, hleft⟩ := ih hdocs' hrest hmore
    exact ⟨List.forall_mem_cons.mpr ⟨hx, hmore⟩, hleft⟩

end Block

/-! ### Models -/

/-- A field declaration whose texts the lexer made. -/
structure FieldDecl.Lexical (d : FieldDecl) : Prop where
  name : IsName d.name
  type : ∀ n, d.type = .named n → IsName n
  attributes : ∀ a ∈ d.attributes, a.Lexical
  documentation : IsDocumentation d.documentation

structure ModelBlock.Lexical (b : ModelBlock) : Prop where
  name : IsName b.name
  fields : ∀ d ∈ b.fields, d.Lexical
  attributes : ∀ a ∈ b.attributes, a.Lexical
  documentation : IsDocumentation b.documentation

section
variable {last : Nat} {docs : List String} {ts : List Token}

theorem TypeRef.isName_of_read {r : Reading TypeRef ts} (hts : Lexed ts)
    (h : TypeRef.read last ts = .ok r) : (∀ n, r.value = .named n → IsName n) ∧ Lexed r.rest := by
  rcases TypeRef.cases_read h with ⟨name, n, heq, hvalue⟩ | ⟨dbType, n, n', m, m', heq, hvalue⟩
  · rw [heq, Token.lexed_cons] at hts
    rw [hvalue]
    refine ⟨?_, hts.2⟩
    rintro _ ⟨⟩
    exact hts.1
  · rw [heq] at hts
    simp only [Token.lexed_cons] at hts
    rw [hvalue]
    refine ⟨?_, hts.2.2.2.2⟩
    rintro _ ⟨⟩

theorem Arity.lexed_read (hts : Lexed ts) : Lexed (Arity.read ts).rest := by
  unfold Arity.read
  split
  · exact (Token.lexed_cons.mp hts).2
  · simp only [Token.lexed_cons] at hts
    exact hts.2.2
  · exact hts

theorem FieldDecl.lexical_of_read {r : Reading FieldDecl ts} (hdocs : AreDocLines docs)
    (hts : Lexed ts) (h : FieldDecl.read last docs ts = .ok r) :
    r.value.Lexical ∧ Lexed r.rest := by
  obtain ⟨name, line, rest, type, attributes, heq, htype, hattributes, hends, hvalue⟩ :=
    FieldDecl.cases_read h
  rw [heq, Token.lexed_cons] at hts
  obtain ⟨hname, hrest⟩ := hts
  obtain ⟨htype, hrest⟩ := TypeRef.isName_of_read hrest htype
  obtain ⟨hattributes, hrest⟩ := Attribute.lexical_of_readAll (Arity.lexed_read hrest) hattributes
  obtain ⟨htrailing, hrest⟩ := Block.of_trailingDoc hrest
  rw [hvalue]
  refine ⟨⟨hname, htype, hattributes, ?_⟩, Block.lexed_of_endsItem hrest hends⟩
  intro text htext
  rcases Option.or_eq_some_iff.mp htext with hjoined | ⟨-, hline⟩
  · exact isDocumentation_joinDocs hdocs text hjoined
  · exact htrailing text hline

theorem Attribute.lexical_of_readLine {r : Reading Attribute ts} (hts : Lexed ts)
    (h : Attribute.readLine last ts = .ok r) : r.value.Lexical ∧ Lexed r.rest := by
  obtain ⟨attr, hattr, hends, hvalue⟩ := Attribute.cases_readLine h
  obtain ⟨hlexical, hrest⟩ := Attribute.lexical_of_read hts hattr
  rw [hvalue]
  exact ⟨hlexical, Block.lexed_of_endsItem hrest hends⟩

/-- An item of a model whose texts the lexer made. -/
def ModelItem.Lexical : ModelItem → Prop
  | field d => d.Lexical
  | attr a => a.Lexical

theorem ModelItem.makes_read : Block.Makes ModelItem.read ModelItem.Lexical := by
  intro last docs ts r hdocs hts h
  rcases ModelItem.cases_read h with ⟨n, rest, a, heq, ha, hrest, hvalue⟩ | ⟨f, hf, hrest, hvalue⟩
  · rw [heq, Token.lexed_cons] at hts
    obtain ⟨hlexical, hleft⟩ := Attribute.lexical_of_readLine hts.2 ha
    rw [hvalue, hrest]
    exact ⟨hlexical, hdocs, hleft⟩
  · obtain ⟨hlexical, hleft⟩ := FieldDecl.lexical_of_read hdocs hts hf
    rw [hvalue, hrest]
    exact ⟨hlexical, areDocLines_nil, hleft⟩

theorem ModelItem.Lexical.field {item : ModelItem} (h : item.Lexical) {d : FieldDecl}
    (hd : item.field? = some d) : d.Lexical := by
  cases item <;> cases hd
  exact h

theorem ModelItem.Lexical.attr {item : ModelItem} (h : item.Lexical) {a : Attribute}
    (ha : item.attr? = some a) : a.Lexical := by
  cases item <;> cases ha
  exact h

theorem ModelBlock.lexical_of_read {isView : Bool} {line : Nat} {r : Reading ModelBlock ts}
    (hdocs : AreDocLines docs) (hts : Lexed ts)
    (h : ModelBlock.read last isView docs line ts = .ok r) : r.value.Lexical ∧ Lexed r.rest := by
  obtain ⟨name, n, n', rest, body, heq, hbody, hrest, hvalue⟩ := ModelBlock.cases_read h
  obtain ⟨hname, hts⟩ := Block.lexed_of_opening hts heq
  obtain ⟨hitems, hleft⟩ := Block.of_readBody ModelItem.makes_read areDocLines_nil hts hbody
  rw [hvalue, hrest]
  refine ⟨⟨hname, fun d hd => ?_, fun a ha => ?_, isDocumentation_joinDocs hdocs⟩, hleft⟩
  · obtain ⟨item, hitem, hfield⟩ := List.mem_filterMap.mp hd
    exact (hitems item hitem).field hfield
  · obtain ⟨item, hitem, hattr⟩ := List.mem_filterMap.mp ha
    exact (hitems item hitem).attr hattr

/-! ### Enums -/

/-- An enum value whose texts the lexer made. -/
structure EnumValueDecl.Lexical (v : EnumValueDecl) : Prop where
  name : IsName v.name
  attributes : ∀ a ∈ v.attributes, a.Lexical

structure EnumBlock.Lexical (b : EnumBlock) : Prop where
  name : IsName b.name
  values : ∀ v ∈ b.values, v.Lexical
  attributes : ∀ a ∈ b.attributes, a.Lexical
  documentation : IsDocumentation b.documentation

theorem EnumValueDecl.lexical_of_read {name : String} {line : Nat} {r : Passing EnumValueDecl ts}
    (hname : IsName name) (hts : Lexed ts) (h : EnumValueDecl.read last name line ts = .ok r) :
    r.value.Lexical ∧ Lexed r.rest := by
  obtain ⟨attributes, hattributes, hends, hvalue⟩ := EnumValueDecl.cases_read h
  obtain ⟨hattributes, hrest⟩ := Attribute.lexical_of_readAll hts hattributes
  have hrest := (Block.of_trailingDoc (Block.lexed_trailingComma hrest)).2
  rw [hvalue]
  exact ⟨⟨hname, hattributes⟩, Block.lexed_of_endsItem hrest hends⟩

/-- An item of an enum whose texts the lexer made. -/
def EnumItem.Lexical : EnumItem → Prop
  | value v => v.Lexical
  | attr a => a.Lexical

theorem EnumItem.makes_read : Block.Makes EnumItem.read EnumItem.Lexical := by
  intro last docs ts r hdocs hts h
  rcases EnumItem.cases_read h with
    ⟨n, rest, a, heq, ha, hrest, hvalue⟩ | ⟨name, line, rest, v, heq, hv, hrest, hvalue⟩
  · rw [heq, Token.lexed_cons] at hts
    obtain ⟨hlexical, hleft⟩ := Attribute.lexical_of_readLine hts.2 ha
    rw [hvalue, hrest]
    exact ⟨hlexical, hdocs, hleft⟩
  · rw [heq, Token.lexed_cons] at hts
    obtain ⟨hlexical, hleft⟩ := EnumValueDecl.lexical_of_read hts.1 hts.2 hv
    rw [hvalue, hrest]
    exact ⟨hlexical, hdocs, hleft⟩

theorem EnumItem.Lexical.value {item : EnumItem} (h : item.Lexical) {v : EnumValueDecl}
    (hv : item.value? = some v) : v.Lexical := by
  cases item <;> cases hv
  exact h

theorem EnumItem.Lexical.attr {item : EnumItem} (h : item.Lexical) {a : Attribute}
    (ha : item.attr? = some a) : a.Lexical := by
  cases item <;> cases ha
  exact h

theorem EnumBlock.lexical_of_read {line : Nat} {r : Reading EnumBlock ts}
    (hdocs : AreDocLines docs) (hts : Lexed ts) (h : EnumBlock.read last docs line ts = .ok r) :
    r.value.Lexical ∧ Lexed r.rest := by
  obtain ⟨name, n, n', rest, body, heq, hbody, hrest, hvalue⟩ := EnumBlock.cases_read h
  obtain ⟨hname, hts⟩ := Block.lexed_of_opening hts heq
  obtain ⟨hitems, hleft⟩ := Block.of_readBody EnumItem.makes_read areDocLines_nil hts hbody
  rw [hvalue, hrest]
  refine ⟨⟨hname, fun v hv => ?_, fun a ha => ?_, isDocumentation_joinDocs hdocs⟩, hleft⟩
  · obtain ⟨item, hitem, hvalue⟩ := List.mem_filterMap.mp hv
    exact (hitems item hitem).value hvalue
  · obtain ⟨item, hitem, hattr⟩ := List.mem_filterMap.mp ha
    exact (hitems item hitem).attr hattr

/-! ### Data sources and generators -/

structure ConfigBlock.Lexical (b : ConfigBlock) : Prop where
  name : IsName b.name
  properties : ∀ p ∈ b.properties, IsName p.key ∧ p.value.Lexical

theorem Property.makes_read :
    Block.Makes Property.read fun p => IsName p.key ∧ p.value.Lexical := by
  intro last docs ts r hdocs hts h
  obtain ⟨key, line, n, rest, value, heq, hread, hends, hvalue⟩ := Property.cases_read h
  rw [heq] at hts
  simp only [Token.lexed_cons] at hts
  obtain ⟨hlexical, hleft⟩ := Expr.lexical_of_read hts.2.2 hread
  rw [hvalue]
  exact ⟨⟨hts.1, hlexical⟩, hdocs, Block.lexed_of_endsItem hleft hends⟩

theorem ConfigBlock.lexical_of_read {line : Nat} {r : Reading ConfigBlock ts} (hts : Lexed ts)
    (h : ConfigBlock.read last line ts = .ok r) : r.value.Lexical ∧ Lexed r.rest := by
  obtain ⟨name, n, n', rest, body, heq, hbody, hrest, hvalue⟩ := ConfigBlock.cases_read h
  obtain ⟨hname, hts⟩ := Block.lexed_of_opening hts heq
  obtain ⟨hitems, hleft⟩ := Block.of_readBody Property.makes_read areDocLines_nil hts hbody
  rw [hvalue, hrest]
  exact ⟨⟨hname, hitems⟩, hleft⟩

end

/-! ### The whole text -/

namespace Block

/-- A block whose texts the lexer made. -/
def Lexical : Block → Prop
  | model b => b.Lexical
  | enum b => b.Lexical
  | datasource b => b.Lexical
  | generator b => b.Lexical

section
variable {last : Nat} {docs : List String} {ts : List Token}

theorem lexical_of_read {keyword : String} {line : Nat} {r : Reading Block ts}
    (hdocs : AreDocLines docs) (hts : Lexed ts) (h : read last keyword docs line ts = .ok r) :
    r.value.Lexical ∧ Lexed r.rest := by
  rcases cases_read h with ⟨isView, b, hb, hrest, hvalue⟩ | ⟨b, hb, hrest, -, hvalue⟩ |
    ⟨b, hb, hrest, ⟨-, hvalue⟩ | ⟨-, hvalue⟩⟩ <;> rw [hvalue, hrest]
  · exact ModelBlock.lexical_of_read hdocs hts hb
  · exact EnumBlock.lexical_of_read hdocs hts hb
  · exact ConfigBlock.lexical_of_read hts hb
  · exact ConfigBlock.lexical_of_read hts hb

theorem lexical_of_readAll {blocks : List Block} (hdocs : AreDocLines docs) (hts : Lexed ts)
    (h : readAll last docs ts = .ok blocks) : ∀ b ∈ blocks, b.Lexical := by
  fun_induction readAll last docs ts generalizing blocks with
  | case1 =>
    cases h
    exact nofun
  | case2 docs line rest ih => exact ih hdocs (Token.lexed_cons.mp hts).2 h
  | case3 docs text line rest ih =>
    obtain ⟨hdoc, hrest⟩ := Token.lexed_cons.mp hts
    refine ih ?_ hrest h
    exact List.forall_mem_append.mpr ⟨hdocs, List.forall_mem_singleton.mpr hdoc⟩
  | case4 => cases h
  | case5 docs keyword line rest block hblock _ ih =>
    obtain ⟨more, hmore, rfl⟩ := exists_of_map h
    obtain ⟨hlexical, hrest⟩ := lexical_of_read hdocs (Token.lexed_cons.mp hts).2 hblock
    exact List.forall_mem_cons.mpr ⟨hlexical, ih areDocLines_nil hrest hmore⟩
  | case6 => exact absurd h Token.unexpected_ne_ok

/-- **The blocks of a text** are made of texts of the lexer. -/
theorem lexical_of_ofText {source : String} {blocks : List Block}
    (h : ofText source = .ok blocks) : ∀ b ∈ blocks, b.Lexical := by
  obtain ⟨ts, hts, h⟩ := exists_of_bind h
  exact lexical_of_readAll areDocLines_nil (Token.lexed_of_tokenize hts) h

end

end Block

end Datamodel
