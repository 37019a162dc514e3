import Datamodel.Proofs.Loading.Taken

/-! Where the blocks of a text stand among its tokens.

Between blocks there are only line breaks and documentation, and braces stand only behind the
header and at the end of a block (`BlocksIn`). So each block is found by its header
(`BlocksIn.exists_field`), and each header belongs to a block (`BlocksIn.exists_header`). -/

namespace Datamodel

open Token (Balanced Kind Leads Reading Took)

/-- The declaration `f` is read at some place in the body `ts` of a block. -/
def FieldDecl.StandsIn (last : Nat) (ts : List Token) (f : FieldDecl) : Prop :=
  ∃ before docs ts' r, ts = before ++ ts' ∧ Leads before ∧
    FieldDecl.read last docs ts' = .ok r ∧ r.value = f

/-- The items of the model are read from its body. -/
def ModelBlock.ReadFrom (last : Nat) (body : List Token) (b : ModelBlock) : Prop :=
  ∃ r, Block.readBody last b.name (ModelItem.read last) [] body = .ok r ∧
    b.fields = r.value.filterMap ModelItem.field? ∧
    b.attributes = r.value.filterMap ModelItem.attr?

/-- What is known of a block from its keyword, its name, its line and its body. -/
def Block.HasHeader (last : Nat) (keyword name : String) (line : Nat) (body : List Token) :
    Block → Prop
  | .model b => b.name = name ∧ b.line = line ∧ b.ReadFrom last body
  | _ => keyword ≠ "model" ∧ keyword ≠ "view"

/-- The tokens of a text and its blocks. -/
inductive BlocksIn (last : Nat) : List Token → List Block → Prop where
  | nil : BlocksIn last [] []
  | newline {n : Nat} {ts : List Token} {bs : List Block} (more : BlocksIn last ts bs) :
    BlocksIn last (⟨.newline, n⟩ :: ts) bs
  | doc {text : String} {n : Nat} {ts : List Token} {bs : List Block}
    (more : BlocksIn last ts bs) : BlocksIn last (⟨.doc text, n⟩ :: ts) bs
  | block {keyword name : String} {line n n' stop : Nat} {body rest : List Token} {b : Block}
    {bs : List Block} (header : b.HasHeader last keyword name line body)
    (took : Took Kind.isBody body (⟨.closeBrace, stop⟩ :: rest)) (more : BlocksIn last rest bs) :
    BlocksIn last (⟨.name keyword, line⟩ :: ⟨.name name, n⟩ :: ⟨.openBrace, n'⟩ :: body) (b :: bs)

section
variable {last : Nat} {docs : List String} {ts : List Token}

/-! ### Headers -/

/-- A block from behind its keyword, up to its closing brace. -/
def Token.TookBlock (ts rest : List Token) (name : String) (body : List Token) : Prop :=
  (∃ n n', ts = ⟨.name name, n⟩ :: ⟨.openBrace, n'⟩ :: body) ∧
    ∃ stop, Took Kind.isBody body (⟨.closeBrace, stop⟩ :: rest)

open Token (TookBlock)

theorem FieldDecl.standsIn_of_standsIn {f : FieldDecl}
    (h : Block.StandsIn ModelItem.read last ts (.field f)) : f.StandsIn last ts := by
  obtain ⟨before, docs, ts', r, hts, hbefore, hread, hf⟩ := h
  rcases ModelItem.cases_read hread with ⟨n, rest, a, -, -, -, hvalue⟩ | ⟨decl, hdecl, -, hvalue⟩
  · rw [hvalue] at hf
    cases hf
  · rw [hvalue] at hf
    cases hf
    exact ⟨before, docs, ts', decl, hts, hbefore, hdecl, rfl⟩

theorem ModelBlock.ReadFrom.standsIn {body : List Token} {b : ModelBlock} {f : FieldDecl}
    (h : b.ReadFrom last body) (hf : f ∈ b.fields) : f.StandsIn last body := by
  obtain ⟨r, hr, hfields, -⟩ := h
  rw [hfields] at hf
  obtain ⟨item, hitem, hfield⟩ := List.mem_filterMap.mp hf
  cases item with
  | field decl =>
    cases hfield
    exact FieldDecl.standsIn_of_standsIn
      ((Block.standsIn_of_readBody ModelItem.takes_read hr).2 _ hitem)
  | attr a => cases hfield

theorem ModelBlock.tookBlock_of_read {isView : Bool} {line : Nat} {r : Reading ModelBlock ts}
    (h : ModelBlock.read last isView docs line ts = .ok r) : ∃ body,
      TookBlock ts r.rest r.value.name body ∧ r.value.line = line ∧
        r.value.ReadFrom last body := by
  obtain ⟨name, n, n', rest, body, heq, hbody, hrest, hvalue⟩ := ModelBlock.cases_read h
  have htook := (Block.standsIn_of_readBody ModelItem.takes_read hbody).1
  rw [hvalue, hrest]
  exact ⟨rest, ⟨⟨n, n', heq⟩, htook⟩, rfl, body, hbody, rfl, rfl⟩

theorem EnumBlock.tookBlock_of_read {line : Nat} {r : Reading EnumBlock ts}
    (h : EnumBlock.read last docs line ts = .ok r) :
    ∃ name body, TookBlock ts r.rest name body := by
  obtain ⟨name, n, n', rest, body, heq, hbody, hrest, -⟩ := EnumBlock.cases_read h
  have htook := (Block.standsIn_of_readBody EnumItem.takes_read hbody).1
  rw [hrest]
  exact ⟨name, rest, ⟨n, n', heq⟩, htook⟩

theorem ConfigBlock.tookBlock_of_read {line : Nat} {r : Reading ConfigBlock ts}
    (h : ConfigBlock.read last line ts = .ok r) :
    ∃ name body, TookBlock ts r.rest name body := by
  obtain ⟨name, n, n', rest, body, heq, hbody, hrest, -⟩ := ConfigBlock.cases_read h
  have htook := (Block.standsIn_of_readBody Property.takes_read hbody).1
  rw [hrest]
  exact ⟨name, rest, ⟨n, n', heq⟩, htook⟩

theorem Block.tookBlock_of_read {keyword : String} {line : Nat} {r : Reading Block ts}
    (h : read last keyword docs line ts = .ok r) : ∃ name body,
      TookBlock ts r.rest name body ∧ r.value.HasHeader last keyword name line body := by
  rcases cases_read h with ⟨isView, b, hb, hrest, hvalue⟩ | ⟨b, hb, hrest, rfl, hvalue⟩ |
    ⟨b, hb, hrest, ⟨rfl, hvalue⟩ | ⟨rfl, hvalue⟩⟩ <;> rw [hvalue, hrest]
  · obtain ⟨body, htook, hline, hbody⟩ := ModelBlock.tookBlock_of_read hb
    exact ⟨_, body, htook, rfl, hline, hbody⟩
  · obtain ⟨name, body, htook⟩ := EnumBlock.tookBlock_of_read hb
    exact ⟨name, body, htook, show _ ≠ _ ∧ _ ≠ _ by decide⟩
  · obtain ⟨name, body, htook⟩ := ConfigBlock.tookBlock_of_read hb
    exact ⟨name, body, htook, show _ ≠ _ ∧ _ ≠ _ by decide⟩
  · obtain ⟨name, body, htook⟩ := ConfigBlock.tookBlock_of_read hb
    exact ⟨name, body, htook, show _ ≠ _ ∧ _ ≠ _ by decide⟩

/-- **The tokens of a text** are those of its blocks. -/
theorem blocksIn_of_readAll {blocks : List Block} (h : Block.readAll last docs ts = .ok blocks) :
    BlocksIn last ts blocks := by
  fun_induction Block.readAll last docs ts generalizing blocks with
  | case1 =>
    cases h
    exact .nil
  | case2 docs line rest ih => exact .newline (ih h)
  | case3 docs text line rest ih => exact .doc (ih h)
  | case4 => cases h
  | case5 docs keyword line rest block hblock _ ih =>
    obtain ⟨more, hmore, rfl⟩ := exists_of_map h
    obtain ⟨name, body, ⟨⟨n, n', hrest⟩, stop, htook⟩, hheader⟩ := Block.tookBlock_of_read hblock
    have hmore : BlocksIn last block.rest more := ih hmore
    generalize block.value = b at hheader
    generalize block.rest = left at htook hmore
    rw [hrest]
    exact .block hheader htook hmore
  | case6 => exact absurd h Token.unexpected_ne_ok

/-! ### Blocks and headers -/

namespace BlocksIn
variable {bs : List Block}

/-- A header that stands behind the start of a block's body stands behind that block. -/
theorem exists_header_of_took {body rest before post : List Token} {keyword name : String}
    {line n n' stop : Nat} (htook : Took Kind.isBody body (⟨.closeBrace, stop⟩ :: rest))
    (hbody : body =
      before ++ ⟨.name keyword, line⟩ :: ⟨.name name, n⟩ :: ⟨.openBrace, n'⟩ :: post) :
    ∃ c, rest = c ++ ⟨.name keyword, line⟩ :: ⟨.name name, n⟩ :: ⟨.openBrace, n'⟩ :: post ∧
      (Balanced (c.map (·.kind)) → Balanced (before.map (·.kind))) := by
  obtain ⟨used, rfl, hbalanced, hused⟩ := htook
  rcases exists_of_append_eq_append_cons hbody.symm with ⟨c, rfl, hrest⟩ | ⟨c, rfl, hc⟩
  · refine ⟨c, hrest, fun hc => ?_⟩
    rw [List.map_append]
    exact hbalanced.append (hc.cons fun _ => rfl)
  · -- The brace of the header would stand in the body, or be the closing one.
    match c, hc with
    | [], hc => cases hc
    | [_], hc => cases hc
    | [_, _], hc => cases hc
    | t :: t' :: t'' :: c, hc =>
      simp only [List.cons_append, List.cons.injEq] at hc
      obtain ⟨-, -, rfl, -⟩ := hc
      exact absurd (hused ⟨.openBrace, n'⟩ (by simp)) nofun

theorem head?_ne_closeBrace (h : BlocksIn last ts bs) : ∀ t ∈ ts.head?, t.kind ≠ .closeBrace := by
  cases h with
  | nil => exact nofun
  | newline | doc | block =>
    rintro _ ⟨⟩
    exact nofun

/-- A field declaration stands in the body behind the header of its model. -/
theorem exists_field (h : BlocksIn last ts bs) {b : ModelBlock} {f : FieldDecl}
    (hb : .model b ∈ bs) (hf : f ∈ b.fields) : ∃ before keyword n n' body,
      ts = before ++ ⟨.name keyword, b.line⟩ :: ⟨.name b.name, n⟩ :: ⟨.openBrace, n'⟩ :: body ∧
        Balanced (before.map (·.kind)) ∧ f.StandsIn last body := by
  induction h with
  | nil => cases hb
  | newline _ ih =>
    obtain ⟨before, keyword, n, n', body, rfl, hbalanced, hstands⟩ := ih hb
    exact ⟨_ :: before, keyword, n, n', body, rfl, hbalanced.cons fun _ => rfl, hstands⟩
  | doc _ ih =>
    obtain ⟨before, keyword, n, n', body, rfl, hbalanced, hstands⟩ := ih hb
    exact ⟨_ :: before, keyword, n, n', body, rfl, hbalanced.cons fun _ => rfl, hstands⟩
  | @block keyword name line n n' stop body rest b' bs hheader htook _ ih =>
    rcases List.mem_cons.mp hb with rfl | hb
    · obtain ⟨rfl, rfl, hbody⟩ := hheader
      exact ⟨[], keyword, n, n', body, rfl, .nil, hbody.standsIn hf⟩
    · obtain ⟨before, keyword', m, m', body', rfl, hbalanced, hstands⟩ := ih hb
      obtain ⟨used, rfl, hused, -⟩ := htook
      refine ⟨⟨.name keyword, line⟩ :: ⟨.name name, n⟩ :: ⟨.openBrace, n'⟩ ::
        (used ++ ⟨.closeBrace, stop⟩ :: before), keyword', m, m', body', by simp, ?_, hstands⟩
      have hrest : Balanced ((used ++ ⟨.closeBrace, stop⟩ :: before).map (·.kind)) := by
        rw [List.map_append]
        exact hused.append (hbalanced.cons fun _ => rfl)
      exact ((hrest.cons fun _ => rfl).cons fun _ => rfl).cons fun _ => rfl

/-- Where a model's header stands, a model is read from what is behind it. -/
theorem exists_header (h : BlocksIn last ts bs) {before post : List Token} {keyword name : String}
    {line n n' : Nat} (hkeyword : keyword = "model" ∨ keyword = "view")
    (hts : ts = before ++ ⟨.name keyword, line⟩ :: ⟨.name name, n⟩ :: ⟨.openBrace, n'⟩ :: post) :
    ∃ b, .model b ∈ bs ∧ b.name = name ∧ b.line = line ∧ b.ReadFrom last post ∧
      Balanced (before.map (·.kind)) := by
  induction h generalizing before with
  | nil => simp at hts
  | newline _ ih =>
    cases before with
    | nil => cases hts
    | cons t before =>
      obtain ⟨rfl, hmore⟩ := List.cons.inj hts
      obtain ⟨b, hb, hname, hline, hread, hbefore⟩ := ih hmore
      exact ⟨b, hb, hname, hline, hread, hbefore.cons fun _ => rfl⟩
  | doc _ ih =>
    cases before with
    | nil => cases hts
    | cons t before =>
      obtain ⟨rfl, hmore⟩ := List.cons.inj hts
      obtain ⟨b, hb, hname, hline, hread, hbefore⟩ := ih hmore
      exact ⟨b, hb, hname, hline, hread, hbefore.cons fun _ => rfl⟩
  | @block keyword' name' line' m m' stop body rest b bs hheader htook _ ih =>
    match before, hts with
    | [], hts =>
      cases hts
      cases b with
      | model b =>
        obtain ⟨hname, hline, hread⟩ := hheader
        exact ⟨b, List.mem_cons_self, hname, hline, hread, .nil⟩
      | enum b | datasource b | generator b =>
        rcases hkeyword with rfl | rfl
        · exact absurd rfl hheader.1
        · exact absurd rfl hheader.2
    | [_], hts => cases hts
    | [_, _], hts => cases hts
    | _ :: _ :: _ :: before, hts =>
      simp only [List.cons_append, List.cons.injEq] at hts
      obtain ⟨rfl, rfl, rfl, hbody⟩ := hts
      obtain ⟨c, hrest, hbefore⟩ := exists_header_of_took htook hbody
      obtain ⟨b', hb', hname, hline, hread, hc⟩ := ih hrest
      refine ⟨b', List.mem_cons_of_mem _ hb', hname, hline, hread, ?_⟩
      exact (((hbefore hc).cons fun _ => rfl).cons fun _ => rfl).cons fun _ => rfl

end BlocksIn

end

end Datamodel
