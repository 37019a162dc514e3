import Datamodel.Proofs.Loading.Blocks

/-! What the readers of the grammar take.

A reader takes tokens from the front, and what it takes closes as many brackets as it opens. Braces
are taken by the readers of blocks alone, and line breaks by those of items (`TookItem`). So an item
of a block starts behind a line break, documentation or the opening brace
(`Block.standsIn_of_readBody`), and where a text holds an opening brace it holds the header of a
block (`BlocksIn.exists_header`). -/

namespace Datamodel

open Token (Balanced Kind Passing Reading)

/-! ### Kinds of tokens -/

namespace Token

/-- The tokens of expressions. -/
def Kind.isInner : Kind → Bool
  | .openBrace | .closeBrace | .newline | .doc _ | .marker | .blockMarker => false
  | _ => true

/-- The tokens of a declaration and its attributes, without documentation. -/
def Kind.isMarked : Kind → Bool
  | .openBrace | .closeBrace | .newline | .doc _ | .blockMarker => false
  | _ => true

/-- The tokens within a declaration. -/
def Kind.isDeclared : Kind → Bool
  | .openBrace | .closeBrace | .newline | .blockMarker => false
  | _ => true

/-- The tokens within an item of a block. -/
def Kind.isInline : Kind → Bool
  | .openBrace | .closeBrace | .newline => false
  | _ => true

/-- The tokens of the body of a block. -/
def Kind.isBody : Kind → Bool
  | .openBrace | .closeBrace => false
  | _ => true

theorem Kind.ne_newline_of_isInner {k : Kind} (h : k.isInner = true) : k ≠ .newline := by
  rintro rfl
  cases h

theorem Kind.isMarked_of_isInner {k : Kind} (h : k.isInner = true) : k.isMarked = true := by
  cases k <;> first | rfl | cases h

theorem Kind.isDeclared_of_isMarked {k : Kind} (h : k.isMarked = true) : k.isDeclared = true := by
  cases k <;> first | rfl | cases h

theorem Kind.isDeclared_of_isInner {k : Kind} (h : k.isInner = true) : k.isDeclared = true :=
  isDeclared_of_isMarked (isMarked_of_isInner h)

theorem Kind.isInline_of_isDeclared {k : Kind} (h : k.isDeclared = true) : k.isInline = true := by
  cases k <;> first | rfl | cases h

theorem Kind.isBody_of_isInline {k : Kind} (h : k.isInline = true) : k.isBody = true := by
  cases k <;> first | rfl | cases h

/-- A reader took tokens of a class from `ts`, and left `rest`. -/
def Took (p : Kind → Bool) (ts rest : List Token) : Prop :=
  ∃ used, ts = used ++ rest ∧ Balanced (used.map (·.kind)) ∧ ∀ t ∈ used, p t.kind = true

namespace Took
variable {p q : Kind → Bool} {ts mid rest : List Token}

theorem stay : Took p ts ts := ⟨[], rfl, .nil, nofun⟩

theorem of_eq {us : List Token} (heq : ts = us) (h : Took p us rest) : Took p ts rest := by
  rw [heq]
  exact h

theorem trans (h : Took p ts mid) (h' : Took p mid rest) : Took p ts rest := by
  obtain ⟨used, rfl, hbalanced, hp⟩ := h
  obtain ⟨used', rfl, hbalanced', hp'⟩ := h'
  refine ⟨used ++ used', by simp, ?_, List.forall_mem_append.mpr ⟨hp, hp'⟩⟩
  rw [List.map_append]
  exact hbalanced.append hbalanced'

theorem mono (h : Took p ts rest) (hpq : ∀ {k}, p k = true → q k = true) : Took q ts rest := by
  obtain ⟨used, rfl, hbalanced, hp⟩ := h
  exact ⟨used, rfl, hbalanced, fun t ht => hpq (hp t ht)⟩

/-- A token that is no bracket. -/
theorem token {k : Kind} {n : Nat} (hk : p k = true)
    (hdepth : ∀ depth, Kind.depthAfter depth (some k) = depth) (h : Took p ts rest) :
    Took p (⟨k, n⟩ :: ts) rest := by
  obtain ⟨used, rfl, hbalanced, hp⟩ := h
  exact ⟨⟨k, n⟩ :: used, rfl, hbalanced.cons hdepth, List.forall_mem_cons.mpr ⟨hk, hp⟩⟩

theorem parens {n n' : Nat} (hopen : p .openParen = true) (hclose : p .closeParen = true)
    (h : Took p ts (⟨.closeParen, n'⟩ :: rest)) : Took p (⟨.openParen, n⟩ :: ts) rest := by
  obtain ⟨used, rfl, hbalanced, hp⟩ := h
  refine ⟨⟨.openParen, n⟩ :: (used ++ [⟨.closeParen, n'⟩]), by simp, ?_, ?_⟩
  · rw [List.map_cons, List.map_append]
    exact hbalanced.parens
  · exact List.forall_mem_cons.mpr
      ⟨hopen, List.forall_mem_append.mpr ⟨hp, List.forall_mem_singleton.mpr hclose⟩⟩

theorem brackets {n n' : Nat} (hopen : p .openBracket = true) (hclose : p .closeBracket = true)
    (h : Took p ts (⟨.closeBracket, n'⟩ :: rest)) : Took p (⟨.openBracket, n⟩ :: ts) rest := by
  obtain ⟨used, rfl, hbalanced, hp⟩ := h
  refine ⟨⟨.openBracket, n⟩ :: (used ++ [⟨.closeBracket, n'⟩]), by simp, ?_, ?_⟩
  · rw [List.map_cons, List.map_append]
    exact hbalanced.brackets
  · exact List.forall_mem_cons.mpr
      ⟨hopen, List.forall_mem_append.mpr ⟨hp, List.forall_mem_singleton.mpr hclose⟩⟩

end Took

/-- A reader took an item of tokens of a class, with the end of its line. -/
def TookItem (p : Kind → Bool) (ts rest : List Token) : Prop :=
  ∃ mid, Took p ts mid ∧ EndsItem mid rest

end Token

open Token (EndsItem Took TookItem)

/-! ### Expressions and attributes -/

theorem Argument.Spelled.isInner {a : Argument} {ks : List Kind} (h : a.Spelled ks)
    (hvalue : ∀ {ks}, a.value.Spelled ks → ∀ k ∈ ks, k.isInner = true) :
    ∀ k ∈ ks, k.isInner = true := by
  cases h with
  | positional h => exact hvalue h
  | labelled h => exact List.forall_mem_cons.mpr ⟨rfl, List.forall_mem_cons.mpr ⟨rfl, hvalue h⟩⟩

theorem Expr.Spelled.isInner {e : Expr} {ks : List Kind} (h : e.Spelled ks) :
    ∀ k ∈ ks, k.isInner = true := by
  induction e generalizing ks with
  | text value | number lexeme | name ident =>
    cases h
    exact List.forall_mem_singleton.mpr rfl
  | call function args ih =>
    cases h with
    | call h =>
      simp only [List.forall_mem_cons, List.forall_mem_append]
      exact ⟨rfl, rfl, h.forall_mem rfl fun a ha _ hks => hks.isInner (ih a ha), rfl, nofun⟩
  | array items ih =>
    cases h with
    | array h =>
      simp only [List.forall_mem_cons, List.forall_mem_append]
      exact ⟨rfl, h.forall_mem rfl fun e he _ => ih e he, rfl, nofun⟩

theorem Argument.isInner_of_listed {args : List Argument} {ks : List Kind}
    (h : Kind.Listed Argument.Spelled args ks) : ∀ k ∈ ks, k.isInner = true :=
  h.forall_mem rfl fun _ _ _ hks => hks.isInner Expr.Spelled.isInner

section
variable {last : Nat} {ts : List Token}

theorem Expr.took_of_read {r : Reading Expr ts} (h : Expr.read last ts = .ok r) :
    Took Kind.isInner ts r.rest := by
  obtain ⟨used, hts, hspelled, -⟩ := Expr.spelled_of_read h
  exact ⟨used, hts, hspelled.balanced, List.forall_mem_map.mp hspelled.isInner⟩

theorem Argument.took_of_readAll {r : Reading (List Argument) ts}
    (h : Argument.readAll last ts = .ok r) :
    ∃ n, Took Kind.isInner ts (⟨.closeParen, n⟩ :: r.rest) := by
  obtain ⟨used, n, hts, hlisted⟩ := Argument.listed_of_readAll h
  exact ⟨n, used, hts, Argument.balanced_of_listed hlisted,
    List.forall_mem_map.mp (Argument.isInner_of_listed hlisted)⟩

/-- An attribute starts with its name. -/
theorem Attribute.took_of_read {r : Reading Attribute ts} (h : Attribute.read last ts = .ok r) :
    ∃ n ts', ts = ⟨.name r.value.name, n⟩ :: ts' ∧ Took Kind.isInner ts' r.rest := by
  obtain ⟨name, line, ⟨hts, -, hvalue⟩ | ⟨n, rest, args, hts, hargs, hrest, hvalue⟩⟩ :=
    Attribute.cases_read h
  · rw [hvalue]
    exact ⟨line, _, hts, .stay⟩
  · obtain ⟨m, htook⟩ := Argument.took_of_readAll hargs
    rw [hvalue, hrest]
    exact ⟨line, _, hts, .parens rfl rfl htook⟩

theorem Attribute.took_of_read_marked {r : Reading Attribute ts}
    (h : Attribute.read last ts = .ok r) : Took Kind.isMarked ts r.rest := by
  obtain ⟨n, ts', heq, htook⟩ := Attribute.took_of_read h
  exact .of_eq heq (.token rfl (fun _ => rfl) (htook.mono Kind.isMarked_of_isInner))

theorem Attribute.took_of_readAll {r : Passing (List Attribute) ts}
    (h : Attribute.readAll last ts = .ok r) : Took Kind.isMarked ts r.rest := by
  fun_induction Attribute.readAll last ts with
  | case1 => cases h
  | case2 => cases h
  | case3 line rest a ha _ more hmore ih =>
    cases h
    exact .token rfl (fun _ => rfl) ((Attribute.took_of_read_marked ha).trans (ih hmore))
  | case4 =>
    cases h
    exact .stay

theorem TypeRef.took_of_read {r : Reading TypeRef ts} (h : TypeRef.read last ts = .ok r) :
    ∃ name n ts', ts = ⟨.name name, n⟩ :: ts' ∧ Took Kind.isInner ts' r.rest := by
  rcases TypeRef.cases_read h with ⟨name, n, heq, -⟩ | ⟨dbType, n, n', m, m', heq, -⟩
  · exact ⟨name, n, r.rest, heq, .stay⟩
  · exact ⟨_, n, _, heq, .parens rfl rfl (.token rfl (fun _ => rfl) .stay)⟩

theorem Arity.took_read (ts : List Token) : Took Kind.isInner ts (Arity.read ts).rest := by
  unfold Arity.read
  split
  · exact .token rfl (fun _ => rfl) .stay
  · exact .brackets rfl rfl .stay
  · exact .stay

/-- The type of a field and its arity. -/
theorem FieldDecl.took_front {type : Reading TypeRef ts} (h : TypeRef.read last ts = .ok type) :
    Took Kind.isInner ts (Arity.read type.rest).rest := by
  obtain ⟨name, n, ts', heq, htook⟩ := TypeRef.took_of_read h
  exact .of_eq heq (.token rfl (fun _ => rfl) (htook.trans (Arity.took_read type.rest)))

theorem Block.took_trailingDoc (ts : List Token) :
    Took Kind.isDeclared ts (Block.trailingDoc ts).rest := by
  unfold Block.trailingDoc
  split
  · exact .token rfl (fun _ => rfl) .stay
  · exact .stay

theorem Block.took_trailingComma (ts : List Token) :
    Took Kind.isDeclared ts (Block.trailingComma ts).rest := by
  unfold Block.trailingComma
  split
  · exact .token rfl (fun _ => rfl) .stay
  · exact .stay

/-! ### Items -/

/-- A field starts with its name. Its documentation is what it is given, or stands behind its
attributes. -/
theorem FieldDecl.exists_marked_of_read {docs : List String} {r : Reading FieldDecl ts}
    (h : FieldDecl.read last docs ts = .ok r) : ∃ ts' marked,
      ts = ⟨.name r.value.name, r.value.line⟩ :: ts' ∧ Took Kind.isMarked ts' marked ∧
      r.value.documentation = (joinDocs docs).or (Block.trailingDoc marked).value ∧
      EndsItem (Block.trailingDoc marked).rest r.rest := by
  obtain ⟨name, line, rest, type, attributes, heq, htype, hattributes, hends, hvalue⟩ :=
    FieldDecl.cases_read h
  have hfront := (FieldDecl.took_front htype).mono Kind.isMarked_of_isInner
  rw [hvalue]
  exact ⟨rest, attributes.rest, heq, hfront.trans (Attribute.took_of_readAll hattributes), rfl,
    hends⟩

theorem FieldDecl.tookItem_of_read {docs : List String} {r : Reading FieldDecl ts}
    (h : FieldDecl.read last docs ts = .ok r) : TookItem Kind.isDeclared ts r.rest := by
  obtain ⟨ts', marked, heq, htook, -, hends⟩ := FieldDecl.exists_marked_of_read h
  have hline := (htook.mono Kind.isDeclared_of_isMarked).trans (Block.took_trailingDoc marked)
  exact ⟨_, .of_eq heq (.token rfl (fun _ => rfl) hline), hends⟩

theorem Attribute.tookItem_of_readLine {r : Reading Attribute ts}
    (h : Attribute.readLine last ts = .ok r) : TookItem Kind.isDeclared ts r.rest := by
  obtain ⟨attr, hattr, hends, -⟩ := Attribute.cases_readLine h
  exact ⟨_, (Attribute.took_of_read_marked hattr).mono Kind.isDeclared_of_isMarked, hends⟩

theorem Token.TookItem.inline {rest : List Token} (h : TookItem Kind.isDeclared ts rest) :
    TookItem Kind.isInline ts rest := by
  obtain ⟨mid, htook, hends⟩ := h
  exact ⟨mid, htook.mono Kind.isInline_of_isDeclared, hends⟩

/-- An attribute of a block, with its marker. -/
theorem Token.TookItem.blockMarker {n : Nat} {rest : List Token}
    (h : TookItem Kind.isDeclared ts rest) :
    TookItem Kind.isInline (⟨.blockMarker, n⟩ :: ts) rest := by
  obtain ⟨mid, htook, hends⟩ := h.inline
  exact ⟨mid, htook.token rfl fun _ => rfl, hends⟩

/-- A reader of items that takes one item. -/
def Block.Takes {α : Type} (item : ItemReader α) : Prop :=
  ∀ last docs ts r, item last docs ts = .ok r → TookItem Kind.isInline ts r.rest

theorem ModelItem.takes_read : Block.Takes ModelItem.read := by
  intro last docs ts r h
  rcases ModelItem.cases_read h with ⟨n, rest, a, rfl, ha, hrest, -⟩ | ⟨f, hf, hrest, -⟩
  · rw [hrest]
    exact (Attribute.tookItem_of_readLine ha).blockMarker
  · rw [hrest]
    exact (FieldDecl.tookItem_of_read hf).inline

theorem EnumItem.takes_read : Block.Takes EnumItem.read := by
  intro last docs ts r h
  rcases EnumItem.cases_read h with
    ⟨n, rest, a, rfl, ha, hrest, -⟩ | ⟨name, line, rest, v, rfl, hv, hrest, -⟩
  · rw [hrest]
    exact (Attribute.tookItem_of_readLine ha).blockMarker
  · obtain ⟨attributes, hattributes, hends, -⟩ := EnumValueDecl.cases_read hv
    have hattributes := (Attribute.took_of_readAll hattributes).mono Kind.isDeclared_of_isMarked
    have hline := (hattributes.trans (Block.took_trailingComma attributes.rest)).trans
      (Block.took_trailingDoc _)
    rw [hrest]
    exact ⟨_, .token rfl (fun _ => rfl) (hline.mono Kind.isInline_of_isDeclared), hends⟩

theorem Property.takes_read : Block.Takes Property.read := by
  intro last docs ts r h
  obtain ⟨key, line, n, rest, value, heq, hread, hends, -⟩ := Property.cases_read h
  have hvalue := ((Expr.took_of_read hread).mono Kind.isDeclared_of_isInner).mono
    Kind.isInline_of_isDeclared
  exact ⟨_, .of_eq heq (.token rfl (fun _ => rfl) (.token rfl (fun _ => rfl) hvalue)), hends⟩

end

/-! ### Bodies -/

/-- The tokens of a body in front of an item: whole lines and documentation. -/
structure Token.Leads (before : List Token) : Prop where
  balanced : Balanced (before.map (·.kind))
  body : ∀ t ∈ before, t.kind.isBody = true
  ends : ∀ t ∈ before.getLast?, t.kind = .newline ∨ ∃ d, t.kind = .doc d

open Token (Leads)

namespace Token.Leads

theorem nil : Leads [] := ⟨.nil, nofun, nofun⟩

theorem append {before before' : List Token} (h : Leads before) (h' : Leads before') :
    Leads (before ++ before') where
  balanced := by
    rw [List.map_append]
    exact h.balanced.append h'.balanced
  body := List.forall_mem_append.mpr ⟨h.body, h'.body⟩
  ends := by
    rw [List.getLast?_append]
    intro t ht
    rcases Option.or_eq_some_iff.mp ht with ht | ⟨-, ht⟩
    · exact h'.ends t ht
    · exact h.ends t ht

theorem newline (n : Nat) : Leads [⟨.newline, n⟩] where
  balanced := Balanced.nil.cons fun _ => rfl
  body := List.forall_mem_singleton.mpr rfl
  ends := by
    rintro t ⟨⟩
    exact .inl rfl

theorem doc (text : String) (n : Nat) : Leads [⟨.doc text, n⟩] where
  balanced := Balanced.nil.cons fun _ => rfl
  body := List.forall_mem_singleton.mpr rfl
  ends := by
    rintro t ⟨⟩
    exact .inr ⟨text, rfl⟩

/-- The tokens of an item with the line break behind them. -/
theorem of_took {ts rest : List Token} {n : Nat}
    (h : Took Kind.isInline ts (⟨.newline, n⟩ :: rest)) :
    ∃ used, ts = used ++ rest ∧ Leads used := by
  obtain ⟨used, rfl, hbalanced, hinline⟩ := h
  refine ⟨used ++ [⟨.newline, n⟩], by simp, ?_, ?_, ?_⟩
  · rw [List.map_append]
    exact hbalanced.append (Balanced.nil.cons fun _ => rfl)
  · exact List.forall_mem_append.mpr
      ⟨fun t ht => Kind.isBody_of_isInline (hinline t ht), List.forall_mem_singleton.mpr rfl⟩
  · rw [List.getLast?_concat]
    rintro t ⟨⟩
    exact .inl rfl

end Token.Leads

section
variable {α : Type} {item : ItemReader α} {last : Nat} {name : String} {docs : List String}
  {ts : List Token} {r : Reading (List α) ts}

/-- `x` is read at some place in `ts` with whole lines in front of it. -/
def Block.StandsIn (item : ItemReader α) (last : Nat) (ts : List Token) (x : α) : Prop :=
  ∃ before docs ts' r, ts = before ++ ts' ∧ Leads before ∧ item last docs ts' = .ok r ∧
    r.value.1 = x

theorem Block.StandsIn.append {before : List Token} {x : α} (hbefore : Leads before)
    (h : StandsIn item last ts x) : StandsIn item last (before ++ ts) x := by
  obtain ⟨before', docs, ts', r, rfl, hbefore', hread, hx⟩ := h
  exact ⟨before ++ before', docs, ts', r, by simp, hbefore.append hbefore', hread, hx⟩

theorem Block.readBody_of_head (hts : ∀ t ∈ ts.head?, t.kind = .closeBrace)
    (h : readBody last name (item last) docs ts = .ok r) : r.value = [] := by
  cases ts with
  | nil =>
    rw [readBody] at h
    cases h
  | cons t rest =>
    obtain ⟨k, n⟩ := t
    obtain rfl : k = .closeBrace := hts _ rfl
    rw [readBody] at h
    cases h
    rfl

/-- **The items of a block** stand in its body one behind the other. -/
theorem Block.standsIn_of_readBody (hitem : Takes item)
    (h : readBody last name (item last) docs ts = .ok r) :
    (∃ n, Took Kind.isBody ts (⟨.closeBrace, n⟩ :: r.rest)) ∧
      ∀ x ∈ r.value, StandsIn item last ts x := by
  fun_induction readBody last name (item last) docs ts with
  | case1 => cases h
  | case2 =>
    cases h
    exact ⟨⟨_, .stay⟩, List.forall_mem_nil _⟩
  | case3 docs line rest ih =>
    obtain ⟨more, hmore, rfl⟩ := exists_of_map h
    obtain ⟨⟨n, htook⟩, hstands⟩ := ih hmore
    exact ⟨⟨n, .token rfl (fun _ => rfl) htook⟩,
      fun x hx => (hstands x hx).append (Leads.newline line)⟩
  | case4 docs text line rest ih =>
    obtain ⟨more, hmore, rfl⟩ := exists_of_map h
    obtain ⟨⟨n, htook⟩, hstands⟩ := ih hmore
    exact ⟨⟨n, .token rfl (fun _ => rfl) htook⟩,
      fun x hx => (hstands x hx).append (Leads.doc text line)⟩
  | case5 => cases h
  | case6 docs t rest _ _ _ first hfirst _ ih =>
    obtain ⟨more, hmore, rfl⟩ := exists_of_map h
    obtain ⟨⟨n, htook⟩, hstands⟩ := ih hmore
    obtain ⟨mid, hmid, hends⟩ := hitem last docs _ first hfirst
    have hhere : StandsIn item last (t :: rest) first.value.1 :=
      ⟨[], docs, _, first, rfl, .nil, hfirst, rfl⟩
    rcases hends with ⟨n', rfl⟩ | ⟨hrest, hclose⟩
    · have hline : Took Kind.isBody (t :: rest) first.rest :=
        (hmid.mono Kind.isBody_of_isInline).trans (.token rfl (fun _ => rfl) .stay)
      obtain ⟨used, hused, hleads⟩ := Leads.of_took hmid
      refine ⟨⟨n, hline.trans htook⟩, List.forall_mem_cons.mpr ⟨hhere, fun x hx => ?_⟩⟩
      rw [hused]
      exact (hstands x hx).append hleads
    · have hline : Took Kind.isBody (t :: rest) first.rest := by
        rw [hrest]
        exact hmid.mono Kind.isBody_of_isInline
      refine ⟨⟨n, hline.trans htook⟩, List.forall_mem_cons.mpr ⟨hhere, ?_⟩⟩
      -- Where the block ends behind the item, no other item follows.
      have hnone : more.value = [] := readBody_of_head (hrest ▸ hclose) hmore
      rw [hnone]
      exact List.forall_mem_nil _

end

end Datamodel
