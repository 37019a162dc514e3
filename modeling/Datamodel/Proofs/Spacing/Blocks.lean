import Datamodel.Proofs.Loading.Blocks
import Datamodel.Proofs.Spacing.Expressions

/-! Reading tokens that are alike gives the same blocks, but for the lines that they name.

An item takes its line break with it, and what is left is alike behind it (`Reading.LikeBehind`);
the loop over the items of a body passes over further line breaks (`Block.follows_readBody`), and so
does the one over the blocks of a text (`Block.follows_readAll`). -/

namespace Datamodel

open Token (Alike AlikeBehind Answers Passing Reading)

/-! ### Without lines -/

def FieldDecl.unlined (f : FieldDecl) : FieldDecl :=
  { f with attributes := f.attributes.map Attribute.unlined, line := 0 }

def ModelBlock.unlined (b : ModelBlock) : ModelBlock :=
  { b with
    fields := b.fields.map FieldDecl.unlined
    attributes := b.attributes.map Attribute.unlined
    line := 0 }

def EnumValueDecl.unlined (v : EnumValueDecl) : EnumValueDecl :=
  { v with attributes := v.attributes.map Attribute.unlined, line := 0 }

def EnumBlock.unlined (b : EnumBlock) : EnumBlock :=
  { b with
    values := b.values.map EnumValueDecl.unlined
    attributes := b.attributes.map Attribute.unlined
    line := 0 }

def Property.unlined (p : Property) : Property := { p with line := 0 }

def ConfigBlock.unlined (b : ConfigBlock) : ConfigBlock :=
  { b with properties := b.properties.map Property.unlined, line := 0 }

/-- The block, whatever lines it and its items stand on. -/
def Block.unlined : Block → Block
  | model b => .model b.unlined
  | enum b => .enum b.unlined
  | datasource b => .datasource b.unlined
  | generator b => .generator b.unlined

def ModelItem.unlined : ModelItem → ModelItem
  | field f => .field f.unlined
  | attr a => .attr a.unlined

def EnumItem.unlined : EnumItem → EnumItem
  | value v => .value v.unlined
  | attr a => .attr a.unlined

namespace Token

section
variable {α : Type} {ts us : List Token}

/-- Readings of related values that leave tokens that are alike behind a line break. -/
structure Reading.LikeBehind (V : α → α → Prop) (r : Reading α ts) (s : Reading α us) :
    Prop where
  value : V r.value s.value
  rest : AlikeBehind r.rest s.rest

structure Passing.LikeBehind (V : α → α → Prop) (r : Passing α ts) (s : Passing α us) :
    Prop where
  value : V r.value s.value
  rest : AlikeBehind r.rest s.rest

theorem follows_endOfItem (last last' : Nat) (h : Alike ts us) :
    Follows (Passing.LikeBehind Eq) (endOfItem last ts) (endOfItem last' us) := by
  intro r hr
  unfold endOfItem at hr
  split at hr
  · cases hr
    rw [h.eq_nil]
    exact ⟨_, rfl, rfl, rfl⟩
  · cases hr
    obtain ⟨m, us', rfl, hrest⟩ := h.exists_cons (by simp)
    exact ⟨_, rfl, rfl, h.behind⟩
  · cases hr
    obtain ⟨m, us', rfl, hrest⟩ := h.exists_newline
    exact ⟨_, rfl, rfl, hrest⟩
  · exact absurd hr unexpected_ne_ok

end

end Token

section
variable {ts us : List Token}

/-! ### Types -/

theorem TypeRef.follows_read (last last' : Nat) (h : Alike ts us) :
    Follows (Reading.Like Alike Eq) (TypeRef.read last ts) (TypeRef.read last' us) := by
  intro r hr
  unfold TypeRef.read at hr
  split at hr
  · obtain ⟨m, us₁, rfl, hopen⟩ := h.exists_cons (by simp)
    obtain ⟨m', us₂, rfl, htext⟩ := hopen.exists_cons (by simp)
    obtain ⟨m'', us₃, rfl, hclose⟩ := htext.exists_cons (by simp)
    obtain ⟨close, hclose', hr⟩ := exists_of_bind hr
    cases hr
    obtain ⟨s, hs, -, hrest⟩ :=
      Token.follows_expect Alike.parallel last last' hclose .closeParen (by simp) "`)`" close hclose'
    refine ⟨⟨_, s.rest, ?_⟩, ?_, rfl, hrest⟩
    · have := s.shorter
      simp only [List.length_cons]
      omega
    · rw [TypeRef.read, hs]
      rfl
  · cases hr
  · next hnot hnot' =>
    cases hr
    obtain ⟨m, us', rfl, hrest⟩ := h.exists_cons (by simp)
    refine ⟨⟨_, us', Nat.lt_succ_self _⟩, ?_, rfl, hrest⟩
    rw [TypeRef.read]
    · rintro l s l' us'' rfl rfl
      obtain ⟨_, _, rfl, -⟩ := hrest.symm.exists_cons (by simp)
      exact hnot' _ _ rfl rfl
    · rintro l us'' rfl rfl
      obtain ⟨_, _, rfl, -⟩ := hrest.symm.exists_cons (by simp)
      exact hnot' _ _ rfl rfl
  · exact absurd hr Token.unexpected_ne_ok

theorem Arity.like_read (h : Alike ts us) : Passing.Like Alike Eq (Arity.read ts) (Arity.read us) := by
  unfold Arity.read
  split
  · obtain ⟨m, us', rfl, hrest⟩ := h.exists_cons (by simp)
    exact ⟨rfl, hrest⟩
  · obtain ⟨m, us', rfl, hclose⟩ := h.exists_cons (by simp)
    obtain ⟨m', us'', rfl, hrest⟩ := hclose.exists_cons (by simp)
    exact ⟨rfl, hrest⟩
  · next hquestion hlist =>
    split
    · obtain ⟨m, ts', rfl, -⟩ := h.symm.exists_cons (by simp)
      exact absurd rfl (hquestion _ _)
    · obtain ⟨m, ts', rfl, hclose⟩ := h.symm.exists_cons (by simp)
      obtain ⟨m', ts'', rfl, -⟩ := hclose.exists_cons (by simp)
      exact absurd rfl (hlist _ _ _)
    · exact ⟨rfl, h⟩

theorem Block.like_trailingDoc (h : Alike ts us) :
    Passing.Like Alike Eq (Block.trailingDoc ts) (Block.trailingDoc us) := by
  unfold Block.trailingDoc
  split
  · obtain ⟨m, us', rfl, hrest⟩ := h.exists_cons (by simp)
    exact ⟨rfl, hrest⟩
  · next hnot =>
    split
    · obtain ⟨m, ts', rfl, -⟩ := h.symm.exists_cons (by simp)
      exact absurd rfl (hnot _ _ _)
    · exact ⟨rfl, h⟩

theorem Block.like_trailingComma (h : Alike ts us) :
    Passing.Like Alike Eq (Block.trailingComma ts) (Block.trailingComma us) := by
  unfold Block.trailingComma
  split
  · obtain ⟨m, us', rfl, hrest⟩ := h.exists_cons (by simp)
    exact ⟨rfl, hrest⟩
  · next hnot =>
    split
    · obtain ⟨m, ts', rfl, -⟩ := h.symm.exists_cons (by simp)
      exact absurd rfl (hnot _ _)
    · exact ⟨rfl, h⟩

/-! ### Items -/

theorem FieldDecl.follows_read (last last' : Nat) (docs : List String) (h : Alike ts us) :
    Follows (Reading.LikeBehind (Agree unlined)) (FieldDecl.read last docs ts)
      (FieldDecl.read last' docs us) := by
  refine (Token.follows_ident Alike.parallel last last' h _).bind fun name name' hname => ?_
  refine (TypeRef.follows_read last last' hname.rest).bind fun type type' htype => ?_
  have harity := Arity.like_read htype.rest
  refine (Attribute.follows_readAll Alike.parallel last last' harity.rest).bind fun as as' has => ?_
  have htrailing := Block.like_trailingDoc has.rest
  refine (Token.follows_endOfItem last last' htrailing.rest).bind fun ending ending' hending => ?_
  refine .ok ⟨?_, hending.rest⟩
  simp only [Agree, unlined, hname.value, htype.value, harity.value, has.value, htrailing.value]

theorem Attribute.follows_readLine (last last' : Nat) (h : Alike ts us) :
    Follows (Reading.LikeBehind (Agree unlined)) (Attribute.readLine last ts)
      (Attribute.readLine last' us) := by
  refine (Attribute.follows_read Alike.parallel last last' h).bind fun a a' ha => ?_
  refine (Token.follows_endOfItem last last' ha.rest).bind fun ending ending' hending => ?_
  exact .ok ⟨ha.value, hending.rest⟩

/-- A reader of items that reads the same items, but for their lines, from tokens that are
alike. -/
def Block.IgnoresSpacing {α : Type} (item : ItemReader α) (unlined : α → α) : Prop :=
  ∀ last last' docs ts us, Alike ts us →
    Follows (Reading.LikeBehind (Agree (Prod.map unlined id))) (item last docs ts)
      (item last' docs us)

theorem ModelItem.ignoresSpacing_read : Block.IgnoresSpacing ModelItem.read unlined := by
  intro last last' docs ts us h
  unfold ModelItem.read
  split
  · obtain ⟨m, us', rfl, hrest⟩ := h.exists_cons (by simp)
    refine (Attribute.follows_readLine last last' hrest).bind fun a a' ha => .ok ⟨?_, ha.rest⟩
    exact congrArg (fun a => (ModelItem.attr a, docs)) ha.value
  · obtain ⟨m, us', rfl, hrest⟩ := h.exists_cons (by simp)
    refine (FieldDecl.follows_read last last' docs h).bind fun f f' hf => .ok ⟨?_, hf.rest⟩
    exact congrArg (fun f => (ModelItem.field f, [])) hf.value
  · exact .error

theorem EnumValueDecl.follows_read (last last' : Nat) (name : String) (line line' : Nat)
    (h : Alike ts us) : Follows (Passing.LikeBehind (Agree unlined))
      (EnumValueDecl.read last name line ts) (EnumValueDecl.read last' name line' us) := by
  refine (Attribute.follows_readAll Alike.parallel last last' h).bind fun as as' has => ?_
  have hcomma := Block.like_trailingComma has.rest
  have htrailing := Block.like_trailingDoc hcomma.rest
  refine (Token.follows_endOfItem last last' htrailing.rest).bind fun ending ending' hending => ?_
  refine .ok ⟨?_, hending.rest⟩
  simp only [Agree, unlined, has.value]

theorem EnumItem.ignoresSpacing_read : Block.IgnoresSpacing EnumItem.read unlined := by
  intro last last' docs ts us h
  unfold EnumItem.read
  split
  · obtain ⟨m, us', rfl, hrest⟩ := h.exists_cons (by simp)
    refine (Attribute.follows_readLine last last' hrest).bind fun a a' ha => .ok ⟨?_, ha.rest⟩
    exact congrArg (fun a => (EnumItem.attr a, docs)) ha.value
  · next name line rest =>
    obtain ⟨m, us', rfl, hrest⟩ := h.exists_cons (by simp)
    refine (EnumValueDecl.follows_read last last' name line m hrest).bind fun v v' hv =>
      .ok ⟨?_, hv.rest⟩
    exact congrArg (fun v => (EnumItem.value v, docs)) hv.value
  · exact .error

theorem Property.ignoresSpacing_read : Block.IgnoresSpacing Property.read unlined := by
  intro last last' docs ts us h
  unfold Property.read
  split
  · obtain ⟨m, us', rfl, hrest⟩ := h.exists_cons (by simp)
    refine
      (Token.follows_expect Alike.parallel last last' hrest .equals (by simp) _).bind
        fun eq eq' heq => ?_
    refine
      (Expr.follows_read Alike.parallel last last' heq.rest).bind fun value value' hvalue => ?_
    refine (Token.follows_endOfItem last last' hvalue.rest).bind fun ending ending' hending => ?_
    refine .ok ⟨?_, hending.rest⟩
    simp only [Agree, Prod.map, unlined, hvalue.value]
  · exact .error

/-! ### Bodies -/

theorem Block.readBody_breaks {α : Type} {item : ItemReader α} {last : Nat} {name : String}
    {docs : List String} {breaks rest : List Token} {xs : List α}
    (hbreaks : ∀ t ∈ breaks, t.kind = .newline)
    (h : Answers (readBody last name (item last) docs us) xs rest) :
    Answers (readBody last name (item last) docs (breaks ++ us)) xs rest := by
  induction breaks with
  | nil => exact h
  | cons t breaks ih =>
    obtain ⟨k, n⟩ := t
    obtain ⟨rfl, hmore⟩ := List.forall_mem_cons.mp hbreaks
    exact readBody_newline (ih hmore)

/-- **The body of a block** is read alike from tokens that are alike behind its opening brace or a
line break. -/
theorem Block.follows_readBody {α : Type} {item : ItemReader α} {unlined : α → α}
    (hitem : IgnoresSpacing item unlined) (last last' : Nat) (name : String) (docs : List String)
    (h : AlikeBehind ts us) : Follows (Reading.Like Alike (Agree (List.map unlined)))
      (readBody last name (item last) docs ts) (readBody last' name (item last') docs us) := by
  fun_induction readBody last name (item last) docs ts generalizing us with
  | case1 => exact .error
  | case2 docs line rest =>
    obtain ⟨breaks, us', rfl, hbreaks, hrest⟩ := h.exists_append (by simp)
    obtain ⟨m, us'', rfl, hrest'⟩ := hrest.exists_cons (by simp)
    rintro r ⟨⟩
    exact (readBody_breaks hbreaks readBody_close).follows rfl hrest'
  | case3 docs line rest ih =>
    intro r hr
    obtain ⟨more, hmore, rfl⟩ := exists_of_map hr
    obtain ⟨s, hs, hvalue, hleft⟩ := ih h more hmore
    exact ⟨s, hs, hvalue, hleft⟩
  | case4 docs text line rest ih =>
    obtain ⟨breaks, us', rfl, hbreaks, hrest⟩ := h.exists_append (by simp)
    obtain ⟨m, us'', rfl, hrest'⟩ := hrest.exists_cons (by simp)
    intro r hr
    obtain ⟨more, hmore, rfl⟩ := exists_of_map hr
    obtain ⟨s, hs, hvalue, hleft⟩ := ih hrest'.behind more hmore
    exact (readBody_breaks hbreaks (readBody_doc ⟨s.shorter, hs⟩)).follows hvalue hleft
  | case5 => exact .error
  | case6 docs t rest hclose hnewline hdoc first hfirst _ ih =>
    obtain ⟨k, n⟩ := t
    have hk : k ≠ .newline := fun hk => hnewline n (by rw [hk])
    obtain ⟨breaks, us', rfl, hbreaks, halike⟩ := h.exists_append (by rintro _ ⟨⟩; exact hk)
    obtain ⟨m, us'', rfl, -⟩ := halike.exists_cons hk
    obtain ⟨s, hs, hvalue, hleft⟩ := hitem last last' docs _ _ halike first hfirst
    obtain ⟨⟨x, docs'⟩, rest', hshorter⟩ := s
    obtain ⟨hx, hdocs⟩ := Prod.mk.inj hvalue
    obtain rfl : first.value.2 = docs' := hdocs
    intro r hr
    obtain ⟨more, hmore, rfl⟩ := exists_of_map hr
    obtain ⟨s', hs', hvalue', hleft'⟩ := ih hleft more hmore
    have hbody := readBody_of_item (n := m) (fun hk => hclose n (by rw [hk])) hk
      (fun text hk => hdoc text n (by rw [hk])) ⟨hshorter, hs⟩ ⟨s'.shorter, hs'⟩
    refine (readBody_breaks hbreaks hbody).follows ?_ hleft'
    exact congrArg₂ List.cons hx hvalue'

/-! ### Blocks -/

theorem Block.follows_readOpening (last last' : Nat) (what : String) (h : Alike ts us) :
    Follows (Reading.Like Alike Eq) (readOpening last what ts) (readOpening last' what us) := by
  refine (Token.follows_ident Alike.parallel last last' h _).bind fun name name' hname => ?_
  refine (Token.follows_expect Alike.parallel last last' hname.rest .openBrace (by simp) _).bind
    fun brace brace' hbrace => ?_
  exact .ok ⟨hname.value, hbrace.rest⟩

/-- What is selected from lists that agree agrees. -/
theorem Agree.filterMap {α β : Type} {f : α → α} {g : β → β} {select : α → Option β}
    {xs ys : List α} (h : Agree (List.map f) xs ys)
    (hselect : ∀ x, select (f x) = (select x).map g) :
    Agree (List.map g) (xs.filterMap select) (ys.filterMap select) := by
  have hmap (zs : List α) : (zs.filterMap select).map g = (zs.map f).filterMap select := by
    rw [List.map_filterMap, List.filterMap_map]
    exact congrArg (List.filterMap · zs) (funext fun x => (hselect x).symm)
  rw [Agree, hmap, hmap, h]

theorem ModelItem.field?_unlined (x : ModelItem) :
    x.unlined.field? = x.field?.map FieldDecl.unlined := by
  cases x <;> rfl

theorem ModelItem.attr?_unlined (x : ModelItem) :
    x.unlined.attr? = x.attr?.map Attribute.unlined := by
  cases x <;> rfl

theorem EnumItem.value?_unlined (x : EnumItem) :
    x.unlined.value? = x.value?.map EnumValueDecl.unlined := by
  cases x <;> rfl

theorem EnumItem.attr?_unlined (x : EnumItem) :
    x.unlined.attr? = x.attr?.map Attribute.unlined := by
  cases x <;> rfl

theorem ModelBlock.follows_read (last last' : Nat) (isView : Bool) (docs : List String)
    (line line' : Nat) (h : Alike ts us) : Follows (Reading.Like Alike (Agree unlined))
      (ModelBlock.read last isView docs line ts) (ModelBlock.read last' isView docs line' us) := by
  refine (Block.follows_readOpening last last' _ h).bind fun name name' hname => ?_
  rw [hname.value]
  refine (Block.follows_readBody ModelItem.ignoresSpacing_read last last' name'.value []
    hname.rest.behind).bind fun body body' hbody => .ok ⟨?_, hbody.rest⟩
  have hfields := hbody.value.filterMap ModelItem.field?_unlined
  have hattributes := hbody.value.filterMap ModelItem.attr?_unlined
  simp only [Agree] at hfields hattributes
  simp only [Agree, unlined, hfields, hattributes]

theorem EnumBlock.follows_read (last last' : Nat) (docs : List String) (line line' : Nat)
    (h : Alike ts us) : Follows (Reading.Like Alike (Agree unlined))
      (EnumBlock.read last docs line ts) (EnumBlock.read last' docs line' us) := by
  refine (Block.follows_readOpening last last' _ h).bind fun name name' hname => ?_
  rw [hname.value]
  refine (Block.follows_readBody EnumItem.ignoresSpacing_read last last' name'.value []
    hname.rest.behind).bind fun body body' hbody => .ok ⟨?_, hbody.rest⟩
  have hvalues := hbody.value.filterMap EnumItem.value?_unlined
  have hattributes := hbody.value.filterMap EnumItem.attr?_unlined
  simp only [Agree] at hvalues hattributes
  simp only [Agree, unlined, hvalues, hattributes]

theorem ConfigBlock.follows_read (last last' line line' : Nat) (h : Alike ts us) :
    Follows (Reading.Like Alike (Agree unlined)) (ConfigBlock.read last line ts)
      (ConfigBlock.read last' line' us) := by
  refine (Block.follows_readOpening last last' _ h).bind fun name name' hname => ?_
  rw [hname.value]
  refine (Block.follows_readBody Property.ignoresSpacing_read last last' name'.value []
    hname.rest.behind).bind fun body body' hbody => .ok ⟨?_, hbody.rest⟩
  have hproperties := hbody.value
  simp only [Agree] at hproperties
  simp only [Agree, unlined, hproperties]

theorem Block.follows_read (last last' : Nat) (keyword : String) (docs : List String)
    (line line' : Nat) (h : Alike ts us) : Follows (Reading.Like Alike (Agree unlined))
      (Block.read last keyword docs line ts) (Block.read last' keyword docs line' us) := by
  unfold Block.read
  split
  · refine (ModelBlock.follows_read last last' false docs line line' h).bind fun b b' hb => ?_
    exact .ok ⟨congrArg Block.model hb.value, hb.rest⟩
  · refine (ModelBlock.follows_read last last' true docs line line' h).bind fun b b' hb => ?_
    exact .ok ⟨congrArg Block.model hb.value, hb.rest⟩
  · refine (EnumBlock.follows_read last last' docs line line' h).bind fun b b' hb => ?_
    exact .ok ⟨congrArg Block.enum hb.value, hb.rest⟩
  · refine (ConfigBlock.follows_read last last' line line' h).bind fun b b' hb => ?_
    exact .ok ⟨congrArg Block.datasource hb.value, hb.rest⟩
  · refine (ConfigBlock.follows_read last last' line line' h).bind fun b b' hb => ?_
    exact .ok ⟨congrArg Block.generator hb.value, hb.rest⟩
  · exact .error

theorem Block.readAll_breaks {last : Nat} {docs : List String} {breaks : List Token}
    (hbreaks : ∀ t ∈ breaks, t.kind = .newline) :
    readAll last docs (breaks ++ us) = readAll last docs us := by
  induction breaks with
  | nil => rfl
  | cons t breaks ih =>
    obtain ⟨k, n⟩ := t
    obtain ⟨rfl, hmore⟩ := List.forall_mem_cons.mp hbreaks
    rw [List.cons_append, readAll, ih hmore]

/-- **The blocks of a text** are read alike from tokens that are alike behind a line break. -/
theorem Block.follows_readAll (last last' : Nat) (docs : List String) (h : AlikeBehind ts us) :
    Follows (Agree (List.map unlined)) (readAll last docs ts) (readAll last' docs us) := by
  fun_induction readAll last docs ts generalizing us with
  | case1 docs =>
    obtain ⟨breaks, us', rfl, hbreaks, hrest⟩ := h.exists_append (by simp)
    obtain rfl := hrest.eq_nil
    rw [readAll_breaks hbreaks, readAll]
    exact .ok rfl
  | case2 docs line rest ih => exact ih h
  | case3 docs text line rest ih =>
    obtain ⟨breaks, us', rfl, hbreaks, hrest⟩ := h.exists_append (by simp)
    obtain ⟨m, us'', rfl, hrest'⟩ := hrest.exists_cons (by simp)
    rw [readAll_breaks hbreaks, readAll]
    exact ih hrest'.behind
  | case4 => exact .error
  | case5 docs keyword line rest block hblock _ ih =>
    obtain ⟨breaks, us', rfl, hbreaks, hrest⟩ := h.exists_append (by simp)
    obtain ⟨m, us'', rfl, hrest'⟩ := hrest.exists_cons (by simp)
    obtain ⟨s, hs, hvalue, hleft⟩ :=
      Block.follows_read last last' keyword docs line m hrest' block hblock
    rw [readAll_breaks hbreaks, readAll, hs]
    exact (ih hleft.behind).map fun bs bs' hbs => congrArg₂ List.cons hvalue hbs
  | case6 => exact .error

/-- Tokens that are alike make the same blocks, but for their lines. -/
theorem Block.follows_ofTokens (h : Alike ts us) :
    Follows (Agree (List.map unlined)) (ofTokens ts) (ofTokens us) :=
  follows_readAll _ _ [] h.behind

end

end Datamodel
