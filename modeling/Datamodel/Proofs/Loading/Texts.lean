import Datamodel.Proofs.Loading.Defaults

/-! What the attributes of a text leave in a loaded fragment.

The names that a relation or an index lists are texts of expressions of the source, though not
always identifiers, and a default is what some expression of the source makes of it
(`Fragment.sourced_of_load`). -/

namespace Datamodel

/-- The text of an expression. -/
def IsExprText (text : String) : Prop := ∃ e : Expr, e.Lexical ∧ e.toText = text

/-! ### Attributes -/

theorem Expr.Lexical.isExprText_names {e : Expr} (h : e.Lexical) : ∀ n ∈ e.names, IsExprText n := by
  intro n hn
  cases h with
  | text | number | call => cases hn
  | name hname =>
    obtain rfl := List.mem_singleton.mp hn
    exact ⟨_, .name hname, rfl⟩
  | array hitems =>
    obtain ⟨item, hitem, rfl⟩ := List.mem_map.mp hn
    have hlexical := hitems item hitem
    cases hlexical with
    | call hfunction => exact ⟨_, .name hfunction, rfl⟩
    | name hname => exact ⟨_, .name hname, rfl⟩
    | text value => exact ⟨_, .text value, rfl⟩
    | number hnumber => exact ⟨_, .number hnumber, rfl⟩
    | array hitems => exact ⟨_, .array hitems, rfl⟩

namespace Attribute
variable {a : Attribute}

theorem Lexical.positional (h : a.Lexical) : ∀ e ∈ a.positional?, e.Lexical := by
  intro e he
  obtain ⟨arg, harg, rfl⟩ := Option.map_eq_some_iff.mp he
  exact (h arg (List.mem_of_find?_eq_some harg)).value

theorem Lexical.labelled (h : a.Lexical) (label : String) : ∀ e ∈ a.labelled? label, e.Lexical := by
  intro e he
  obtain ⟨arg, harg, rfl⟩ := Option.map_eq_some_iff.mp he
  exact (h arg (List.mem_of_find?_eq_some harg)).value

theorem lexical_default? {as : List Attribute} (h : ∀ a ∈ as, a.Lexical) :
    ∀ e ∈ default? as, e.Lexical := by
  intro e he
  obtain ⟨a, ha, hvalue⟩ := List.mem_filterMap.mp (List.mem_of_getLast? he)
  exact (h a (List.mem_of_mem_filter ha)).positional e hvalue

/-- The names that an optional argument lists. -/
theorem isExprText_names {value : Option Expr} (h : ∀ e ∈ value, e.Lexical) :
    ∀ n ∈ (value.map Expr.names).getD [], IsExprText n := by
  cases value with
  | none => nofun
  | some e => exact (h e rfl).isExprText_names

theorem Lexical.isExprText_toIndex (h : a.Lexical) : ∀ n ∈ a.toIndex.fields, IsExprText n := by
  refine isExprText_names fun e he => ?_
  rcases Option.or_eq_some_iff.mp he with he | ⟨-, he⟩
  · exact h.labelled "fields" e he
  · exact h.positional e he

end Attribute

/-! ### Fields and models -/

/-- A relation whose lists are those of attributes. -/
structure Relation.Sourced (r : Relation) : Prop where
  fromFields : ∀ n ∈ r.fromFields, IsExprText n
  toFields : ∀ n ∈ r.toFields, IsExprText n

/-- A field whose default and whose relation come from attributes. -/
structure Field.Sourced (f : Field) : Prop where
  default : ∀ d ∈ f.default, ∃ e : Expr, e.Lexical ∧ e.toDefault f.kind = d
  relation : ∀ r ∈ f.relation, r.Sourced

/-- A model whose indexes come from attributes. -/
structure Model.HasSourcedIndexes (m : Model) : Prop where
  unique : ∀ i ∈ m.uniqueIndexes, ∀ n ∈ i.fields, IsExprText n
  primaryKey : ∀ i ∈ m.primaryKey, ∀ n ∈ i.fields, IsExprText n

/-- A model whose attributes and those of its fields were read from a text. -/
structure Model.Sourced (m : Model) : Prop extends m.HasSourcedIndexes where
  fields : ∀ f ∈ m.fields, f.Sourced

section
variable {declared : List Declaration}

theorem Relation.sourced_of_resolve {model target : String} {attr : Option Attribute} {r : Relation}
    (hattr : ∀ a ∈ attr, a.Lexical) (h : Relation.resolve model target attr = .ok r) :
    r.Sourced := by
  unfold Relation.resolve at h
  split at h
  · cases h
    exact ⟨nofun, nofun⟩
  · next a =>
    obtain ⟨onDelete, -, h⟩ := exists_of_bind h
    cases h
    have ha : a.Lexical := hattr a rfl
    exact ⟨Attribute.isExprText_names (ha.labelled "fields"),
      Attribute.isExprText_names (ha.labelled "references")⟩

theorem FieldDecl.sourced_of_resolve {d : FieldDecl} {model : String} {f : Field}
    (hd : d.Lexical) (h : d.resolve declared model = .ok f) : f.Sourced where
  default := by
    intro value hvalue
    rw [(FieldDecl.declaredBy_of_resolve h).default] at hvalue
    obtain ⟨e, he, rfl⟩ := Option.map_eq_some_iff.mp hvalue
    exact ⟨e, Attribute.lexical_default? hd.attributes e he, rfl⟩
  relation := by
    intro r hr
    rcases (d.resolvedFrom_of_resolve h).relation with ⟨-, hnone⟩ | ⟨-, r', hresolve, hsome⟩
    · rw [hnone] at hr
      cases hr
    · rw [hsome] at hr
      cases hr
      refine Relation.sourced_of_resolve (fun a ha => ?_) hresolve
      exact hd.attributes a (List.mem_of_find?_eq_some ha)

theorem Model.HasSourcedIndexes.applyAttribute {m : Model} {a : Attribute}
    (h : m.HasSourcedIndexes) (ha : a.Lexical) : (m.applyAttribute a).HasSourcedIndexes := by
  unfold Model.applyAttribute
  split
  · exact ⟨h.unique, h.primaryKey⟩
  · refine ⟨List.forall_mem_append.mpr ⟨h.unique, ?_⟩, h.primaryKey⟩
    exact List.forall_mem_singleton.mpr ha.isExprText_toIndex
  · refine ⟨h.unique, ?_⟩
    rintro _ ⟨⟩
    exact ha.isExprText_toIndex
  · exact h

theorem Model.HasSourcedIndexes.foldl_applyAttribute {m : Model} {as : List Attribute}
    (h : m.HasSourcedIndexes) (has : ∀ a ∈ as, a.Lexical) :
    (as.foldl Model.applyAttribute m).HasSourcedIndexes := by
  induction as generalizing m with
  | nil => exact h
  | cons a as ih =>
    obtain ⟨ha, has⟩ := List.forall_mem_cons.mp has
    exact ih (h.applyAttribute ha) has

theorem ModelBlock.sourced_of_resolve {b : ModelBlock} {m : Model} (hb : b.Lexical)
    (h : b.resolve declared = .ok m) : m.Sourced where
  toHasSourcedIndexes := by
    obtain ⟨fields, -, h⟩ := exists_of_bind h
    cases h
    exact Model.HasSourcedIndexes.foldl_applyAttribute ⟨nofun, nofun⟩ hb.attributes
  fields := by
    intro f hf
    obtain ⟨d, hd, hresolve⟩ := forall_mem_of_mapM (ModelBlock.fields_of_resolve h).2.1 f hf
    exact FieldDecl.sourced_of_resolve (hb.fields d hd) hresolve

end

/-! ### Loaded fragments -/

theorem Field.Sourced.overlay {f : Field} (h : f.Sourced) (notes : FieldNotes) :
    (f.overlay notes).Sourced where
  default := h.default
  relation := by
    intro r' hr'
    obtain ⟨r, hr, rfl⟩ := Option.map_eq_some_iff.mp hr'
    exact ⟨(h.relation r hr).fromFields, (h.relation r hr).toFields⟩

theorem Model.Sourced.annotate {m : Model} (h : m.Sourced) (as : Notes) :
    (as.annotate m).Sourced := by
  unfold Notes.annotate
  split
  · refine ⟨⟨h.unique, h.primaryKey⟩, List.forall_mem_map.mpr fun f hf => ?_⟩
    split
    · exact (h.fields f hf).overlay _
    · exact h.fields f hf
  · exact h

/-- **The models of a loaded fragment** have their lists and defaults from expressions. -/
theorem Fragment.sourced_of_load {origin source : String} {fragment : Fragment}
    (h : Fragment.load origin source = .ok fragment) : ∀ m ∈ fragment.schema.models, m.Sourced := by
  intro m hm
  obtain ⟨blocks, declared, b, m, hblocks, hb, hresolve, rfl⟩ := exists_block_of_mem h hm
  have hlexical : b.Lexical := Block.lexical_of_ofText hblocks _ hb
  exact (ModelBlock.sourced_of_resolve hlexical hresolve).annotate _

end Datamodel
