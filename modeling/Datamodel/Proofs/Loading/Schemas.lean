import Datamodel.Proofs.Loading.Blocks
import Datamodel.Proofs.Notes.Models
import Datamodel.Proofs.Resolution.Results
import Datamodel.Proofs.Schema.Config
import Datamodel.Proofs.Schema.Structure

/-! What the schema that a text declares is like.

Names, types and documentation are lexical, types are declared, and object fields are those with a
relation (`Schema.wellFormed_of_ofText`). Nothing is known of what attributes say. -/

namespace Datamodel

open Token (IsName)

/-! ### Well-formed schemas -/

/-- A field as texts declare fields, the declared types being `names`. The names in its notes hold
no quote. -/
structure Field.WellFormed (names : List (String × FieldKind)) (f : Field) : Prop where
  name : IsName f.name
  documentation : IsDocumentation f.documentation
  list : f.isList = true → f.isRequired = false
  object : f.kind = .object ↔ f.relation.isSome = true
  type : f.kind = .unsupported ∨ IsName f.type ∧
    (f.type ∈ scalarTypes ∧ f.kind = .scalar ∨ f.type ∉ scalarTypes ∧ (f.type, f.kind) ∈ names)
  columnName : ∀ n ∈ f.columnName, '"' ∉ n.toList
  relationMap : ∀ r ∈ f.relation, ∀ n ∈ r.map, '"' ∉ n.toList

structure Model.WellFormed (names : List (String × FieldKind)) (m : Model) : Prop where
  name : IsName m.name
  documentation : IsDocumentation m.documentation
  fields : ∀ f ∈ m.fields, f.WellFormed names
  secondaryIndexes : ∀ t ∈ m.secondaryIndexes, IsSecondaryIndex t

structure Schema.WellFormed (names : List (String × FieldKind)) (s : Schema) : Prop where
  models : ∀ m ∈ s.models, m.WellFormed names
  enums : ∀ e ∈ s.enums, e.Lexical
  datasources : ∀ d ∈ s.datasources, d.Lexical
  generators : ∀ g ∈ s.generators, g.Lexical

section
variable {names names' : List (String × FieldKind)}

theorem Field.WellFormed.mono {f : Field} (h : f.WellFormed names) (hnames : names ⊆ names') :
    f.WellFormed names' where
  name := h.name
  documentation := h.documentation
  list := h.list
  object := h.object
  type := h.type.imp_right fun ⟨hname, htype⟩ => ⟨hname, htype.imp_right fun ⟨hscalar, hmem⟩ =>
    ⟨hscalar, hnames hmem⟩⟩
  columnName := h.columnName
  relationMap := h.relationMap

theorem Model.WellFormed.mono {m : Model} (h : m.WellFormed names) (hnames : names ⊆ names') :
    m.WellFormed names' where
  name := h.name
  documentation := h.documentation
  fields := fun f hf => (h.fields f hf).mono hnames
  secondaryIndexes := h.secondaryIndexes

theorem Schema.WellFormed.mono {s : Schema} (h : s.WellFormed names) (hnames : names ⊆ names') :
    s.WellFormed names' where
  models := fun m hm => (h.models m hm).mono hnames
  enums := h.enums
  datasources := h.datasources
  generators := h.generators

end

/-! ### Fields -/

section
variable {declared : List Declaration} {model : String}

theorem FieldDecl.type_of_kind {d : FieldDecl} {kind : FieldKind} (hd : d.Lexical)
    (h : d.kind declared model = .ok kind) : kind = .unsupported ∨ IsName d.type.toText ∧
      (d.type.toText ∈ scalarTypes ∧ kind = .scalar ∨
        d.type.toText ∉ scalarTypes ∧ (d.type.toText, kind) ∈ declared.map Declaration.pair) := by
  unfold FieldDecl.kind at h
  split at h
  · cases h
    exact .inl rfl
  · next name htype =>
    split at h
    · next kind' hkind =>
      cases h
      rw [htype]
      exact .inr ⟨hd.type name htype, FieldKind.mem_of_ofName? hkind⟩
    · cases h

theorem FieldDecl.wellFormed_of_resolve {d : FieldDecl} {f : Field} (hd : d.Lexical)
    (h : d.resolve declared model = .ok f) : f.WellFormed (declared.map Declaration.pair) := by
  have hf := d.resolvedFrom_of_resolve h
  refine {
    name := hf.name ▸ hd.name
    documentation := hf.documentation ▸ hd.documentation
    list := ?_
    object := ?_
    type := hf.type ▸ d.type_of_kind hd hf.kind
    columnName := by simp [hf.columnName]
    relationMap := ?_ }
  · rw [hf.isList, hf.isRequired]
    cases d.arity <;> decide
  · rcases hf.relation with ⟨hkind, hrelation⟩ | ⟨hkind, r, -, hrelation⟩
    · simp [hkind, hrelation]
    · simp [hkind, hrelation]
  · rcases hf.relation with ⟨-, hrelation⟩ | ⟨-, r, hresolve, hrelation⟩
    · simp [hrelation]
    · simp [hrelation, Relation.map_of_resolve hresolve]

/-! ### Models -/

theorem ModelBlock.wellFormed_of_resolve {b : ModelBlock} {m : Model} (hb : b.Lexical)
    (h : b.resolve declared = .ok m) : m.WellFormed (declared.map Declaration.pair) := by
  obtain ⟨fields, hfields, h⟩ := exists_of_bind h
  cases h
  obtain ⟨_, _, _, _, hfold⟩ := Model.exists_foldl_applyAttribute b.attributes
    { name := b.name, fields, documentation := b.documentation }
  rw [hfold]
  refine ⟨hb.name, hb.documentation, ?_, nofun⟩
  intro f hf
  obtain ⟨d, hd, hresolve⟩ := forall_mem_of_mapM hfields f hf
  exact FieldDecl.wellFormed_of_resolve (hb.fields d hd) hresolve

theorem EnumBlock.lexical_resolve {b : EnumBlock} (hb : b.Lexical) : b.resolve.Lexical where
  name := hb.name
  values := List.forall_mem_map.mpr fun v hv => (hb.values v hv).name
  documentation := hb.documentation

end

/-! ### Data sources and generators -/

namespace ConfigBlock
variable {b : ConfigBlock}

theorem lexical_otherEntries (hb : b.Lexical) (known : List String) :
    ∀ e ∈ b.otherEntries known, e.Lexical known := by
  intro e he
  obtain ⟨p, hp, rfl⟩ := List.mem_map.mp he
  obtain ⟨hp, hunknown⟩ := List.mem_filter.mp hp
  obtain ⟨hkey, hvalue⟩ := hb.properties p hp
  exact ⟨hkey, by simpa using hunknown, p.value, hvalue, rfl⟩

theorem lexical_of_resolveDatasource (hb : b.Lexical) {d : DataSource}
    (h : b.resolveDatasource = .ok d) : d.Lexical := by
  obtain ⟨provider, -, h⟩ := exists_of_bind h
  split at h
  · obtain ⟨url, -, h⟩ := exists_of_bind h
    cases h
    exact ⟨hb.name, lexical_otherEntries hb _⟩
  · cases h

theorem lexical_of_resolveGenerator (hb : b.Lexical) {g : Generator}
    (h : b.resolveGenerator = .ok g) : g.Lexical := by
  obtain ⟨provider, -, h⟩ := exists_of_bind h
  obtain ⟨provider, -, h⟩ := exists_of_bind h
  obtain ⟨output, -, h⟩ := exists_of_bind h
  cases h
  exact ⟨hb.name, lexical_otherEntries hb _⟩

end ConfigBlock

/-! ### The whole text -/

namespace Schema

theorem MadeOf.wellFormed {declared : List Declaration} {blocks : List Block} {s : Schema}
    (h : s.MadeOf declared blocks) (hblocks : ∀ b ∈ blocks, b.Lexical) :
    s.WellFormed (declared.map Declaration.pair) where
  models := by
    intro m hm
    obtain ⟨b, hb, hresolve⟩ := forall_mem_of_mapM h.models m hm
    exact ModelBlock.wellFormed_of_resolve (hblocks _ (Block.mem_of_model? hb)) hresolve
  enums := by
    rw [← h.enums, List.forall_mem_map]
    exact fun b hb => EnumBlock.lexical_resolve (hblocks _ (Block.mem_of_enum? hb))
  datasources := by
    intro d hd
    obtain ⟨b, hb, hresolve⟩ := forall_mem_of_mapM h.datasources d hd
    exact ConfigBlock.lexical_of_resolveDatasource (hblocks _ (Block.mem_of_datasource? hb)) hresolve
  generators := by
    intro g hg
    obtain ⟨b, hb, hresolve⟩ := forall_mem_of_mapM h.generators g hg
    exact ConfigBlock.lexical_of_resolveGenerator (hblocks _ (Block.mem_of_generator? hb)) hresolve

/-- **The schema that a text declares is well-formed.** -/
theorem wellFormed_of_ofText {source : String} {s : Schema} (h : ofText source = .ok s) :
    s.WellFormed s.names := by
  obtain ⟨blocks, hblocks, h⟩ := exists_of_bind h
  obtain ⟨declared, hdeclared, h⟩ := exists_of_bind h
  obtain ⟨rfl, -⟩ := Declaration.eq_of_ofBlocks hdeclared
  have hnames := perm_names_of_ofBlocks h
  exact ((madeOf_of_ofBlocks h).wellFormed (Block.lexical_of_ofText hblocks)).mono hnames.symm.subset

end Schema

end Datamodel
