import Datamodel.Proofs.Schema.Models
import Datamodel.Resolution

/-! What declarations and blocks are resolved to.

A field, a model and a schema that come out of a resolution are told apart into what each part is
made of (`FieldDecl.resolvedFrom_of_resolve`, `ModelBlock.fields_of_resolve`,
`Schema.madeOf_of_ofBlocks`). No two blocks of a text declare one name, and the names of its schema
are those that its blocks declare (`Schema.perm_names_of_ofBlocks`). -/

namespace Datamodel

/-! ### Fields -/

/-- Attributes change the flags and the default of a field. -/
theorem Field.exists_foldl_applyAttribute (as : List Attribute) (f : Field) :
    ∃ isId isUnique isUpdatedAt default, as.foldl applyAttribute f =
      { f with isId, isUnique, isUpdatedAt, default } := by
  induction as generalizing f with
  | nil => exact ⟨_, _, _, _, rfl⟩
  | cons a as ih =>
    obtain ⟨isId, isUnique, isUpdatedAt, default, h⟩ := ih (f.applyAttribute a)
    rw [List.foldl_cons, h]
    unfold applyAttribute
    split <;> exact ⟨_, _, _, _, rfl⟩

theorem Relation.map_of_resolve {model target : String} {attr : Option Attribute} {r : Relation}
    (h : Relation.resolve model target attr = .ok r) : r.map = none := by
  unfold Relation.resolve at h
  split at h
  · cases h
    rfl
  · obtain ⟨onDelete, -, h⟩ := exists_of_bind h
    cases h
    rfl

section
variable {declared : List Declaration} {model : String}

/-- The field that a declaration is resolved to. Its default is what the attributes leave of none,
and it has a relation just if its type is a model. -/
structure Field.ResolvedFrom (declared : List Declaration) (model : String) (d : FieldDecl)
    (f : Field) : Prop where
  name : f.name = d.name
  kind : d.kind declared model = .ok f.kind
  type : f.type = d.type.toText
  isList : f.isList = decide (d.arity = .list)
  isRequired : f.isRequired = decide (d.arity = .required)
  default : ∃ start : Field, start.kind = f.kind ∧ start.default = none ∧
    f.default = (d.attributes.foldl Field.applyAttribute start).default
  columnName : f.columnName = none
  relation : f.kind ≠ .object ∧ f.relation = none ∨ f.kind = .object ∧ ∃ r,
    Relation.resolve model f.type (d.attribute? "relation") = .ok r ∧ f.relation = some r
  documentation : f.documentation = d.documentation

theorem FieldDecl.resolvedFrom_of_resolve {d : FieldDecl} {f : Field}
    (h : d.resolve declared model = .ok f) : f.ResolvedFrom declared model d := by
  obtain ⟨kind, hkind, h⟩ := exists_of_bind h
  let start : Field := {
    name := d.name
    kind
    type := d.type.toText
    isList := d.arity = .list
    isRequired := d.arity = .required
    documentation := d.documentation }
  obtain ⟨isId, isUnique, isUpdatedAt, default, hfold⟩ :=
    Field.exists_foldl_applyAttribute d.attributes start
  have hdefault : default = (d.attributes.foldl Field.applyAttribute start).default := by
    rw [hfold]
  rw [hfold] at h
  split at h
  · next hobject =>
    obtain ⟨relation, hrelation, h⟩ := exists_of_bind h
    cases h
    exact ⟨rfl, hkind, rfl, rfl, rfl, ⟨start, rfl, rfl, hdefault⟩, rfl,
      .inr ⟨hobject, relation, hrelation, rfl⟩, rfl⟩
  · next hobject =>
    cases h
    exact ⟨rfl, hkind, rfl, rfl, rfl, ⟨start, rfl, rfl, hdefault⟩, rfl, .inl ⟨hobject, rfl⟩, rfl⟩

/-- The grammar gives a field its name, and no column name. -/
theorem FieldDecl.names_of_resolve {d : FieldDecl} {f : Field}
    (h : d.resolve declared model = .ok f) : f.name = d.name ∧ f.columnName = none :=
  ⟨(resolvedFrom_of_resolve h).name, (resolvedFrom_of_resolve h).columnName⟩

/-! ### Models -/

/-- Attributes change the indexes of a model and its name in the database. -/
theorem Model.exists_foldl_applyAttribute (as : List Attribute) (m : Model) :
    ∃ dbName uniqueIndexes uniqueFields primaryKey, as.foldl applyAttribute m =
      { m with dbName, uniqueIndexes, uniqueFields, primaryKey } := by
  induction as generalizing m with
  | nil => exact ⟨_, _, _, _, rfl⟩
  | cons a as ih =>
    obtain ⟨dbName, uniqueIndexes, uniqueFields, primaryKey, h⟩ := ih (m.applyAttribute a)
    rw [List.foldl_cons, h]
    unfold applyAttribute
    split <;> exact ⟨_, _, _, _, rfl⟩

/-- A model has the fields of its block, in their order, and the grammar gives it no secondary
index. -/
theorem ModelBlock.fields_of_resolve {b : ModelBlock} {m : Model}
    (h : b.resolve declared = .ok m) :
    m.name = b.name ∧ b.fields.mapM (FieldDecl.resolve declared b.name) = .ok m.fields ∧
      m.secondaryIndexes = [] := by
  obtain ⟨fields, hfields, h⟩ := exists_of_bind h
  cases h
  obtain ⟨_, _, _, _, hfold⟩ := Model.exists_foldl_applyAttribute b.attributes
    { name := b.name, fields, documentation := b.documentation }
  rw [hfold]
  exact ⟨rfl, hfields, rfl⟩

end

/-! ### Blocks by their kind -/

/-- The block as a model or view, if it is one. -/
def Block.model? : Block → Option ModelBlock
  | .model b => some b
  | .enum _ | .datasource _ | .generator _ => none

def Block.enum? : Block → Option EnumBlock
  | .enum b => some b
  | .model _ | .datasource _ | .generator _ => none

def Block.datasource? : Block → Option ConfigBlock
  | .datasource b => some b
  | .model _ | .enum _ | .generator _ => none

def Block.generator? : Block → Option ConfigBlock
  | .generator b => some b
  | .model _ | .enum _ | .datasource _ => none

section
variable {blocks : List Block}

theorem Block.mem_of_model? {b : ModelBlock} (h : b ∈ blocks.filterMap model?) :
    .model b ∈ blocks := by
  obtain ⟨block, hblock, hb⟩ := List.mem_filterMap.mp h
  cases block <;> cases hb
  exact hblock

theorem Block.mem_of_enum? {b : EnumBlock} (h : b ∈ blocks.filterMap enum?) : .enum b ∈ blocks := by
  obtain ⟨block, hblock, hb⟩ := List.mem_filterMap.mp h
  cases block <;> cases hb
  exact hblock

theorem Block.mem_of_datasource? {b : ConfigBlock} (h : b ∈ blocks.filterMap datasource?) :
    .datasource b ∈ blocks := by
  obtain ⟨block, hblock, hb⟩ := List.mem_filterMap.mp h
  cases block <;> cases hb
  exact hblock

theorem Block.mem_of_generator? {b : ConfigBlock} (h : b ∈ blocks.filterMap generator?) :
    .generator b ∈ blocks := by
  obtain ⟨block, hblock, hb⟩ := List.mem_filterMap.mp h
  cases block <;> cases hb
  exact hblock

end

/-! ### Declared names -/

/-- The names of declarations, and what they name. -/
def Declaration.pair (d : Declaration) : String × FieldKind := (d.name, d.kind)

theorem FieldKind.mem_of_ofName? {declared : List Declaration} {name : String} {kind : FieldKind}
    (h : ofName? declared name = some kind) :
    name ∈ scalarTypes ∧ kind = .scalar ∨
      name ∉ scalarTypes ∧ (name, kind) ∈ declared.map Declaration.pair := by
  rw [ofName?] at h
  split at h
  · next hscalar =>
    cases h
    exact .inl ⟨hscalar, rfl⟩
  · next hscalar =>
    obtain ⟨d, hd, rfl⟩ := Option.map_eq_some_iff.mp h
    have hname : d.name = name := by simpa using List.find?_some hd
    refine .inr ⟨hscalar, ?_⟩
    rw [← hname]
    exact List.mem_map_of_mem (List.mem_of_find?_eq_some hd)

theorem Declaration.nodup_of_firstRepeat {ds : List Declaration} {seen : List String}
    (h : firstRepeat seen ds = none) : (ds.map (·.name)).Nodup ∧ ∀ d ∈ ds, d.name ∉ seen := by
  induction ds generalizing seen with
  | nil => exact ⟨.nil, nofun⟩
  | cons d ds ih =>
    rw [firstRepeat] at h
    split at h
    · cases h
    · next hd =>
      obtain ⟨hnodup, hseen⟩ := ih h
      refine ⟨List.nodup_cons.mpr ⟨fun hmem => ?_, hnodup⟩, List.forall_mem_cons.mpr ⟨hd, ?_⟩⟩
      · obtain ⟨d', hd', heq⟩ := List.mem_map.mp hmem
        exact hseen d' hd' (heq ▸ List.mem_cons_self)
      · exact fun d' hd' hmem => hseen d' hd' (List.mem_cons_of_mem _ hmem)

section
variable {blocks : List Block} {declared : List Declaration} {s : Schema}

/-- The declarations of a text are those of its blocks, and no two of them have one name. -/
theorem Declaration.eq_of_ofBlocks (h : ofBlocks blocks = .ok declared) :
    declared = blocks.filterMap Block.declaration? ∧ (declared.map (·.name)).Nodup := by
  simp only [ofBlocks] at h
  split at h
  · next hnone =>
    cases h
    exact ⟨rfl, (nodup_of_firstRepeat hnone).1⟩
  · cases h

/-- No two models of a text have one name. -/
theorem Block.nodup_models (h : Declaration.ofBlocks blocks = .ok declared) :
    ((blocks.filterMap model?).map (·.name)).Nodup := by
  obtain ⟨rfl, hnodup⟩ := Declaration.eq_of_ofBlocks h
  refine List.Sublist.nodup ?_ hnodup
  clear h hnodup
  induction blocks with
  | nil => exact .slnil
  | cons b blocks ih =>
    cases b with
    | model b => exact ih.cons_cons b.name
    | enum b => exact ih.cons b.name
    | datasource b | generator b => exact ih

/-! ### From blocks to the schema -/

/-- The schema holds what the blocks make, kind by kind and in their order, if `declared` are the
declared types. -/
structure Schema.MadeOf (declared : List Declaration) (blocks : List Block) (s : Schema) :
    Prop where
  models : (blocks.filterMap Block.model?).mapM (ModelBlock.resolve declared) = .ok s.models
  enums : (blocks.filterMap Block.enum?).map EnumBlock.resolve = s.enums
  datasources :
    (blocks.filterMap Block.datasource?).mapM ConfigBlock.resolveDatasource = .ok s.datasources
  generators :
    (blocks.filterMap Block.generator?).mapM ConfigBlock.resolveGenerator = .ok s.generators

theorem Schema.madeOf_of_ofBlocks (h : ofBlocks declared blocks = .ok s) :
    s.MadeOf declared blocks := by
  induction blocks generalizing s with
  | nil =>
    cases h
    exact ⟨rfl, rfl, rfl, rfl⟩
  | cons b blocks ih =>
    obtain ⟨one, hone, h⟩ := exists_of_bind h
    obtain ⟨more, hmore, h⟩ := exists_of_bind h
    cases h
    obtain ⟨hmodels, henums, hdatasources, hgenerators⟩ := ih hmore
    cases b with
    | model b =>
      obtain ⟨m, hm, hone⟩ := exists_of_bind hone
      cases hone
      exact ⟨mapM_cons_of_ok hm hmodels, henums, hdatasources, hgenerators⟩
    | enum b =>
      cases hone
      exact ⟨hmodels, congrArg (b.resolve :: ·) henums, hdatasources, hgenerators⟩
    | datasource b =>
      obtain ⟨d, hd, hone⟩ := exists_of_bind hone
      cases hone
      exact ⟨hmodels, henums, mapM_cons_of_ok hd hdatasources, hgenerators⟩
    | generator b =>
      obtain ⟨g, hg, hone⟩ := exists_of_bind hone
      cases hone
      exact ⟨hmodels, henums, hdatasources, mapM_cons_of_ok hg hgenerators⟩

/-- The models of a text, in the order of their blocks. -/
theorem Schema.models_of_ofBlocks (h : ofBlocks declared blocks = .ok s) :
    (blocks.filterMap Block.model?).mapM (ModelBlock.resolve declared) = .ok s.models :=
  (madeOf_of_ofBlocks h).models

/-! ### Names of the schema -/

theorem Schema.names_append_perm (s t : Schema) : (s ++ t).names.Perm (s.names ++ t.names) := by
  show ((s.models ++ t.models).map _ ++ (s.enums ++ t.enums).map _).Perm _
  rw [List.map_append, List.map_append, names, names, List.append_assoc, List.append_assoc]
  refine List.Perm.append_left _ ?_
  rw [← List.append_assoc, ← List.append_assoc]
  exact List.Perm.append_right _ List.perm_append_comm

/-- A block declares one name, or none. -/
theorem Schema.names_of_block {b : Block} (h : b.resolve declared = .ok s) :
    s.names = (b.declaration?.map Declaration.pair).toList := by
  cases b with
  | model b =>
    obtain ⟨m, hm, h⟩ := exists_of_bind h
    cases h
    rw [Block.declaration?, ← (ModelBlock.fields_of_resolve hm).1]
    rfl
  | enum b =>
    cases h
    rfl
  | datasource b =>
    obtain ⟨d, -, h⟩ := exists_of_bind h
    cases h
    rfl
  | generator b =>
    obtain ⟨g, -, h⟩ := exists_of_bind h
    cases h
    rfl

/-- A schema has the names of its blocks, those of its models first. -/
theorem Schema.perm_names_of_ofBlocks (h : ofBlocks declared blocks = .ok s) :
    s.names.Perm ((blocks.filterMap Block.declaration?).map Declaration.pair) := by
  induction blocks generalizing s with
  | nil =>
    cases h
    exact .nil
  | cons b blocks ih =>
    obtain ⟨one, hone, h⟩ := exists_of_bind h
    obtain ⟨more, hmore, h⟩ := exists_of_bind h
    cases h
    refine (names_append_perm one more).trans ?_
    rw [names_of_block hone, List.filterMap_cons]
    cases b.declaration? with
    | none => exact ih hmore
    | some d => exact (ih hmore).cons d.pair

end

end Datamodel
