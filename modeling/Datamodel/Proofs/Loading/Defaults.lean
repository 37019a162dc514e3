import Datamodel.Proofs.Loading.Declared

/-! The default of a loaded field.

Of the `@default` attributes of a declaration the last one with a positional argument counts
(`Attribute.default?`), and its expression is read by the kind of the field. The notes of the lines
take no part in it. So a loaded field has the type, the kind and the default of its declaration
(`Fragment.declaredBy_of_load`). -/

namespace Datamodel

/-! ### One field -/

/-- The expression that attributes give for a default. -/
def Attribute.default? (as : List Attribute) : Option Expr :=
  ((as.filter (·.name == "default")).filterMap positional?).getLast?

theorem Attribute.default?_cons (a : Attribute) (as : List Attribute) :
    default? (a :: as) =
      (default? as).or (if a.name = "default" then a.positional? else none) := by
  by_cases hname : a.name = "default"
  · cases hvalue : a.positional? with
    | none => simp [default?, hname, hvalue]
    | some e =>
      cases hlater : ((as.filter (·.name == "default")).filterMap positional?).getLast? <;>
        simp [default?, hname, hvalue, List.getLast?_cons, hlater]
  · simp [default?, hname]

theorem Attribute.default?_append (as bs : List Attribute) :
    default? (as ++ bs) = (default? bs).or (default? as) := by
  simp [default?]

/-- What one attribute does to a default. -/
theorem Field.default_applyAttribute (f : Field) (a : Attribute) :
    (f.applyAttribute a).kind = f.kind ∧ (f.applyAttribute a).default =
      ((if a.name = "default" then a.positional? else none).map (Expr.toDefault f.kind)).or
        f.default := by
  unfold applyAttribute
  split
  · next hname => simp [hname]
  · next hname => simp [hname]
  · next hname => simp [hname]
  · next hname => simp [hname]
  · next hname =>
    rw [if_neg hname]
    exact ⟨rfl, rfl⟩

/-- **The last default counts**, of those that attributes give. -/
theorem Field.default_foldl_applyAttribute (as : List Attribute) (f : Field) :
    (as.foldl applyAttribute f).default =
      ((Attribute.default? as).map (Expr.toDefault f.kind)).or f.default := by
  induction as generalizing f with
  | nil => rfl
  | cons a as ih =>
    obtain ⟨hkind, hdefault⟩ := f.default_applyAttribute a
    rw [List.foldl_cons, ih, hkind, hdefault, Attribute.default?_cons, ← Option.or_assoc,
      Option.map_or]

/-- A field and the declaration that it comes from. -/
structure Field.DeclaredBy (declared : List Declaration) (model : String) (d : FieldDecl)
    (f : Field) : Prop where
  name : f.name = d.name
  kind : d.kind declared model = .ok f.kind
  type : f.type = d.type.toText
  default : f.default = (Attribute.default? d.attributes).map (Expr.toDefault f.kind)

section
variable {declared : List Declaration}

theorem FieldDecl.declaredBy_of_resolve {d : FieldDecl} {model : String} {f : Field}
    (h : d.resolve declared model = .ok f) : f.DeclaredBy declared model d := by
  have hf := d.resolvedFrom_of_resolve h
  refine ⟨hf.name, hf.kind, hf.type, ?_⟩
  obtain ⟨start, hkind, hnone, hdefault⟩ := hf.default
  rw [hdefault, Field.default_foldl_applyAttribute, hkind, hnone, Option.or_none]

/-- The notes of a line say nothing on the default. -/
theorem Field.DeclaredBy.overlay {d : FieldDecl} {model : String} {f : Field}
    (h : f.DeclaredBy declared model d) (notes : FieldNotes) :
    (f.overlay notes).DeclaredBy declared model d :=
  ⟨h.name, h.kind, h.type, h.default⟩

/-! ### Models -/

/-- A model has the name of its block, and a field for each declaration. -/
def Model.DeclaredBy (declared : List Declaration) (b : ModelBlock) (m : Model) : Prop :=
  m.name = b.name ∧ List.Forall₂ (Field.DeclaredBy declared b.name) b.fields m.fields

theorem ModelBlock.declaredBy_of_resolve {b : ModelBlock} {m : Model}
    (h : b.resolve declared = .ok m) : m.DeclaredBy declared b := by
  obtain ⟨hname, hfields, -⟩ := ModelBlock.fields_of_resolve h
  exact ⟨hname, (forall₂_of_mapM hfields).imp fun _ _ => FieldDecl.declaredBy_of_resolve⟩

theorem Model.DeclaredBy.annotate {b : ModelBlock} {m : Model} (h : m.DeclaredBy declared b)
    (as : Notes) : (as.annotate m).DeclaredBy declared b := by
  obtain ⟨hname, hfields⟩ := h
  refine ⟨(as.name_annotate m).trans hname, ?_⟩
  unfold Notes.annotate
  split
  · rw [overlay, List.forall₂_map_right_iff]
    refine hfields.imp fun d f hf => ?_
    split
    · exact hf.overlay _
    · exact hf
  · exact hfields

end

/-! ### Loaded fragments -/

section
variable {origin source : String} {fragment : Fragment} {blocks : List Block}

theorem Fragment.exists_blocks_of_load (h : Fragment.load origin source = .ok fragment) :
    ∃ blocks, Block.ofText (String.ofList (Text.dropMark source.toList)) = .ok blocks := by
  obtain ⟨s, hs, -⟩ := exists_schema_of_load h
  obtain ⟨blocks, hblocks, -⟩ := exists_of_bind hs
  exact ⟨blocks, hblocks⟩

/-- **The fields of a loaded fragment** are those of its declarations, block by block. -/
theorem Fragment.declaredBy_of_load (h : Fragment.load origin source = .ok fragment)
    (hblocks : Block.ofText (String.ofList (Text.dropMark source.toList)) = .ok blocks) :
    ∃ declared, Declaration.ofBlocks blocks = .ok declared ∧
      List.Forall₂ (Model.DeclaredBy declared) (blocks.filterMap Block.model?)
        fragment.schema.models := by
  obtain ⟨declared, s, hdeclared, hs, hmodels⟩ := exists_models_of_load h hblocks
  refine ⟨declared, hdeclared, ?_⟩
  rw [hmodels, Notes.overlay, List.forall₂_map_right_iff]
  exact (forall₂_of_mapM (Schema.models_of_ofBlocks hs)).imp fun b m hm =>
    (ModelBlock.declaredBy_of_resolve hm).annotate _

/-- Every model of a loaded fragment is that of a block, with its notes. -/
theorem Fragment.exists_block_of_mem (h : Fragment.load origin source = .ok fragment) {m : Model}
    (hm : m ∈ fragment.schema.models) :
    ∃ blocks declared b m', Block.ofText (String.ofList (Text.dropMark source.toList)) = .ok blocks ∧
      .model b ∈ blocks ∧ b.resolve declared = .ok m' ∧
      m = (Notes.extract (Text.dropMark source.toList)).annotate m' := by
  obtain ⟨blocks, hblocks⟩ := exists_blocks_of_load h
  obtain ⟨declared, s, -, hs, hmodels⟩ := exists_models_of_load h hblocks
  rw [hmodels] at hm
  obtain ⟨m', hm', rfl⟩ := List.mem_map.mp hm
  obtain ⟨b, hb, hresolve⟩ := forall_mem_of_mapM (Schema.models_of_ofBlocks hs) m' hm'
  exact ⟨blocks, declared, b, m', hblocks, Block.mem_of_model? hb, hresolve, rfl⟩

end

end Datamodel
