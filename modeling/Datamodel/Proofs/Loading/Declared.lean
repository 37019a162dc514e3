import Datamodel.Proofs.Keyed
import Datamodel.Proofs.Loading.Fragments
import Datamodel.Proofs.Notes.Extraction

/-! The model of a block in the loaded fragment, and the field of a declaration.

No two blocks of a text declare one name, so each model block has its model in the loaded fragment
(`Fragment.exists_model_of_load`), and each field declaration the field of its name. The grammar
gives that field no column name: what it has comes from the notes
(`Fragment.exists_field_of_load`). -/

namespace Datamodel

/-! ### Loaded fields -/

theorem map_eq_of_forall₂ {α β γ : Type} {R : α → β → Prop} {g : α → γ} {g' : β → γ}
    {xs : List α} {ys : List β} (h : List.Forall₂ R xs ys) (hg : ∀ x y, R x y → g x = g' y) :
    xs.map g = ys.map g' :=
  map_eq_map_iff_forall₂.mpr (h.imp hg)

/-- The column name that notes give to a field. -/
def Notes.columnOf? (as : Notes) (model field : String) : Option String := do
  let lines ← as.linesOf? model
  let notes ← LineNote.fieldIn? lines field
  notes.columnName

/-- The secondary indexes that notes give to a model. -/
def Notes.secondaryIndexesOf (as : Notes) (model : String) : List String :=
  ((as.linesOf? model).map LineNote.secondaryIndexesIn).getD []

/-- Notes leave the fields of a model in place, and give them their column names. -/
theorem Model.exists_field_overlay {m : Model} {f : Field} (hf : f ∈ m.fields)
    (hcolumn : f.columnName = none) (lines : List LineNote) :
    ∃ f' ∈ (m.overlay lines).fields, f'.name = f.name ∧
      f'.columnName = (LineNote.fieldIn? lines f.name).bind (·.columnName) := by
  refine ⟨_, List.mem_map_of_mem hf, ?_⟩
  cases LineNote.fieldIn? lines f.name with
  | none => exact ⟨rfl, hcolumn⟩
  | some notes =>
    refine ⟨rfl, ?_⟩
    show f.columnName.or notes.columnName = _
    rw [hcolumn]
    rfl

theorem Model.fieldNames_overlay (m : Model) (lines : List LineNote) :
    (m.overlay lines).fieldNames = m.fieldNames := by
  rw [fieldNames, overlay, List.map_map]
  refine List.map_congr_left fun f _ => ?_
  rw [Function.comp_apply]
  split <;> rfl

/-- A model with what the notes of a text say about it. -/
def Notes.annotate (as : Notes) (m : Model) : Model :=
  match as.linesOf? m.name with
  | some lines => m.overlay lines
  | none => m

theorem Notes.name_annotate (as : Notes) (m : Model) : (as.annotate m).name = m.name := by
  unfold annotate
  split <;> rfl

/-- The secondary indexes of a model are those of its notes. -/
theorem Notes.secondaryIndexes_annotate {m : Model} (h : m.secondaryIndexes = []) (as : Notes) :
    (as.annotate m).secondaryIndexes = as.secondaryIndexesOf m.name := by
  unfold secondaryIndexesOf annotate
  cases as.linesOf? m.name with
  | none => exact h
  | some lines => rfl

theorem Notes.exists_field_annotate {m : Model} {f : Field} (hf : f ∈ m.fields)
    (hcolumn : f.columnName = none) (as : Notes) :
    (as.annotate m).fieldNames = m.fieldNames ∧ ∃ f' ∈ (as.annotate m).fields,
      f'.name = f.name ∧ f'.columnName = as.columnOf? m.name f.name := by
  unfold columnOf? annotate
  cases as.linesOf? m.name with
  | none => exact ⟨rfl, f, hf, rfl, hcolumn⟩
  | some lines =>
    exact ⟨Model.fieldNames_overlay m lines, Model.exists_field_overlay hf hcolumn lines⟩

section
variable {origin source : String} {fragment : Fragment} {blocks : List Block}

theorem Fragment.exists_load {s : Schema} (origin : String)
    (h : Schema.ofText (String.ofList (Text.dropMark source.toList)) = .ok s) :
    ∃ fragment, Fragment.load origin source = .ok fragment :=
  ⟨_, by rw [load, h]⟩

/-- The models of a loaded fragment are those of its blocks, with their notes. -/
theorem Fragment.exists_models_of_load (h : Fragment.load origin source = .ok fragment)
    (hblocks : Block.ofText (String.ofList (Text.dropMark source.toList)) = .ok blocks) :
    ∃ declared s, Declaration.ofBlocks blocks = .ok declared ∧
      Schema.ofBlocks declared blocks = .ok s ∧ fragment.schema.models =
        (Notes.extract (Text.dropMark source.toList)).overlay s.models := by
  obtain ⟨s, hs, rfl⟩ := exists_schema_of_load h
  rw [Schema.ofText, hblocks] at hs
  obtain ⟨declared, hdeclared, hs⟩ := exists_of_bind (show resolve blocks = .ok s from hs)
  exact ⟨declared, s, hdeclared, hs, rfl⟩

/-- The model of a block is in the loaded fragment, with its notes. -/
theorem Fragment.exists_model_of_load (h : Fragment.load origin source = .ok fragment)
    (hblocks : Block.ofText (String.ofList (Text.dropMark source.toList)) = .ok blocks)
    {b : ModelBlock} (hb : .model b ∈ blocks) :
    ∃ declared m, b.resolve declared = .ok m ∧ fragment.schema.model? b.name =
      some ((Notes.extract (Text.dropMark source.toList)).annotate m) := by
  obtain ⟨declared, s, hdeclared, hs, hoverlay⟩ := exists_models_of_load h hblocks
  have hmodels := forall₂_of_mapM (Schema.models_of_ofBlocks hs)
  have hnames : (fragment.schema.models.map (·.name)).Nodup := by
    rw [hoverlay, Notes.map_name_overlay,
      ← map_eq_of_forall₂ hmodels fun b m hm => (ModelBlock.fields_of_resolve hm).1.symm]
    exact Block.nodup_models hdeclared
  obtain ⟨m, hm, hresolve⟩ :=
    exists_of_forall₂_left hmodels b (List.mem_filterMap.mpr ⟨_, hb, rfl⟩)
  refine ⟨declared, m, hresolve, ?_⟩
  have hmem :
      (Notes.extract (Text.dropMark source.toList)).annotate m ∈ fragment.schema.models := by
    rw [hoverlay]
    exact List.mem_map_of_mem hm
  have hmodel := find?_of_nodup hnames hmem
  rwa [Notes.name_annotate, (ModelBlock.fields_of_resolve hresolve).1] at hmodel

/-- **The field of a declaration** is in the loaded fragment, with the column name of its notes. -/
theorem Fragment.exists_field_of_load (h : Fragment.load origin source = .ok fragment)
    (hblocks : Block.ofText (String.ofList (Text.dropMark source.toList)) = .ok blocks)
    {b : ModelBlock} (hb : .model b ∈ blocks) (hnodup : (b.fields.map (·.name)).Nodup)
    {f : FieldDecl} (hf : f ∈ b.fields) :
    ∃ m f', fragment.schema.model? b.name = some m ∧ m.field? f.name = some f' ∧
      f'.columnName =
        (Notes.extract (Text.dropMark source.toList)).columnOf? b.name f.name := by
  obtain ⟨declared, m, hresolve, hmodel⟩ := exists_model_of_load h hblocks hb
  obtain ⟨hname, hfields, -⟩ := ModelBlock.fields_of_resolve hresolve
  have hfields := forall₂_of_mapM hfields
  obtain ⟨decl, hdecl, hfield⟩ := exists_of_forall₂_left hfields f hf
  obtain ⟨hdeclName, hcolumn⟩ := FieldDecl.names_of_resolve hfield
  obtain ⟨hfieldNames, f', hf', hfname, hcolumn'⟩ :=
    Notes.exists_field_annotate hdecl hcolumn (Notes.extract (Text.dropMark source.toList))
  have hnodup' : m.fieldNames.Nodup := by
    rw [Model.fieldNames,
      ← map_eq_of_forall₂ hfields fun d f hf => (FieldDecl.names_of_resolve hf).1.symm]
    exact hnodup
  rw [← hfieldNames] at hnodup'
  have hfound := find?_of_nodup hnodup' hf'
  rw [hfname, hdeclName] at hfound
  rw [hname, hdeclName] at hcolumn'
  exact ⟨_, f', hmodel, hfound, hcolumn'⟩

end

end Datamodel
