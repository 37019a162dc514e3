import Datamodel.Proofs.Loading.Texts
import Datamodel.Proofs.Schema.Config
import Datamodel.Proofs.Schema.Structure

/-! Which declarations the text of a schema holds.

The fields of a relation or an index need not be identifiers, so not every schema is read back from
its text. But where each default, native type and secondary index is printed as one attribute, the
text holds the blocks of the schema, and in each model a declaration for each field, in its place
(`Schema.exists_blocks_of_toText`). -/

namespace Datamodel

open PrintedAttribute
open Printer (indexLine nameList)
open Token (IsName)

/-! ### Lists of texts -/

theorem IsExprText.exists_array {names : List String} (h : ∀ n ∈ names, IsExprText n) :
    ∃ e : Expr, e.Lexical ∧ e.toText = nameList names := by
  obtain ⟨items, hlexical, htexts⟩ : ∃ items : List Expr,
      (∀ e ∈ items, e.Lexical) ∧ items.map Expr.toText = names := by
    induction names with
    | nil => exact ⟨[], nofun, rfl⟩
    | cons n names ih =>
      obtain ⟨⟨e, he, rfl⟩, hnames⟩ := List.forall_mem_cons.mp h
      obtain ⟨items, hitems, rfl⟩ := ih hnames
      exact ⟨e :: items, List.forall_mem_cons.mpr ⟨he, hitems⟩, rfl⟩
  refine ⟨.array items, .array hlexical, ?_⟩
  rw [Expr.toText, Expr.textList_eq_map, htexts]
  rfl

/-! ### The attributes of a field -/

namespace Attribute

/-- Attributes of other names give no default. -/
theorem default?_of_printed {ps : List (PrintedAttribute .marker)}
    (h : ∀ a ∈ ps, a.name ≠ "default") (n : Nat) : default? (ps.map (·.toAttribute n)) = none := by
  have hfilter : (ps.map (·.toAttribute n)).filter (·.name == "default") = [] :=
    List.filter_eq_nil_iff.mpr (List.forall_mem_map.mpr fun a ha => by
      simpa [Form.toAttribute] using h a ha)
  rw [default?, hfilter]
  rfl

end Attribute

namespace Field
variable {f : Field}

/-- The text of a relation, if there is any, is an attribute. -/
theorem exists_printed_relation (h : ∀ r ∈ f.relation, r.Sourced) :
    ∃ ps : List (PrintedAttribute .marker),
      ps.map (·.text) = (f.relation.map Relation.toText).toList.filter (!·.isEmpty) ∧
        ∀ a ∈ ps, a.name ≠ "default" := by
  cases hr : f.relation with
  | none => exact ⟨[], rfl, nofun⟩
  | some r =>
    by_cases hnamed : r.fromFields.isEmpty = true → r.name.isEmpty = false
    · obtain ⟨froms, hfroms, hfromText⟩ := IsExprText.exists_array (h r hr).fromFields
      obtain ⟨tos, htos, htoText⟩ := IsExprText.exists_array (h r hr).toFields
      have hprints : PrintsAs .marker [r.toText] [⟨"relation", r.argsWith froms tos⟩] := by
        rw [Relation.toText_argsWith hnamed hfromText htoText]
        exact PrintsAs.call .field (by decide) (r.lexical_argsWith hfroms htos)
      obtain ⟨ps, htexts, hnames⟩ :=
        hprints.exists_printed (p := fun form => form.name ≠ "default") (by simp)
      refine ⟨ps, ?_, hnames⟩
      rw [htexts, Option.map_some, Option.toList_some, hprints.filter_eq]
    · -- Without a link and without a name there is no text.
      have hempty : r.toText = "" := by
        simp only [Classical.not_imp, Bool.not_eq_false] at hnamed
        rw [Relation.toText, if_pos hnamed.1, if_pos hnamed.2]
      refine ⟨[], ?_, nofun⟩
      rw [Option.map_some, Option.toList_some, hempty]
      rfl

/-- **The attributes of a field** are read as attributes, and only its default is one named so. -/
theorem exists_attributes {o : Option (PrintedAttribute .marker)}
    (ho : ∀ a ∈ o, a.name = "default")
    (hnative : ∀ t ∈ f.nativeType, ∃ a : PrintedAttribute .marker, a.text = t ∧ a.name ≠ "default")
    (hrelation : ∀ r ∈ f.relation, r.Sourced) :
    ∃ ps : List (PrintedAttribute .marker),
      (f.attributeTexts (o.map (·.text))).filter (!·.isEmpty) = ps.map (·.text) ∧
        ∀ n, Attribute.default? (ps.map (·.toAttribute n)) =
          o.bind fun a => (a.toAttribute n).positional? := by
  obtain ⟨front, hfront, hfrontNames⟩ := f.printsAs_front.exists_printed
    (p := fun form => form.name ≠ "default") (by
      cases f.isId <;> cases f.isUnique <;> cases f.isUpdatedAt <;> cases f.columnName <;> simp)
  obtain ⟨stored, hstored, hstoredNames⟩ : ∃ stored : List (PrintedAttribute .marker),
      stored.map (·.text) = f.nativeType.toList ∧ ∀ a ∈ stored, a.name ≠ "default" := by
    cases ht : f.nativeType with
    | none => exact ⟨[], rfl, nofun⟩
    | some t =>
      obtain ⟨a, rfl, ha⟩ := hnative t ht
      exact ⟨[a], rfl, List.forall_mem_singleton.mpr ha⟩
  obtain ⟨relation, hrelationText, hrelationNames⟩ := exists_printed_relation hrelation
  refine ⟨front ++ o.toList ++ stored ++ relation, ?_, fun n => ?_⟩
  · have htexts : f.attributeTexts (o.map (·.text)) =
        (front ++ o.toList ++ stored).map (·.text) ++ (f.relation.map Relation.toText).toList := by
      rw [List.map_append, List.map_append, hfront, hstored, ← Option.toList_map]
      rfl
    rw [htexts, List.filter_append, PrintsAs.filter_eq ⟨_, rfl, rfl⟩, ← hrelationText]
    exact List.map_append.symm
  · have hdefault : Attribute.default? (o.toList.map (·.toAttribute n)) =
        o.bind fun a => (a.toAttribute n).positional? := by
      cases o with
      | none => rfl
      | some a =>
        have ha : (a.toAttribute n).name = "default" := ho a rfl
        show Attribute.default? [a.toAttribute n] = _
        rw [Attribute.default?_cons, if_pos ha]
        rfl
    rw [List.map_append, List.map_append, List.map_append, Attribute.default?_append,
      Attribute.default?_append, Attribute.default?_append,
      Attribute.default?_of_printed hrelationNames, Attribute.default?_of_printed hstoredNames,
      Attribute.default?_of_printed hfrontNames, hdefault, Option.none_or, Option.none_or,
      Option.or_none]

end Field

/-! ### What the text of a schema shows -/

section
variable {P : Field → Option Expr → Prop}

/-- A declaration of the name and the type of a field, the expression of whose default is as `P`
says. -/
structure FieldDecl.Shows (P : Field → Option Expr → Prop) (d : FieldDecl) (f : Field) : Prop where
  name : d.name = f.name
  type : d.type = .named f.type
  default : P f (Attribute.default? d.attributes)

/-- A block of the name of a model, with a declaration for each field. -/
structure ModelBlock.Shows (P : Field → Option Expr → Prop) (b : ModelBlock) (m : Model) : Prop where
  name : b.name = m.name
  fields : List.Forall₂ (FieldDecl.Shows P) b.fields m.fields

/-- A block that declares the names of the schema `s`, and shows its models. -/
structure Block.Shows (P : Field → Option Expr → Prop) (s : Schema) (b : Block) : Prop where
  names : (b.declaration?.map fun d => (d.name, d.kind)).toList = s.names
  models : List.Forall₂ (ModelBlock.Shows P) b.model?.toList s.models

/-- A block other than a model shows no model. -/
theorem Block.Declares.shows {s : Schema} {b : Block} (h : b.Declares s) (hs : s.models = []) :
    b.Shows P s where
  names := h.names
  models := by
    have hnames := h.names
    rw [Schema.names, hs, List.map_nil, List.nil_append] at hnames
    rw [hs]
    cases b with
    | model b =>
      have hmem : (b.name, FieldKind.object) ∈ s.enums.map fun e => (e.name, FieldKind.enum) := by
        rw [← hnames]
        exact List.mem_singleton.mpr rfl
      simp at hmem
    | enum | datasource | generator => exact .nil

/-- A field whose default, if it has one, is printed as one attribute, which `P` holds of. -/
structure Field.Shown (P : Field → Option Expr → Prop) (f : Field) : Prop where
  name : IsName f.name
  type : IsName f.type
  supported : f.kind ≠ .unsupported
  documentation : IsDocumentation f.documentation
  default : ∃ o : Option (PrintedAttribute .marker),
    (∀ model, f.default.mapM (f.defaultText model) = .ok (o.map (·.text))) ∧
    (∀ a ∈ o, a.name = "default") ∧ ∀ n, P f (o.bind fun a => (a.toAttribute n).positional?)
  nativeType : ∀ t ∈ f.nativeType, ∃ a : PrintedAttribute .marker, a.text = t ∧ a.name ≠ "default"
  relation : ∀ r ∈ f.relation, r.Sourced

theorem Field.Shown.hasLine {f : Field} (h : f.Shown P) (model : String) :
    f.HasLine (ModelItem.Stands (FieldDecl.Shows P)) model (.inl f) := by
  obtain ⟨o, htext, hnames, hdefault⟩ := h.default
  obtain ⟨ps, htexts, hps⟩ := exists_attributes hnames h.nativeType h.relation
  refine ⟨h.documentation, " ".intercalate ((f.name ++ " " ++ f.type ++ f.modifier) ::
    ps.map (·.text)), ?_, ?_⟩
  · rw [toText, if_neg h.supported, htext, ← htexts]
    rfl
  · refine itemLine_of_texts h.name h.type ps fun n => ⟨rfl, rfl, ?_⟩
    show P f (Attribute.default? (ps.map (·.toAttribute n)))
    rw [hps]
    exact hdefault n

/-- A model whose fields are shown and whose indexes are printed as attributes. -/
structure Model.Shown (P : Field → Option Expr → Prop) (m : Model) : Prop
    extends m.HasSourcedIndexes where
  name : IsName m.name
  documentation : IsDocumentation m.documentation
  fields : ∀ f ∈ m.fields, f.Shown P
  secondaryIndexes : ∀ t ∈ m.secondaryIndexes, ∃ a : PrintedAttribute .blockMarker, a.text = t

theorem Model.Shown.exists_attributeLines {m : Model} (h : m.Shown P) :
    ∃ forms, PrintsAs .blockMarker m.attributeLines forms := by
  have hindex (n : String) (hn : IsName n) {i : Index} (hi : ∀ n ∈ i.fields, IsExprText n) :
      ∃ a : PrintedAttribute .blockMarker, a.text = indexLine ("@@" ++ n) i := by
    obtain ⟨fields, hlexical, htext⟩ := IsExprText.exists_array hi
    exact (Index.printsAs_indexLine hn hlexical htext).exists_of_mem _ List.mem_cons_self
  have hlines : ∀ t ∈ m.attributeLines,
      ∃ a : PrintedAttribute .blockMarker, a.text = t ∧ a.name ∉ ([] : List String) := by
    simp only [Model.attributeLines, List.mem_append, List.mem_map, Option.mem_toList,
      Option.map_eq_some_iff, List.not_mem_nil, not_false_eq_true, and_true]
    rintro t (((⟨i, hi, rfl⟩ | ht) | ht) | ⟨i, hi, rfl⟩)
    · exact hindex "unique" (by decide) (h.unique i hi)
    · exact h.secondaryIndexes t ht
    · exact (Model.printsAs_map m.dbName).exists_of_mem t ht
    · exact hindex "id" (by decide) (h.primaryKey i (Option.filter_eq_some_iff.mp hi).1)
  obtain ⟨forms, hforms, -⟩ := PrintsAs.exists_of_list hlines
  exact ⟨forms, hforms⟩

/-- The lines of a model show it. -/
theorem Model.Shown.blockLines {m : Model} (h : m.Shown P) :
    ∃ ls, m.lines = .ok ls ∧ BlockLines ls (Block.Shows P { models := [m] }) := by
  have hfields : List.Forall₂ (Field.HasLine (ModelItem.Stands (FieldDecl.Shows P)) m.name) m.fields
      (m.fields.map .inl) := by
    rw [List.forall₂_map_right_iff, List.forall₂_same]
    exact fun f hf => (h.fields f hf).hasLine m.name
  obtain ⟨forms, hforms⟩ := h.exists_attributeLines
  have hattributes : BodyLines ModelItem.read (ModelItem.Stands (FieldDecl.Shows P)) [] m.attributeLines
      (forms.map .inr) :=
    hforms.bodyLines fun a last n rest => ⟨_, ModelItem.read_attr a last [] n rest, n, rfl⟩
  obtain ⟨ls, hls, hblock⟩ := blockLines_of_body h.name h.documentation hfields hattributes
  refine ⟨ls, hls, hblock.mono ?_⟩
  rintro b ⟨line, items, rfl, hitems⟩
  exact ⟨rfl, .cons ⟨rfl, (ModelItem.stands_fields hitems).1⟩ .nil⟩

theorem Block.models_of_shows {blocks : List Block} {ss : List Schema}
    (h : List.Forall₂ (fun b s => Block.Shows P s b) blocks ss) :
    List.Forall₂ (ModelBlock.Shows P) (blocks.filterMap Block.model?) (ss.flatMap (·.models)) := by
  induction h with
  | nil => exact .nil
  | @cons b s blocks ss hb _ ih =>
    have hmodels : (b :: blocks).filterMap Block.model? =
        b.model?.toList ++ blocks.filterMap Block.model? := by
      rw [List.filterMap_cons]
      cases b.model? <;> rfl
    rw [hmodels, List.flatMap_cons]
    exact List.rel_append hb.models ih

end

namespace Schema

/-- **The text of a schema shows it.** If the fields and models of a schema are shown, its text is
read as blocks that declare the same names, and among them is one for each model, in its place. -/
theorem exists_blocks_of_toText {P : Field → Option Expr → Prop} {s : Schema} {text : String}
    (hmodels : ∀ m ∈ s.models, m.Shown P) (henums : ∀ e ∈ s.enums, e.Lexical)
    (hdatasources : ∀ d ∈ s.datasources, d.Lexical) (hgenerators : ∀ g ∈ s.generators, g.Lexical)
    (htext : s.toText = .ok text) :
    ∃ blocks, Block.ofText text = .ok blocks ∧
      (blocks.filterMap Block.declaration?).map (fun d => (d.name, d.kind)) = s.names ∧
      List.Forall₂ (ModelBlock.Shows P) (blocks.filterMap Block.model?) s.models := by
  obtain ⟨models, hlines, hmodelBlocks⟩ :=
    Model.mapM_lines (List.forall₂_same.mpr fun m hm => (hmodels m hm).blockLines)
  have hblocks : List.Forall₂ (fun ls t => BlockLines ls (Block.Shows P t)) (s.blocksWith models)
      s.pieces := by
    refine forall₂_blocksWith ?_ ?_ (List.forall₂_map_right_iff.mpr hmodelBlocks) ?_
    · exact fun d hd => (DataSource.blockLines (hdatasources d hd)).mono fun b hb => hb.shows rfl
    · exact fun g hg => (Generator.blockLines (hgenerators g hg)).mono fun b hb => hb.shows rfl
    · intro e he
      refine (Enum.blockLines (henums e he)).mono fun b hb => ?_
      obtain ⟨hnames, hmodels⟩ := hb.shows (P := P) rfl
      exact ⟨hnames, hmodels⟩
  obtain ⟨blocks, hread, hshows⟩ := Block.ofText_unlines hblocks
  obtain ⟨models', hlines', rfl⟩ := exists_lines_of_toText htext
  obtain rfl : models = models' := Except.ok.inj (hlines.symm.trans hlines')
  have hdeclared := Block.map_declarations (hshows.imp fun _ _ hb => hb.names)
  have hshown := Block.models_of_shows hshows
  rw [flatMap_names_pieces] at hdeclared
  rw [flatMap_models_pieces] at hshown
  exact ⟨blocks, hread, hdeclared, hshown⟩

end Schema

end Datamodel
