import Datamodel.Proofs.Loading.Joined
import Datamodel.Schema.Builder

/-! What notes change in models.

Notes only fill gaps: where a field or its relation says something already, that stays, and where
neither says anything, nothing comes about (`Field.FilledBy`). Secondary indexes are not filled in
but replaced, in every model that the notes have (`Model.FilledBy`). This determines what becomes of
the models, and once the gaps are filled the same notes find none (`Notes.overlay_filledBy`). -/

namespace Datamodel

/-! ### Filling gaps -/

theorem forall₂_eq_map_iff {α β : Type} {g : α → β} {xs : List α} {ys : List β} :
    List.Forall₂ (fun x y => y = g x) xs ys ↔ ys = xs.map g := by
  rw [eq_comm, ← List.forall₂_eq_eq_eq, List.forall₂_map_left_iff]
  simp only [eq_comm]

/-- The value `new` is `old`, if there is one, and what is noted otherwise. -/
structure Fills {α : Type} (noted old new : Option α) : Prop where
  kept : ∀ a, old = some a → new = some a
  filled : old = none → new = noted

theorem fills_iff {α : Type} {noted old new : Option α} :
    Fills noted old new ↔ new = old.or noted := by
  cases old with
  | none => exact ⟨fun h => h.filled rfl, fun h => ⟨nofun, fun _ => h⟩⟩
  | some a => exact ⟨fun h => h.kept a rfl, fun h => ⟨fun b hb => h.trans hb, nofun⟩⟩

/-- The relation `r'` is `r` with its gaps filled by what is noted of its field. -/
structure Relation.FilledBy (a : FieldNotes) (r r' : Relation) : Prop where
  onUpdate : Fills a.onUpdate r.onUpdate r'.onUpdate
  map : Fills a.relationMap r.map r'.map
  rest : { r' with onUpdate := r.onUpdate, map := r.map } = r

/-- The field `f'` is `f` with its gaps filled by what is noted of it. It has a relation just if `f`
has one. -/
structure Field.FilledBy (a : FieldNotes) (f f' : Field) : Prop where
  columnName : Fills a.columnName f.columnName f'.columnName
  nativeType : Fills a.nativeType f.nativeType f'.nativeType
  relation : Option.Rel (Relation.FilledBy a) f.relation f'.relation
  rest : { f' with
    columnName := f.columnName, nativeType := f.nativeType, relation := f.relation } = f

/-- The model `m'` is `m` with the gaps of its fields filled by what is noted of the fields of that
name, and with the secondary indexes that are noted, if the notes have the model. -/
structure Model.FilledBy (as : Notes) (m m' : Model) : Prop where
  fields : List.Forall₂ (fun f f' => f.FilledBy ((as.fieldOf? m.name f.name).getD {}) f')
    m.fields m'.fields
  noted : (as.linesOf? m.name).isSome → m'.secondaryIndexes = as.secondaryIndexesOf m.name
  unnoted : as.linesOf? m.name = none → m'.secondaryIndexes = m.secondaryIndexes
  rest : { m' with fields := m.fields, secondaryIndexes := m.secondaryIndexes } = m

/-! ### The overlay -/

theorem Relation.filledBy_iff {a : FieldNotes} {r r' : Relation} :
    r.FilledBy a r' ↔ r' = r.overlay a := by
  constructor
  · intro h
    rw [overlay, ← fills_iff.mp h.onUpdate, ← fills_iff.mp h.map]
    exact congrArg (fun r => { r with onUpdate := r'.onUpdate, map := r'.map }) h.rest
  · rintro rfl
    exact ⟨fills_iff.mpr rfl, fills_iff.mpr rfl, rfl⟩

namespace Field
variable {a : FieldNotes} {f f' : Field}

theorem rel_filledBy_iff {r r' : Option Relation} :
    Option.Rel (Relation.FilledBy a) r r' ↔ r' = r.map (·.overlay a) := by
  constructor
  · rintro (h | _)
    · exact congrArg some (Relation.filledBy_iff.mp h)
    · rfl
  · rintro rfl
    cases r with
    | none => exact .none
    | some r => exact .some (Relation.filledBy_iff.mpr rfl)

theorem filledBy_iff : f.FilledBy a f' ↔ f' = f.overlay a := by
  constructor
  · intro h
    rw [overlay, ← fills_iff.mp h.columnName, ← fills_iff.mp h.nativeType,
      ← rel_filledBy_iff.mp h.relation]
    exact congrArg (fun f => { f with
      columnName := f'.columnName, nativeType := f'.nativeType, relation := f'.relation }) h.rest
  · rintro rfl
    exact ⟨fills_iff.mpr rfl, fills_iff.mpr rfl, rel_filledBy_iff.mpr rfl, rfl⟩

theorem forall₂_filledBy_iff {noted : Field → FieldNotes} {fs fs' : List Field} :
    List.Forall₂ (fun f f' => f.FilledBy (noted f) f') fs fs' ↔
      fs' = fs.map fun f => f.overlay (noted f) := by
  simp only [filledBy_iff, forall₂_eq_map_iff]

theorem overlay_empty (f : Field) : f.overlay {} = f := by
  have hrelation : f.relation.map (·.overlay {}) = f.relation := by
    cases f.relation with
    | none => rfl
    | some r => simp [Relation.overlay]
  simp [overlay, hrelation]

/-- What is filled already has no gaps that the same notes fill. -/
theorem overlay_overlay (f : Field) (a : FieldNotes) : (f.overlay a).overlay a = f.overlay a := by
  have hrelation (r : Relation) : (r.overlay a).overlay a = r.overlay a := by
    simp [Relation.overlay, Option.or_assoc]
  simp [overlay, Option.or_assoc, Function.comp_def, hrelation]

end Field

namespace Notes
variable {as : Notes} {m m' : Model}

theorem annotate_eq (as : Notes) (m : Model) : as.annotate m = { m with
    fields := m.fields.map fun f => f.overlay ((as.fieldOf? m.name f.name).getD {})
    secondaryIndexes :=
      ((as.linesOf? m.name).map LineNote.secondaryIndexesIn).getD m.secondaryIndexes } := by
  unfold annotate fieldOf?
  cases as.linesOf? m.name with
  | none => simp [Field.overlay_empty]
  | some lines =>
    have hfields : (m.overlay lines).fields =
        m.fields.map fun f => f.overlay ((LineNote.fieldIn? lines f.name).getD {}) := by
      refine List.map_congr_left fun f _ => ?_
      cases LineNote.fieldIn? lines f.name with
      | none => exact f.overlay_empty.symm
      | some a => rfl
    show m.overlay lines = { m with
      fields := m.fields.map fun f => f.overlay ((LineNote.fieldIn? lines f.name).getD {})
      secondaryIndexes := LineNote.secondaryIndexesIn lines }
    rw [← hfields]
    rfl

theorem secondaryIndexes_iff {indexes : List String} :
    ((as.linesOf? m.name).isSome → indexes = as.secondaryIndexesOf m.name) ∧
      (as.linesOf? m.name = none → indexes = m.secondaryIndexes) ↔
    indexes = ((as.linesOf? m.name).map LineNote.secondaryIndexesIn).getD m.secondaryIndexes := by
  rw [secondaryIndexesOf]
  cases as.linesOf? m.name <;> simp

theorem filledBy_iff : m.FilledBy as m' ↔ m' = as.annotate m := by
  rw [annotate_eq]
  constructor
  · intro h
    rw [← secondaryIndexes_iff.mp ⟨h.noted, h.unnoted⟩, ← Field.forall₂_filledBy_iff.mp h.fields]
    exact congrArg (fun m => { m with
      fields := m'.fields, secondaryIndexes := m'.secondaryIndexes }) h.rest
  · rintro rfl
    obtain ⟨hnoted, hunnoted⟩ := secondaryIndexes_iff.mpr rfl
    exact ⟨Field.forall₂_filledBy_iff.mpr rfl, hnoted, hunnoted, rfl⟩

theorem annotate_annotate (as : Notes) (m : Model) :
    as.annotate (as.annotate m) = as.annotate m := by
  have hname (f : Field) (a : FieldNotes) : (f.overlay a).name = f.name := rfl
  simp only [annotate_eq, List.map_map, Function.comp_def, hname, Field.overlay_overlay]
  cases as.linesOf? m.name <;> rfl

/-- **Notes only fill gaps.** Fields and their relations keep what they say, and say what is noted
of them where they say nothing; no relation comes about, and models and fields stay where they are.
Only the secondary indexes of a model that the notes have are replaced, by those that are noted.
Once this is done, doing it again changes nothing. -/
theorem overlay_filledBy (as : Notes) (models : List Model) :
    (∀ models', List.Forall₂ (fun m m' => m.FilledBy as m') models models' ↔
      models' = as.overlay models) ∧
    as.overlay (as.overlay models) = as.overlay models := by
  have hoverlay (ms : List Model) : as.overlay ms = ms.map as.annotate := rfl
  constructor
  · intro models'
    simp only [hoverlay, filledBy_iff, forall₂_eq_map_iff]
  · rw [hoverlay, hoverlay, List.map_map]
    exact List.map_congr_left fun m _ => as.annotate_annotate m

/-- A column name goes to each field of the name that has none, and an action to no field without a
relation. The indexes that are noted are none, and take the place of the index that was there. -/
example :
    let id : Field := Field.scalar "id" "Int"
    let noted : FieldNotes := { columnName := some "user_id", onUpdate := some .cascade }
    let user : Model := { name := "User", fields := [id, id.withColumnName "key"] }
    Notes.overlay [⟨"User", [.field "id" noted]⟩]
        [{ user with secondaryIndexes := ["@@index([id])"] }] =
      [{ user with fields := [id.withColumnName "user_id", id.withColumnName "key"] }] := by decide

end Notes

end Datamodel
