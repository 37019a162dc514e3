import Datamodel.Proofs.Schema.Lines
import Datamodel.Schema.Builder

/-! Which schemas have no text.

Two things have no text: a field of unsupported kind, and a default that is none. The printer goes
through the models and their fields in order and stops at the first field with one of them. So the
error is that of this field, and of a field with both it is that of the kind (`Field.RefusedFor`).
Nothing else that a schema holds makes the printer stop, or keeps it from it
(`Schema.toText_eq_error`). -/

namespace Datamodel

/-! ### Fields -/

namespace DefaultValue

/-- What stands in the place of a default, if it is none. -/
def raw? : DefaultValue → Option String
  | unrecognized raw => some raw
  | text _ | number _ | boolean _ | member _ | call _ _ => none

theorem raw?_eq_some_iff {d : DefaultValue} {raw : String} :
    d.raw? = some raw ↔ d = .unrecognized raw := by
  cases d <;> simp [raw?]

/-- Of all defaults only the one that is none has no text. -/
theorem valueText_eq_error_iff {d : DefaultValue} {kind : FieldKind} {type raw : String} :
    d.valueText kind type = .error raw ↔ d = .unrecognized raw := by
  cases d <;> simp [valueText]

end DefaultValue

namespace Field

/-- A field that has no text. -/
def Unprintable (f : Field) : Prop :=
  f.kind = .unsupported ∨ ∃ raw, f.default = some (.unrecognized raw)

instance (f : Field) : Decidable f.Unprintable :=
  decidable_of_iff (f.kind = .unsupported ∨ (f.default.bind DefaultValue.raw?).isSome = true) <| by
    simp [Unprintable, Option.isSome_iff_exists, Option.bind_eq_some_iff,
      DefaultValue.raw?_eq_some_iff]

/-- The error that a field of the model `model` is refused with. The kind counts before the
default. -/
inductive RefusedFor (model : String) (f : Field) : RenderError → Prop
  | kind (hkind : f.kind = .unsupported) :
    RefusedFor model f (.unsupportedKind model f.name f.kind)
  | default {raw : String} (hkind : f.kind ≠ .unsupported)
    (hdefault : f.default = some (.unrecognized raw)) :
    RefusedFor model f (.unsupportedDefault model f.name raw)

section
variable {model : String} {f : Field} {e : RenderError}

theorem exists_refusedFor_iff : (∃ e, f.RefusedFor model e) ↔ f.Unprintable := by
  constructor
  · rintro ⟨_, hkind | ⟨-, hdefault⟩⟩
    · exact .inl hkind
    · exact .inr ⟨_, hdefault⟩
  · intro h
    by_cases hkind : f.kind = .unsupported
    · exact ⟨_, .kind hkind⟩
    · obtain ⟨raw, hdefault⟩ := h.resolve_left hkind
      exact ⟨_, .default hkind hdefault⟩

theorem defaultText_eq_error_iff {d : DefaultValue} : f.defaultText model d = .error e ↔
    ∃ raw, d = .unrecognized raw ∧ e = .unsupportedDefault model f.name raw := by
  rw [defaultText]
  split
  · next value hvalue =>
    refine iff_of_false nofun ?_
    rintro ⟨raw, rfl, -⟩
    cases hvalue
  · next raw hraw =>
    obtain rfl := DefaultValue.valueText_eq_error_iff.mp hraw
    simp [eq_comm]

/-- **A field is refused** for its kind, or else for its default. -/
theorem toText_eq_error_iff : f.toText model = .error e ↔ f.RefusedFor model e := by
  rw [toText]
  by_cases hkind : f.kind = .unsupported
  · rw [if_pos hkind]
    constructor
    · rintro ⟨⟩
      exact .kind hkind
    · rintro (_ | ⟨hne, -⟩)
      · rfl
      · exact absurd hkind hne
  · rw [if_neg hkind]
    show (f.default.mapM (f.defaultText model) >>= _) = .error e ↔ _
    rw [bind_eq_error_iff, mapM_option_eq_error_iff]
    constructor
    · rintro (⟨d, hdefault, hd⟩ | ⟨_, _, h⟩)
      · obtain ⟨raw, rfl, rfl⟩ := defaultText_eq_error_iff.mp hd
        exact .default hkind hdefault
      · cases h
    · rintro (hunsupported | ⟨-, hdefault⟩)
      · exact absurd hunsupported hkind
      · exact .inl ⟨_, hdefault, defaultText_eq_error_iff.mpr ⟨_, rfl, rfl⟩⟩

theorem not_unprintable_iff : ¬f.Unprintable ↔ ∃ line, f.toText model = .ok line := by
  rw [← not_exists_error_iff, exists_congr fun _ => toText_eq_error_iff, exists_refusedFor_iff]

end

/-- What of a field the printer may stop at, and what it names then. -/
def printability (f : Field) : String × FieldKind × Option String :=
  (f.name, f.kind, f.default.bind DefaultValue.raw?)

theorem RefusedFor.congr {model : String} {f g : Field} {e : RenderError}
    (h : f.printability = g.printability) (hf : f.RefusedFor model e) : g.RefusedFor model e := by
  obtain ⟨hname, hkind, hraw⟩ : f.name = g.name ∧ f.kind = g.kind ∧
      f.default.bind DefaultValue.raw? = g.default.bind DefaultValue.raw? := by
    simpa [printability] using h
  rcases hf with hunsupported | @⟨raw, hsupported, hdefault⟩
  · rw [hname, hkind]
    exact .kind (hkind ▸ hunsupported)
  · rw [hdefault, Option.bind_some, DefaultValue.raw?] at hraw
    obtain ⟨d, hd, hnone⟩ := Option.bind_eq_some_iff.mp hraw.symm
    rw [DefaultValue.raw?_eq_some_iff] at hnone
    rw [hname]
    exact .default (hkind ▸ hsupported) (hnone ▸ hd)

end Field

/-! ### Models -/

namespace Model
variable {m : Model} {e : RenderError}

theorem fieldLines_eq_error_iff {model : String} {fs : List Field} :
    fieldLines model fs = .error e ↔ fs.mapM (Field.toText model) = .error e := by
  induction fs with
  | nil => exact iff_of_false nofun nofun
  | cons f fs ih =>
    rw [fieldLines, bind_eq_error_iff, mapM_cons_eq_error_iff, ← ih, ← exists_and_right]
    exact or_congr_right (exists_congr fun line => and_congr_right fun _ => bind_ok_eq_error_iff)

theorem toText_eq_error_iff_mapM :
    m.toText = .error e ↔ m.fields.mapM (Field.toText m.name) = .error e := by
  rw [← fieldLines_eq_error_iff]
  exact bind_ok_eq_error_iff

/-- **A model is refused** for the first field that has no text. -/
theorem toText_eq_error_iff : m.toText = .error e ↔ ∃ before f after,
    m.fields = before ++ f :: after ∧ (∀ g ∈ before, ¬g.Unprintable) ∧
      f.RefusedFor m.name e := by
  rw [toText_eq_error_iff_mapM, mapM_eq_error_iff]
  simp only [← Field.not_unprintable_iff, Field.toText_eq_error_iff]

/-- What of a model the printer may stop at, and what it names then. -/
def printability (m : Model) : String × List (String × FieldKind × Option String) :=
  (m.name, m.fields.map Field.printability)

theorem toText_eq_error_congr {n : Model} (h : m.printability = n.printability) (e : RenderError) :
    m.toText = .error e ↔ n.toText = .error e := by
  obtain ⟨hname, hfields⟩ := Prod.mk.inj h
  rw [toText_eq_error_iff_mapM, toText_eq_error_iff_mapM, hname]
  refine mapM_eq_error_congr ((map_eq_map_iff_forall₂.mp hfields).imp fun f g hfg e => ?_) e
  rw [Field.toText_eq_error_iff, Field.toText_eq_error_iff]
  exact ⟨.congr hfg, .congr hfg.symm⟩

end Model

/-! ### Schemas -/

namespace Schema
variable {s : Schema} {e : RenderError}

/-- The field `f` of the model `m` is the first without a text, in the order of the models and of
their fields. -/
def FirstUnprintable (s : Schema) (m : Model) (f : Field) : Prop :=
  ∃ ms ms' fs fs', s.models = ms ++ m :: ms' ∧ m.fields = fs ++ f :: fs' ∧ f.Unprintable ∧
    (∀ g ∈ fs, ¬g.Unprintable) ∧ ∀ n ∈ ms, ∀ g ∈ n.fields, ¬g.Unprintable

/-- What of a schema the printer may stop at, and what it names then. -/
def printability (s : Schema) : List (String × List (String × FieldKind × Option String)) :=
  s.models.map Model.printability

theorem toText_eq_error_iff_mapM : s.toText = .error e ↔ s.models.mapM Model.toText = .error e :=
  bind_ok_eq_error_iff

theorem toText_eq_error_iff : s.toText = .error e ↔
    ∃ m f, s.FirstUnprintable m f ∧ f.RefusedFor m.name e := by
  rw [toText_eq_error_iff_mapM, mapM_eq_error_iff]
  simp only [Model.exists_toText_iff, ← Field.not_unprintable_iff, Model.toText_eq_error_iff]
  constructor
  · rintro ⟨ms, m, ms', hmodels, hbefore, fs, f, fs', hfields, hfs, hf⟩
    have hunprintable : f.Unprintable := Field.exists_refusedFor_iff.mp ⟨e, hf⟩
    exact ⟨m, f, ⟨ms, ms', fs, fs', hmodels, hfields, hunprintable, hfs, hbefore⟩, hf⟩
  · rintro ⟨m, f, ⟨ms, ms', fs, fs', hmodels, hfields, -, hfs, hbefore⟩, hf⟩
    exact ⟨ms, m, ms', hmodels, hbefore, fs, f, fs', hfields, hfs, hf⟩

/-- **What has no text.** A schema is refused just if some model has a field without a text. The
error is that of the first such field. Only the names of models and fields, the kinds of fields and
the defaults that are none count for it: schemas with the same of them are refused alike. -/
theorem toText_eq_error (s : Schema) :
    ((∃ e, s.toText = .error e) ↔ ∃ m ∈ s.models, ∃ f ∈ m.fields, f.Unprintable) ∧
    (∀ e, s.toText = .error e ↔ ∃ m f, s.FirstUnprintable m f ∧ f.RefusedFor m.name e) ∧
    ∀ t : Schema, t.printability = s.printability →
      ∀ e, t.toText = .error e ↔ s.toText = .error e := by
  refine ⟨?_, fun e => toText_eq_error_iff, fun t h e => ?_⟩
  · have hok := exists_toText_iff (s := s)
    simp only [← Field.not_unprintable_iff] at hok
    rw [← not_iff_not, not_exists_error_iff, hok]
    simp only [not_exists, not_and]
  · rw [toText_eq_error_iff_mapM, toText_eq_error_iff_mapM]
    refine mapM_eq_error_congr ?_ e
    exact (map_eq_map_iff_forall₂.mp h).imp fun m n hmn => Model.toText_eq_error_congr hmn

/-- The second model has two fields without a text, and the first of them is refused for its kind
although its default is none as well. What else the models hold does not matter. -/
theorem toText_eq_error_places :
    let id := Field.scalar "id" "Int"
    let area : Field := {
      name := "area", kind := .unsupported, type := "Unsupported(\"polygon\")"
      default := some (.unrecognized "[]") }
    let tags := (Field.scalar "tags" "String").withDefault (.unrecognized "[a, b]")
    let user : Model := { name := "User", fields := [id] }
    let place : Model := { name := "Place", fields := [id, area, tags] }
    let s : Schema := { models := [user, place, { place with name := "Site" }] }
    let t : Schema := {
      models := [user.withDbName "users", { place with fields := [id.asId, area.asList, tags] },
        { place with name := "Site", secondaryIndexes := ["@@index([id])"] }]
      enums := [Enum.ofNames "Kind" ["PARK"]] }
    s.FirstUnprintable place area ∧ t.printability = s.printability ∧
      s.toText = .error (.unsupportedKind "Place" "area" .unsupported) ∧
      t.toText = .error (.unsupportedKind "Place" "area" .unsupported) := by
  intro id area tags user place s t
  have hfirst : s.FirstUnprintable place area :=
    ⟨[user], [{ place with name := "Site" }], [id], [tags], rfl, rfl, by decide, by decide,
      by decide⟩
  have hsame : t.printability = s.printability := by decide
  obtain ⟨-, herror, hcongr⟩ := toText_eq_error s
  have hs := (herror _).mpr ⟨place, area, hfirst, .kind rfl⟩
  exact ⟨hfirst, hsame, hs, (hcongr t hsame _).mpr hs⟩

end Schema

end Datamodel
