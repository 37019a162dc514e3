import Datamodel.Proofs.Notes.Extraction

/-! Names as they stand in their literals.

The reader of notes takes the name of a column or a constraint as it stands between its quotes. A
schema whose names are taken so (`Schema.escaped`) has another text, unless its names hold nothing
that a literal escapes (`Schema.toText_escaped_iff`). -/

namespace Datamodel

open Notes
open Text (Avoids escaped_eq_self_iff escaped_injective infix_of_infix_escape not_mem_escaped)

/-- An escaped text holds no word that the text does not hold. -/
theorem Notes.Lacks.escaped {ps : List (List Char)} {s : String} (h : Lacks ps s)
    (hps : ps ⊆ marks ++ labels) : Lacks ps (Text.escaped s) := by
  intro p hp hinfix
  rw [Text.escaped, String.toList_ofList] at hinfix
  exact h p hp (infix_of_infix_escape (unescaped_of_mem p (hps hp)) hinfix)

/-! ### Relations -/

namespace Relation

def escaped (r : Relation) : Relation := { r with map := r.map.map Text.escaped }

variable {r : Relation}

theorem printedMap_escaped : r.escaped.printedMap = r.printedMap.map Text.escaped := by
  show (if r.fromFields.isEmpty then none else r.map.map Text.escaped) = _
  rw [printedMap]
  split <;> rfl

theorem Legible.escaped (h : r.Legible) : r.escaped.Legible where
  name := h.name
  fromFields := h.fromFields
  toFields := h.toFields
  map := by
    intro n hn
    rw [printedMap_escaped] at hn
    obtain ⟨name, hname, rfl⟩ := Option.map_eq_some_iff.mp hn
    obtain ⟨hquote, hlacks⟩ := h.map name hname
    exact ⟨not_mem_escaped hquote, hlacks.escaped (List.Subset.refl _)⟩

/-- Only the name that is printed has a part in the text. -/
theorem toText_escaped (h : r.printedMap.map Text.escaped = r.printedMap) :
    r.escaped.toText = r.toText := by
  rw [printedMap] at h
  cases hf : r.fromFields.isEmpty with
  | true => simp [Relation.toText, Relation.escaped, hf]
  | false =>
    rw [hf, if_neg Bool.false_ne_true] at h
    rw [Relation.escaped, h]

end Relation

/-! ### Fields -/

namespace Field

/-- A field whose column and constraint are named by what stands in the literals of their names. -/
def escaped (f : Field) : Field :=
  { f with
    columnName := f.columnName.map Text.escaped
    relation := f.relation.map Relation.escaped }

/-- A field whose column and constraint have names that stand in their literals as they are. -/
structure Verbatim (f : Field) : Prop where
  columnName : ∀ n ∈ f.columnName, Avoids ['"', '\\', '\n', '\r', '\t'] n.toList
  relationMap : ∀ r ∈ f.relation, ∀ n ∈ r.printedMap, Avoids ['"', '\\', '\n', '\r', '\t'] n.toList

variable {f : Field}

theorem Legible.escaped (h : f.Legible) : f.escaped.Legible where
  name := h.name
  type := h.type
  columnName := by
    intro n hn
    obtain ⟨name, hname, rfl⟩ := Option.map_eq_some_iff.mp hn
    obtain ⟨hquote, hlacks⟩ := h.columnName name hname
    exact ⟨not_mem_escaped hquote, hlacks.escaped (List.subset_append_left ..)⟩
  default := h.default
  nativeType := h.nativeType
  relation := by
    intro r' hr'
    obtain ⟨r, hr, rfl⟩ := Option.map_eq_some_iff.mp hr'
    exact (h.relation r hr).escaped

/-- A name that stays when it is escaped holds nothing to escape. -/
theorem map_escaped_eq_iff {name : Option String} : name.map Text.escaped = name ↔
    ∀ n ∈ name, Avoids ['"', '\\', '\n', '\r', '\t'] n.toList := by
  cases name with
  | none => simp
  | some n => simp [escaped_eq_self_iff]

theorem Verbatim.toText_escaped (h : f.Verbatim) (model : String) :
    f.escaped.toText model = f.toText model := by
  have hcolumn : f.columnName.map Text.escaped = f.columnName := map_escaped_eq_iff.mpr h.columnName
  have hrelation : (f.relation.map Relation.escaped).map Relation.toText =
      f.relation.map Relation.toText := by
    rw [Option.map_map]
    refine Option.map_congr fun r hr => ?_
    exact Relation.toText_escaped (map_escaped_eq_iff.mpr (h.relationMap r hr))
  have htexts (default : Option String) :
      f.escaped.attributeTexts default = f.attributeTexts default := by
    simp only [attributeTexts, Field.escaped, hcolumn, hrelation]
  simp only [toText, htexts]
  rfl

/-- Escaped names that are escaped again stay only where there is nothing to escape. -/
theorem verbatim_of_printedNotes (h : f.escaped.printedNotes = f.printedNotes) : f.Verbatim := by
  simp only [printedNotes, Field.escaped, FieldNotes.mk.injEq] at h
  obtain ⟨hcolumn, -, -, hmap⟩ := h
  refine ⟨?_, fun r hr => ?_⟩
  · exact map_escaped_eq_iff.mp (Option.map_injective (fun _ _ => escaped_injective) hcolumn)
  · rw [hr, Option.map_some, Option.bind_some, Option.bind_some, Relation.printedMap_escaped] at hmap
    exact map_escaped_eq_iff.mp (Option.map_injective (fun _ _ => escaped_injective) hmap)

end Field

/-! ### Models -/

namespace Model

def escaped (m : Model) : Model := { m with fields := m.fields.map Field.escaped }

variable {m : Model}

theorem Legible.escaped (h : m.Legible) : m.escaped.Legible where
  name := h.name
  undotted := h.undotted
  fields := List.forall_mem_map.mpr fun f hf => (h.fields f hf).escaped
  dbName := h.dbName
  unique := h.unique
  primaryKey := h.primaryKey
  secondaryIndexes := h.secondaryIndexes

theorem fieldNames_escaped (m : Model) : m.escaped.fieldNames = m.fieldNames := by
  rw [fieldNames, fieldNames, Model.escaped, List.map_map]
  rfl

theorem fieldLines_congr {model : String} {fs gs : List Field}
    (h : List.Forall₂ (fun f g => f.toText model = g.toText model ∧
      f.documentation = g.documentation) fs gs) :
    fieldLines model fs = fieldLines model gs := by
  induction h with
  | nil => rfl
  | cons hf _ ih => rw [fieldLines, fieldLines, hf.1, hf.2, ih]

theorem toText_escaped (h : ∀ f ∈ m.fields, f.Verbatim) : m.escaped.toText = m.toText := by
  have hfields : fieldLines m.name m.escaped.fields = fieldLines m.name m.fields := by
    apply fieldLines_congr
    rw [Model.escaped, List.forall₂_map_left_iff, List.forall₂_same]
    exact fun f hf => ⟨(h f hf).toText_escaped m.name, rfl⟩
  have hname : m.escaped.name = m.name := rfl
  rw [toText, toText, hname, hfields]
  rfl

/-- The notes of a model tell the notes of its fields. -/
theorem printedNotes_inj (hnames : m.fieldNames.Nodup)
    (h : m.escaped.printedNotes = m.printedNotes) :
    ∀ f ∈ m.fields, f.escaped.printedNotes = f.printedNotes := by
  intro f hf
  have hescaped : f.escaped ∈ m.escaped.fields := List.mem_map_of_mem hf
  have hnotes := fieldIn?_printedNotes hnames hf
  have hnotes' := fieldIn?_printedNotes (m.fieldNames_escaped ▸ hnames) hescaped
  have hname : f.escaped.name = f.name := rfl
  rw [h, hname, hnotes] at hnotes'
  split at hnotes' <;> split at hnotes'
  · next he he' => rw [he, he']
  · cases hnotes'
  · cases hnotes'
  · exact (Option.some.inj hnotes').symm

end Model

/-! ### Schemas -/

namespace Schema

def escaped (s : Schema) : Schema := { s with models := s.models.map Model.escaped }

variable {s : Schema}

theorem Legible.escaped (h : s.Legible) : s.escaped.Legible where
  models := List.forall_mem_map.mpr fun m hm => (h.models m hm).escaped
  enums := h.enums
  datasources := h.datasources
  generators := h.generators

theorem mapM_toText_congr {ms ns : List Model}
    (h : List.Forall₂ (fun m n => m.toText = n.toText) ms ns) :
    ms.mapM Model.toText = ns.mapM Model.toText := by
  induction h with
  | nil => rfl
  | cons hm _ ih => rw [List.mapM_cons, List.mapM_cons, hm, ih]

theorem toText_escaped (h : ∀ m ∈ s.models, ∀ f ∈ m.fields, f.Verbatim) :
    s.escaped.toText = s.toText := by
  have hmodels : s.escaped.models.mapM Model.toText = s.models.mapM Model.toText := by
    apply mapM_toText_congr
    rw [Schema.escaped, List.forall₂_map_left_iff, List.forall₂_same]
    exact fun m hm => Model.toText_escaped (h m hm)
  rw [toText, toText, hmodels]
  rfl

/-- Escaping names takes no text away. -/
theorem exists_toText_escaped {text : String} (htext : s.toText = .ok text) :
    ∃ text, s.escaped.toText = .ok text := by
  rw [exists_toText_iff]
  refine List.forall_mem_map.mpr fun m hm => List.forall_mem_map.mpr fun f hf => ?_
  have hline := Field.exists_toText_iff.mp (exists_toText_iff.mp ⟨text, htext⟩ m hm f hf)
  exact Field.exists_toText_iff.mpr hline

/-- **The text of a schema stays when its names are escaped** just if they hold nothing to
escape. -/
theorem toText_escaped_iff (h : s.Legible) (hnames : ∀ m ∈ s.models, m.fieldNames.Nodup)
    {text : String} (htext : s.toText = .ok text) :
    s.escaped.toText = .ok text ↔ ∀ m ∈ s.models, ∀ f ∈ m.fields, f.Verbatim := by
  constructor
  · intro hescaped m hm f hf
    have hnotes := (h.extract_toText htext).symm.trans (h.escaped.extract_toText hescaped)
    rw [Schema.escaped, List.map_map, List.map_inj_left] at hnotes
    apply Field.verbatim_of_printedNotes
    exact Model.printedNotes_inj (hnames m hm) (hnotes m hm).symm f hf
  · intro hverbatim
    rw [toText_escaped hverbatim, htext]

end Schema

end Datamodel
