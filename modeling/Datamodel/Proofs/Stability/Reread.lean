import Datamodel.Fragment
import Datamodel.Proofs.Loading.Overlay
import Datamodel.Proofs.Schema.Config
import Datamodel.Proofs.Schema.Structure
import Datamodel.Proofs.Stability.Escaped

/-! The text of a schema, loaded again.

Both readers take part: the structure comes from the grammar, the storage notes from the lines, and
the overlay puts them together. What comes out is the schema again (`Schema.reread`), except that
the names in the notes are taken as they stand in their literals (`Schema.escaped`). -/

namespace Datamodel

open Notes
open Text (Avoids avoids_append avoids_cons avoids_intercalate avoids_of_isName isPlain_of_isNumber
  not_mem_toList_quote)
open Token (IsName)

/-! ### Expressions on one line -/

theorem Argument.avoids_newline {a : Argument} (h : ∀ label ∈ a.label, IsName label)
    (hv : Avoids ['\n'] a.value.toText.toList) : Avoids ['\n'] a.toText.toList := by
  obtain ⟨_ | label, value⟩ := a
  · exact hv
  · have hlabel : Avoids ['\n'] label.toList := avoids_of_isName (h label rfl) (by decide)
    rw [toText, String.toList_append, String.toList_append, avoids_append, avoids_append]
    exact ⟨⟨hlabel, by decide⟩, hv⟩

/-- An expression spans no lines. -/
theorem Expr.Lexical.avoids_newline {e : Expr} (h : e.Lexical) : Avoids ['\n'] e.toText.toList := by
  induction h with
  | text value =>
    intro c hc hmem
    rw [List.mem_singleton.mp hmem] at hc
    exact not_mem_toList_quote value hc
  | number h => exact (isPlain_of_isNumber h).mono (by decide)
  | name h => exact avoids_of_isName h (by decide)
  | @call function args h labels _ ih =>
    have hargs : Avoids ['\n'] (", ".intercalate (args.map Argument.toText)).toList := by
      apply avoids_intercalate (by decide)
      rw [List.forall_mem_map]
      exact fun a ha => Argument.avoids_newline (labels a ha) (ih a ha)
    rw [toText, Argument.textList_eq_map]
    simp only [String.toList_append, avoids_append]
    exact ⟨⟨⟨avoids_of_isName h (by decide), by decide⟩, hargs⟩, by decide⟩
  | @array items _ ih =>
    have hitems : Avoids ['\n'] (", ".intercalate (items.map Expr.toText)).toList := by
      apply avoids_intercalate (by decide)
      rw [List.forall_mem_map]
      exact ih
    rw [toText, Expr.textList_eq_map]
    simp only [String.toList_append, avoids_append]
    exact ⟨⟨by decide, hitems⟩, by decide⟩

theorem ConfigEntry.Lexical.plain {known : List String} {e : ConfigEntry} (h : e.Lexical known) :
    e.Plain where
  key := h.key
  raw := by
    intro text htext
    obtain ⟨x, hx, hvalue⟩ := h.value
    have hprinted := x.toText_toConfigValue
    rw [hvalue, htext] at hprinted
    have hraw : text = x.toText := hprinted
    rw [hraw]
    exact hx.avoids_newline.not_mem List.mem_cons_self

/-! ### Fields -/

namespace Field

/-- A field that is read back. Its default is printed as the expression `e`, which makes a default
with the same text. -/
structure Rereadable (f : Field) (e : Option Expr) : Prop where
  documentation : IsDocumentation f.documentation
  lexical : ∃ stored, f.Lexical e stored
  legible : f.Legible
  default : ∀ model, (e.map (Expr.toDefault f.kind)).mapM (f.defaultText model) =
    .ok (e.map fun e => "@default(" ++ e.toText ++ ")")

/-- The field that is read back: what the grammar reads, and the notes of the line. -/
def reread (f : Field) (e : Option Expr) : Field := (f.written e).overlay f.printedNotes

variable {f : Field} {e : Option Expr}

theorem Rereadable.readsAs (h : f.Rereadable e) : f.ReadsAs (f.written e) := by
  obtain ⟨stored, hlexical⟩ := h.lexical
  exact ⟨h.documentation, e, stored, hlexical, rfl⟩

theorem toText_reread_relation (r : Relation) {notes : FieldNotes}
    (hupdate : notes.onUpdate = r.printedUpdate)
    (hmap : notes.relationMap = r.printedMap.map Text.escaped) :
    (r.written.overlay notes).toText = r.escaped.toText := by
  cases hf : r.fromFields.isEmpty with
  | true => simp [Relation.overlay, Relation.written, Relation.escaped, Relation.toText, hf]
  | false =>
    simp [Relation.overlay, Relation.written, Relation.escaped, Relation.toText, hf, hupdate, hmap,
      Relation.printedUpdate, Relation.printedMap]

/-- **The field that is read back has the text of the field**, names as they stand in their
literals. -/
theorem Rereadable.toText_reread (h : f.Rereadable e) (model : String) :
    (f.reread e).toText model = f.escaped.toText model := by
  obtain ⟨stored, hlexical⟩ := h.lexical
  have hrelation : (f.reread e).relation.map Relation.toText =
      f.escaped.relation.map Relation.toText := by
    cases hr : f.relation with
    | none => simp [reread, overlay, written, escaped, hr]
    | some r =>
      have hupdate : f.printedNotes.onUpdate = r.printedUpdate := by simp [printedNotes, hr]
      have hmap : f.printedNotes.relationMap = r.printedMap.map Text.escaped := by
        simp [printedNotes, hr]
      have htext := toText_reread_relation r hupdate hmap
      simp [reread, overlay, written, escaped, hr, htext]
  have htexts (default : Option String) :
      (f.reread e).attributeTexts default = f.escaped.attributeTexts default := by
    simp only [attributeTexts, hrelation]
    rfl
  have hdefault : (f.reread e).default.mapM ((f.reread e).defaultText model) =
      f.escaped.default.mapM (f.escaped.defaultText model) :=
    (h.default model).trans (hlexical.default model).symm
  simp only [toText, hdefault, htexts]
  rfl

end Field

/-! ### Models -/

namespace Model

/-- A model that is read back, the defaults of its fields as the expressions `e`. -/
structure Rereadable (m : Model) (e : Field → Option Expr) : Prop where
  lexical : ∃ secondary, m.Lexical secondary
  legible : m.Legible
  fieldNames : m.fieldNames.Nodup
  fields : ∀ f ∈ m.fields, f.Rereadable (e f)

/-- The model that the grammar reads. -/
def writtenWith (e : Field → Option Expr) (m : Model) : Model :=
  m.written (m.fields.map fun f => f.written (e f))

/-- The model that is read back. -/
def reread (e : Field → Option Expr) (m : Model) : Model :=
  { m.written (m.fields.map fun f => f.reread (e f)) with secondaryIndexes := m.secondaryIndexes }

variable {m : Model} {e : Field → Option Expr}

theorem Rereadable.readsAs (h : m.Rereadable e) : m.ReadsAs (m.writtenWith e) := by
  obtain ⟨secondary, hlexical⟩ := h.lexical
  refine ⟨secondary, m.fields.map fun f => f.written (e f), hlexical, ?_, rfl⟩
  rw [List.forall₂_map_right_iff, List.forall₂_same]
  exact fun f hf => (h.fields f hf).readsAs

theorem overlay_eq (m : Model) (lines : List LineNote) : m.overlay lines =
    { m with
      fields := m.fields.map fun f => ((LineNote.fieldIn? lines f.name).map f.overlay).getD f
      secondaryIndexes := LineNote.secondaryIndexesIn lines } := by
  have hfields : (m.overlay lines).fields =
      m.fields.map fun f => ((LineNote.fieldIn? lines f.name).map f.overlay).getD f := by
    refine List.map_congr_left fun f _ => ?_
    cases LineNote.fieldIn? lines f.name <;> rfl
  rw [← hfields]
  rfl

/-- The notes of the lines of a model fill what the grammar leaves open. -/
theorem overlay_writtenWith (h : m.fieldNames.Nodup) :
    (m.writtenWith e).overlay m.printedNotes.lines = m.reread e := by
  have hfields : (m.writtenWith e).fields.map (fun f =>
      ((LineNote.fieldIn? m.printedNotes.lines f.name).map f.overlay).getD f) =
        m.fields.map fun f => f.reread (e f) := by
    rw [writtenWith, written, List.map_map]
    refine List.map_congr_left fun f hf => ?_
    have hnotes := fieldIn?_printedNotes h hf
    show ((LineNote.fieldIn? m.printedNotes.lines f.name).map (f.written (e f)).overlay).getD
      (f.written (e f)) = f.reread (e f)
    rw [hnotes]
    by_cases hempty : f.printedNotes = {}
    · rw [if_pos hempty, Field.reread, hempty, Field.overlay_empty]
      rfl
    · rw [if_neg hempty, Field.reread]
      rfl
  have hindexes : LineNote.secondaryIndexesIn m.printedNotes.lines = m.secondaryIndexes := by
    rw [printedNotes_eq]
    exact m.secondaryIndexesIn_notesWith
  rw [overlay_eq, hfields, hindexes]
  rfl

theorem Rereadable.toText_reread (h : m.Rereadable e) : (m.reread e).toText = m.escaped.toText := by
  have hfields : fieldLines m.name (m.reread e).fields = fieldLines m.name m.escaped.fields := by
    apply fieldLines_congr
    exact forall₂_map_same.mpr fun f hf => ⟨(h.fields f hf).toText_reread m.name, rfl⟩
  have hlines : (m.reread e).attributeLines = m.escaped.attributeLines := by
    simp [attributeLines, reread, escaped, written, Printer.mapLine, Option.filter_filter]
  have hname : (m.reread e).name = m.name := rfl
  have hname' : m.escaped.name = m.name := rfl
  rw [toText, toText, hname, hname', hfields, hlines]
  rfl

end Model

/-! ### Schemas -/

theorem Notes.overlay_eq (as : Notes) (models : List Model) : as.overlay models =
    models.map fun m => ((as.linesOf? m.name).map m.overlay).getD m := by
  refine List.map_congr_left fun m _ => ?_
  cases as.linesOf? m.name <;> rfl

theorem Enum.toText_written (e : Enum) : e.written.toText = e.toText := by
  have hvalues : e.written.values.map EnumValue.toText = e.values.map EnumValue.toText := by
    rw [written, List.map_map]
    refine List.map_congr_left fun v _ => ?_
    show v.written.toText = v.toText
    have hname : v.written.printedName = v.printedName := by
      simp [EnumValue.written, EnumValue.printedName, Option.filter_filter]
    rw [EnumValue.toText_eq, EnumValue.toText_eq, hname]
    rfl
  have hmap : Printer.mapLine e.written.dbName = Printer.mapLine e.dbName := by
    simp [Printer.mapLine, written, Option.filter_filter]
  rw [toText, toText, hvalues, hmap]
  rfl

namespace Schema

/-- A schema that is read back, the defaults of its fields as the expressions `e`. -/
structure Rereadable (s : Schema) (e : Field → Option Expr) : Prop where
  models : ∀ m ∈ s.models, m.Rereadable e
  enums : ∀ e ∈ s.enums, e.Lexical
  datasources : ∀ d ∈ s.datasources, d.Lexical
  generators : ∀ g ∈ s.generators, g.Lexical
  consistent : s.Consistent

/-- The schema that is read back. -/
def reread (e : Field → Option Expr) (s : Schema) : Schema :=
  { s with models := s.models.map (Model.reread e), enums := s.enums.map Enum.written }

variable {s : Schema} {e : Field → Option Expr}

theorem Rereadable.legible (h : s.Rereadable e) : s.Legible where
  models := fun m hm => (h.models m hm).legible
  enums := fun e he => ⟨(h.enums e he).name, (h.enums e he).values⟩
  datasources := fun d hd => ⟨(h.datasources d hd).name,
    fun e he => ((h.datasources d hd).config e he).plain⟩
  generators := fun g hg => ⟨(h.generators g hg).name,
    fun e he => ((h.generators g hg).config e he).plain⟩

theorem Rereadable.nodup_names (h : s.Rereadable e) :
    (s.models.map (·.name)).Nodup ∧ (s.enums.map (·.name)).Nodup :=
  nodup_of_names h.consistent.names

/-- What the grammar reads off the text of the schema. -/
theorem Rereadable.ofText_toText (h : s.Rereadable e) : ∃ text, s.toText = .ok text ∧
    Schema.ofText text = .ok
      { s with models := s.models.map (Model.writtenWith e), enums := s.enums.map Enum.written } := by
  refine Schema.ofText_toText ?_ h.enums rfl (fun d hd => DataSource.blockLines (h.datasources d hd))
    rfl (fun g hg => Generator.blockLines (h.generators g hg)) rfl ?_
  · rw [List.forall₂_map_right_iff, List.forall₂_same]
    exact fun m hm => (h.models m hm).readsAs
  · have hnames : names { s with
        models := s.models.map (Model.writtenWith e), enums := s.enums.map Enum.written } =
          s.names := by
      simp [names, Model.writtenWith, Model.written, Enum.written, Function.comp_def]
    refine ⟨hnames ▸ h.consistent.names, ?_⟩
    rw [hnames, List.forall_mem_map]
    intro m hm
    rw [Model.writtenWith, Model.written, List.forall_mem_map]
    exact fun f hf => h.consistent.kinds m hm f hf

theorem overlay_writtenWith (hnames : (s.models.map (·.name)).Nodup)
    (h : ∀ m ∈ s.models, m.fieldNames.Nodup) :
    Notes.overlay (s.models.map Model.printedNotes) (s.models.map (Model.writtenWith e)) =
      s.models.map (Model.reread e) := by
  rw [Notes.overlay_eq, List.map_map]
  refine List.map_congr_left fun m hm => ?_
  have hlines : linesOf? (s.models.map Model.printedNotes) m.name = some m.printedNotes.lines := by
    rw [Model.printedNotes_eq]
    exact linesOf?_map hnames hm
  show ((linesOf? (s.models.map Model.printedNotes) m.name).map (m.writtenWith e).overlay).getD
    (m.writtenWith e) = m.reread e
  rw [hlines]
  exact Model.overlay_writtenWith (h m hm)

/-- The text of a schema starts with its banner. -/
theorem dropMark_toText {text : String} (htext : s.toText = .ok text) :
    Text.dropMark text.toList = text.toList := by
  obtain ⟨models, -, rfl⟩ := exists_lines_of_toText htext
  rw [Printer.unlines_cons, String.append_assoc, String.toList_append]
  rfl

/-- **The text of a schema is loaded as the schema that is read back.** -/
theorem Rereadable.load_toText (h : s.Rereadable e) {text : String} (htext : s.toText = .ok text)
    (origin : String) : Fragment.load origin text = .ok ⟨origin, s.reread e⟩ := by
  obtain ⟨text', htext', hschema⟩ := h.ofText_toText
  obtain rfl : text = text' := Except.ok.inj (htext.symm.trans htext')
  have hmark : Text.dropMark text.toList = text.toList := dropMark_toText htext
  have hnotes : extract text.toList = s.models.map Model.printedNotes :=
    h.legible.extract_toText htext
  have hoverlay : Notes.overlay (s.models.map Model.printedNotes)
      (s.models.map (Model.writtenWith e)) = s.models.map (Model.reread e) :=
    overlay_writtenWith h.nodup_names.1 fun m hm => (h.models m hm).fieldNames
  simp only [Fragment.load, hmark, String.ofList_toList, hschema, hnotes, hoverlay]
  rfl

/-- **The schema that is read back has the text of the schema**, names as they stand in their
literals. -/
theorem Rereadable.toText_reread (h : s.Rereadable e) : (s.reread e).toText = s.escaped.toText := by
  have hmodels : (s.reread e).models.mapM Model.toText = s.escaped.models.mapM Model.toText := by
    apply mapM_toText_congr
    exact forall₂_map_same.mpr fun m hm => (h.models m hm).toText_reread
  have henums : (s.reread e).enums.map Enum.toText = s.escaped.enums.map Enum.toText := by
    show (s.enums.map Enum.written).map Enum.toText = s.enums.map Enum.toText
    rw [List.map_map]
    exact List.map_congr_left fun e _ => e.toText_written
  rw [toText, toText, hmodels, henums]
  rfl

end Schema

end Datamodel
