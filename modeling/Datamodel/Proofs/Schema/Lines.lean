import Datamodel.Proofs.Except
import Datamodel.Schema.Printer

/-! The text of a schema, line by line.

The printer joins texts of several lines. Here each block is a list of lines, and the text of a
schema is its lines, each with a line feed behind it (`Schema.toText_eq`). -/

namespace Datamodel

namespace Printer

/-- Lines as a text, a line feed behind each. -/
def unlines (lines : List String) : String := String.join (lines.map (· ++ "\n"))

@[simp] theorem unlines_nil : unlines [] = "" := rfl

@[simp] theorem unlines_cons (line : String) (lines : List String) :
    unlines (line :: lines) = line ++ "\n" ++ unlines lines := by
  simp [unlines]

@[simp] theorem unlines_append (lines lines' : List String) :
    unlines (lines ++ lines') = unlines lines ++ unlines lines' := by
  simp [unlines]

theorem toList_unlines (lines : List String) :
    (unlines lines).toList = (lines.map String.toList).flatMap (· ++ ['\n']) := by
  simp [unlines, List.flatMap_map]

theorem intercalate_append_newline {lines : List String} (h : lines ≠ []) :
    "\n".intercalate lines ++ "\n" = unlines lines := by
  induction lines with
  | nil => exact absurd rfl h
  | cons line lines ih =>
    cases lines with
    | nil => simp
    | cons line' lines =>
      rw [String.intercalate_cons_cons, String.append_assoc, ih nofun, unlines_cons line]

/-- The lines of a block before the one with its closing brace. -/
def openLines (keyword name : String) (lines : List String) (documentation : Option String) :
    List String :=
  docLines documentation ++ (keyword ++ " " ++ name ++ " \x7b") ::
    (lines.filter (!isBlankLine ·)).map ("  " ++ ·)

/-- The lines of a block. -/
def blockLines (keyword name : String) (lines : List String) (documentation : Option String) :
    List String :=
  docLines documentation ++ (keyword ++ " " ++ name ++ " \x7b") ::
    ((lines.filter (!isBlankLine ·)).map ("  " ++ ·) ++ ["\x7d"])

theorem blockLines_eq (keyword name : String) (lines : List String)
    (documentation : Option String) : blockLines keyword name lines documentation =
      openLines keyword name lines documentation ++ ["\x7d"] := by
  simp [blockLines, openLines]

theorem blockLines_ne_nil (keyword name : String) (lines : List String)
    (documentation : Option String) : blockLines keyword name lines documentation ≠ [] := by
  simp [blockLines]

theorem block_append_newline (keyword name : String) (lines : List String)
    (documentation : Option String) :
    block keyword name lines documentation ++ "\n" =
      unlines (blockLines keyword name lines documentation) := by
  have hbody : (lines.filter (!isBlankLine ·)).map ("  " ++ · ++ "\n") =
      ((lines.filter (!isBlankLine ·)).map ("  " ++ ·)).map (· ++ "\n") := by
    rw [List.map_map]
    rfl
  rw [block, hbody, blockLines, unlines_append, unlines_cons, unlines_append]
  simp [unlines, String.append_assoc]

theorem block_eq (keyword name : String) (lines : List String) (documentation : Option String) :
    block keyword name lines documentation =
      "\n".intercalate (blockLines keyword name lines documentation) := by
  rw [← String.append_left_inj "\n", block_append_newline,
    intercalate_append_newline (blockLines_ne_nil keyword name lines documentation)]

/-- No line feed ends the text of a block. -/
theorem block_eq_unlines (keyword name : String) (lines : List String)
    (documentation : Option String) : block keyword name lines documentation =
      unlines (openLines keyword name lines documentation) ++ "\x7d" := by
  rw [← String.append_left_inj "\n", block_append_newline, blockLines_eq, unlines_append]
  simp [String.append_assoc]

/-- Blocks with an empty line between any two. -/
theorem intercalate_blocks {lines : List String} {blocks : List (List String)} (h : lines ≠ [])
    (hs : ∀ b ∈ blocks, b ≠ []) :
    "\n\n".intercalate ("\n".intercalate lines :: blocks.map "\n".intercalate) ++ "\n" =
      unlines (lines ++ blocks.flatMap ("" :: ·)) := by
  induction blocks generalizing lines with
  | nil => simpa using intercalate_append_newline h
  | cons b blocks ih =>
    have ih := ih (hs b List.mem_cons_self) fun b' h' => hs b' (List.mem_cons_of_mem _ h')
    have hsep : "\n\n" = "\n" ++ "\n" := rfl
    rw [List.map_cons, String.intercalate_cons_cons, String.append_assoc, ih, hsep,
      ← String.append_assoc, intercalate_append_newline h]
    simp [String.append_assoc]

end Printer

open Printer

def DataSource.bodyLines (d : DataSource) : List String :=
  ["provider = " ++ Text.Quoted.quote d.provider] ++
    (d.url.map fun url => "url = " ++ url.toText).toList ++ d.config.map ConfigEntry.toText

def Generator.bodyLines (g : Generator) : List String :=
  ["provider = " ++ g.provider.toText] ++
    (g.output.map fun output => "output = " ++ output.toText).toList ++
    g.config.map ConfigEntry.toText ++
    (if g.binaryTargets.isEmpty then [] else ["binaryTargets = " ++ textList g.binaryTargets]) ++
    (if g.previewFeatures.isEmpty then []
      else ["previewFeatures = " ++ textList g.previewFeatures])

def Enum.bodyLines (e : Enum) : List String := e.values.map EnumValue.toText ++ mapLine e.dbName

def DataSource.lines (d : DataSource) : List String :=
  blockLines "datasource" d.name d.bodyLines none

def Generator.lines (g : Generator) : List String :=
  blockLines "generator" g.name g.bodyLines none

def Enum.lines (e : Enum) : List String := blockLines "enum" e.name e.bodyLines e.documentation

theorem DataSource.toText_eq (d : DataSource) : d.toText = "\n".intercalate d.lines := block_eq ..

theorem Generator.toText_eq (g : Generator) : g.toText = "\n".intercalate g.lines := block_eq ..

theorem Enum.toText_eq (e : Enum) : e.toText = "\n".intercalate e.lines := block_eq ..

def Model.keyword (m : Model) : String := if m.isView then "view" else "model"

/-- The lines of a model whose fields have the lines `fields`. -/
def Model.linesWith (m : Model) (fields : List String) : List String :=
  blockLines m.keyword m.name (fields ++ m.attributeLines) m.documentation

def Model.lines (m : Model) : Except RenderError (List String) :=
  (Model.fieldLines m.name m.fields).map m.linesWith

theorem Model.toText_eq (m : Model) : m.toText = m.lines.map "\n".intercalate := by
  rw [toText, lines]
  cases Model.fieldLines m.name m.fields with
  | error e => rfl
  | ok fields => exact congrArg Except.ok (block_eq ..)

theorem Model.lines_ne_nil {m : Model} {ls : List String} (h : m.lines = .ok ls) : ls ≠ [] := by
  obtain ⟨fields, -, rfl⟩ := exists_of_map h
  exact blockLines_ne_nil _ _ _ _

/-- The blocks of a schema whose models have the lines `models`, as lines. -/
def Schema.blocksWith (s : Schema) (models : List (List String)) : List (List String) :=
  s.datasources.map DataSource.lines ++ s.generators.map Generator.lines ++ models ++
    s.enums.map Enum.lines

/-- What holds of each block of a schema, kind by kind. -/
theorem Schema.forall₂_blocksWith {β : Type} {R : List String → β → Prop} {s : Schema}
    {models : List (List String)} {bs : List β} {ofDatasource : DataSource → β}
    {ofGenerator : Generator → β} {ofEnum : Enum → β}
    (hdatasources : ∀ d ∈ s.datasources, R d.lines (ofDatasource d))
    (hgenerators : ∀ g ∈ s.generators, R g.lines (ofGenerator g))
    (hmodels : List.Forall₂ R models bs) (henums : ∀ e ∈ s.enums, R e.lines (ofEnum e)) :
    List.Forall₂ R (s.blocksWith models) (s.datasources.map ofDatasource ++
      s.generators.map ofGenerator ++ bs ++ s.enums.map ofEnum) :=
  List.rel_append (List.rel_append (List.rel_append (forall₂_map_same.mpr hdatasources)
    (forall₂_map_same.mpr hgenerators)) hmodels) (forall₂_map_same.mpr henums)

/-- The lines of a schema: the banner, and an empty line before each block. -/
def Schema.lines (s : Schema) : Except RenderError (List String) :=
  (s.models.mapM Model.lines).map fun models =>
    banner :: (s.blocksWith models).flatMap ("" :: ·)

theorem Model.mapM_toText (ms : List Model) :
    ms.mapM toText = (ms.mapM lines).map (·.map "\n".intercalate) := by
  induction ms with
  | nil => rfl
  | cons m ms ih =>
    rw [List.mapM_cons, List.mapM_cons, ih, toText_eq]
    cases m.lines with
    | error e => rfl
    | ok ls => cases ms.mapM lines <;> rfl

theorem Model.ne_nil_of_mapM_lines {ms : List Model} {blocks : List (List String)}
    (h : ms.mapM lines = .ok blocks) : ∀ b ∈ blocks, b ≠ [] := by
  intro b hb
  obtain ⟨m, -, hm⟩ := forall_mem_of_mapM h b hb
  exact lines_ne_nil hm

/-- **The text of a schema is its lines.** -/
theorem Schema.toText_eq (s : Schema) : s.toText = s.lines.map unlines := by
  rw [toText, lines, Model.mapM_toText]
  cases hms : s.models.mapM Model.lines with
  | error e => rfl
  | ok models =>
    have hne : ∀ b ∈ s.blocksWith models, b ≠ [] := by
      simp only [blocksWith, List.mem_append, List.mem_map]
      rintro b (((⟨d, _, rfl⟩ | ⟨g, _, rfl⟩) | hb) | ⟨e, _, rfl⟩)
      · exact blockLines_ne_nil _ _ _ _
      · exact blockLines_ne_nil _ _ _ _
      · exact Model.ne_nil_of_mapM_lines hms b hb
      · exact blockLines_ne_nil _ _ _ _
    have hblocks : (s.blocksWith models).map "\n".intercalate =
        s.datasources.map DataSource.toText ++ s.generators.map Generator.toText ++
          models.map "\n".intercalate ++ s.enums.map Enum.toText := by
      simp only [blocksWith, List.map_append, List.map_map, Function.comp_def,
        ← DataSource.toText_eq, ← Generator.toText_eq, ← Enum.toText_eq]
    have h := intercalate_blocks (List.cons_ne_nil banner []) hne
    rw [String.intercalate_singleton, hblocks] at h
    exact congrArg Except.ok h

/-- A schema that has a text has lines for each of its models. -/
theorem Schema.exists_lines_of_toText {s : Schema} {text : String} (h : s.toText = .ok text) :
    ∃ models, s.models.mapM Model.lines = .ok models ∧
      text = unlines (banner :: (s.blocksWith models).flatMap ("" :: ·)) := by
  rw [toText_eq] at h
  obtain ⟨lines, hlines, rfl⟩ := exists_of_map h
  obtain ⟨models, hmodels, rfl⟩ := exists_of_map hlines
  exact ⟨models, hmodels, rfl⟩

/-! ### What has a text -/

theorem Field.exists_toText_iff {f : Field} {model : String} :
    (∃ line, f.toText model = .ok line) ↔
      f.kind ≠ .unsupported ∧ ∃ default, f.default.mapM (f.defaultText model) = .ok default := by
  rw [toText]
  constructor
  · rintro ⟨line, h⟩
    split at h
    · cases h
    · next hkind =>
      obtain ⟨default, hdefault, -⟩ := exists_of_bind h
      exact ⟨hkind, default, hdefault⟩
  · rintro ⟨hkind, default, hdefault⟩
    rw [if_neg hkind, hdefault]
    exact ⟨_, rfl⟩

theorem Model.exists_fieldLines_iff {model : String} {fs : List Field} :
    (∃ lines, fieldLines model fs = .ok lines) ↔ ∀ f ∈ fs, ∃ line, f.toText model = .ok line := by
  induction fs with
  | nil => exact ⟨fun _ => List.forall_mem_nil _, fun _ => ⟨[], rfl⟩⟩
  | cons f fs ih =>
    rw [fieldLines, List.forall_mem_cons, ← ih]
    constructor
    · rintro ⟨_, h⟩
      obtain ⟨line, hline, h⟩ := exists_of_bind h
      obtain ⟨lines, hlines, -⟩ := exists_of_bind h
      exact ⟨⟨line, hline⟩, lines, hlines⟩
    · rintro ⟨⟨line, hline⟩, lines, hlines⟩
      rw [hline, hlines]
      exact ⟨_, rfl⟩

theorem Model.exists_toText_iff {m : Model} :
    (∃ text, m.toText = .ok text) ↔ ∀ f ∈ m.fields, ∃ line, f.toText m.name = .ok line := by
  rw [← exists_fieldLines_iff, toText]
  constructor
  · rintro ⟨text, h⟩
    obtain ⟨lines, hlines, -⟩ := exists_of_bind h
    exact ⟨lines, hlines⟩
  · rintro ⟨lines, hlines⟩
    rw [hlines]
    exact ⟨_, rfl⟩

/-- **A schema has a text** just if each of its fields has. -/
theorem Schema.exists_toText_iff {s : Schema} : (∃ text, s.toText = .ok text) ↔
    ∀ m ∈ s.models, ∀ f ∈ m.fields, ∃ line, f.toText m.name = .ok line := by
  have hmodels : (∃ text, s.toText = .ok text) ↔ ∃ texts, s.models.mapM Model.toText = .ok texts := by
    rw [toText]
    constructor
    · rintro ⟨text, h⟩
      obtain ⟨texts, htexts, -⟩ := exists_of_bind h
      exact ⟨texts, htexts⟩
    · rintro ⟨texts, htexts⟩
      rw [htexts]
      exact ⟨_, rfl⟩
  rw [hmodels, exists_mapM_iff]
  exact forall₂_congr fun m _ => Model.exists_toText_iff

end Datamodel
