import Datamodel.Proofs.Keyed
import Datamodel.Proofs.Notes.Models

/-! The storage notes of a printed schema.

The notes read off the text of a plain schema are those of its models, one entry for each, and
nothing from its documentation, its enums and its configuration
(`Schema.extract_toText_of_plain`). -/

namespace Datamodel

open Notes
open Printer (banner blockLines commaList mapLine nameList textList unlines)
open Text (Avoids IsPlain avoids_append avoids_intercalate avoids_of_isName isBlank
  isNameChar_of_isName not_mem_toList_quote)
open Text.Quoted (quote)
open Token (IsName isBlank_of_isNameChar)

/-! ### Blocks without notes -/

/-- A line of a body that spans no lines and opens no model. -/
def IsQuiet (line : String) : Prop := '\n' ∉ line.toList ∧ IsSilent (' ' :: ' ' :: line.toList)

theorem isQuiet_of_head {line : String} {c : Char} {s : List Char} (hline : line.toList = c :: s)
    (hn : '\n' ∉ line.toList) (hc : isBlank c = false) (hm : c ≠ 'm') (hv : c ≠ 'v') :
    IsQuiet line := by
  refine ⟨hn, ?_⟩
  rw [hline]
  exact isSilent_of_head (b := [' ', ' ']) (by decide) hc hm hv s

theorem isQuiet_mapLine (dbName : Option String) : ∀ line ∈ mapLine dbName, IsQuiet line := by
  intro line hline
  rw [mapLine] at hline
  split at hline
  · cases hline
  · next name _ =>
    obtain rfl := List.mem_singleton.mp hline
    have hn : '\n' ∉ ("@@map(" ++ quote name ++ ")").toList := by
      simp [not_mem_toList_quote name]
    apply isQuiet_of_head (c := '@') _ hn (by decide) (by decide) (by decide)
    · exact '@' :: ("map(" ++ quote name ++ ")").toList
    · simp

theorem not_mem_of_isName {n : String} (h : IsName n) : '\n' ∉ n.toList := by
  have havoids : Avoids ['\n'] n.toList := avoids_of_isName h (by decide)
  exact havoids.not_mem List.mem_cons_self

theorem isQuiet_of_word {word : String} (hword : IsName word) {line : String} {d : Char}
    {s : List Char} (hline : line.toList = word.toList ++ ' ' :: d :: s) (hn : '\n' ∉ d :: s)
    (hd : isBlank d = false) (hsign : Text.isWordChar d = false) : IsQuiet line := by
  have hblank : ∀ c ∈ word.toList, isBlank c = false := fun c hc =>
    isBlank_of_isNameChar (isNameChar_of_isName hword c hc)
  have hne : word.toList ≠ [] := by
    obtain ⟨c, t, hw, -⟩ := hword
    rw [hw]
    exact List.cons_ne_nil c t
  rw [IsQuiet, hline]
  refine ⟨?_, isSilent_of_word (b := [' ', ' ']) (by decide) hne hblank hd hsign s⟩
  rw [List.mem_append, not_or]
  exact ⟨not_mem_of_isName hword, by simpa using hn⟩

theorem EnumValue.isQuiet {v : EnumValue} (h : IsName v.name) : IsQuiet v.toText := by
  have hbare : IsQuiet v.name := by
    refine ⟨not_mem_of_isName h, isSilent_word ?_ ?_⟩
    · obtain ⟨c, t, hw, -⟩ := h
      rw [hw]
      exact List.cons_ne_nil c t
    · exact fun c hc => isBlank_of_isNameChar (isNameChar_of_isName h c hc)
  rw [EnumValue.toText]
  split
  · next dbName _ =>
    split
    · exact hbare
    · have hline : (v.name ++ " @map(" ++ quote dbName ++ ")").toList =
          v.name.toList ++ ' ' :: '@' :: ("map(" ++ quote dbName ++ ")").toList := by
        simp
      have hn : '\n' ∉ '@' :: ("map(" ++ quote dbName ++ ")").toList := by
        simp [not_mem_toList_quote dbName]
      exact isQuiet_of_word h hline hn (by decide) (by decide)
  · exact hbare

/-- A line `key = ...`. -/
theorem isQuiet_property {key value line : String} (hkey : IsName key) (hn : '\n' ∉ value.toList)
    (hline : line = key ++ " = " ++ value) : IsQuiet line := by
  have htext : line.toList = key.toList ++ ' ' :: '=' :: ' ' :: value.toList := by
    rw [hline]
    simp
  refine isQuiet_of_word hkey htext ?_ (by decide) (by decide)
  simpa using hn

theorem not_mem_textList (values : List String) : '\n' ∉ (textList values).toList := by
  have hitems : Avoids ['\n'] (commaList (values.map quote)).toList := by
    apply avoids_intercalate (by decide)
    intro item hitem
    obtain ⟨v, -, rfl⟩ := List.mem_map.mp hitem
    intro c hc hmem
    exact not_mem_toList_quote v (List.mem_singleton.mp hmem ▸ hc)
  have hlist := hitems.not_mem (c := '\n') List.mem_cons_self
  simpa [textList, nameList] using hlist

theorem EnvValue.not_mem_toText (v : EnvValue) : '\n' ∉ v.toText.toList := by
  cases v with
  | env name => simp [toText, not_mem_toList_quote name]
  | value text => exact not_mem_toList_quote text

/-- A property with a key that is a name. A value as it is written spans no lines. -/
structure ConfigEntry.Plain (e : ConfigEntry) : Prop where
  key : IsName e.key
  raw : ∀ text, e.value = .raw text → '\n' ∉ text.toList

theorem ConfigEntry.Plain.isQuiet {e : ConfigEntry} (h : e.Plain) : IsQuiet e.toText := by
  have hvalue : '\n' ∉ e.value.toText.toList → IsQuiet e.toText :=
    fun hn => isQuiet_property h.key hn rfl
  apply hvalue
  cases hv : e.value with
  | text value => exact not_mem_toList_quote value
  | env name => simp [ConfigValue.toText, not_mem_toList_quote name]
  | list values => exact not_mem_textList values
  | raw text => exact h.raw text hv

/-! ### Schemas -/

/-- A schema whose models are legible. Documentation and the texts of enums, data sources and
generators are any. -/
structure Schema.Legible (s : Schema) : Prop where
  models : ∀ m ∈ s.models, m.Legible
  enums : ∀ e ∈ s.enums, IsName e.name ∧ ∀ v ∈ e.values, IsName v.name
  datasources : ∀ d ∈ s.datasources, IsName d.name ∧ ∀ e ∈ d.config, e.Plain
  generators : ∀ g ∈ s.generators, IsName g.name ∧ ∀ e ∈ g.config, e.Plain

theorem DataSource.blockMeans {d : DataSource} (hname : IsName d.name)
    (hconfig : ∀ e ∈ d.config, e.Plain) : BlockMeans d.lines none := by
  refine .other ⟨'d', "atasource".toList, rfl, by decide⟩ (by decide) (not_mem_of_isName hname) ?_
  intro line hline
  simp only [bodyLines, List.mem_append, List.mem_singleton, Option.mem_toList,
    Option.map_eq_some_iff, List.mem_map] at hline
  rcases hline with (rfl | ⟨url, -, rfl⟩) | ⟨e, he, rfl⟩
  · exact isQuiet_property (by decide : IsName "provider") (not_mem_toList_quote d.provider) rfl
  · exact isQuiet_property (by decide : IsName "url") url.not_mem_toText rfl
  · exact (hconfig e he).isQuiet

theorem Generator.blockMeans {g : Generator} (hname : IsName g.name)
    (hconfig : ∀ e ∈ g.config, e.Plain) : BlockMeans g.lines none := by
  refine .other ⟨'g', "enerator".toList, rfl, by decide⟩ (by decide) (not_mem_of_isName hname) ?_
  intro line hline
  simp only [bodyLines, List.mem_append, List.mem_singleton, Option.mem_toList,
    Option.map_eq_some_iff, List.mem_map, List.mem_ite_nil_left] at hline
  rcases hline with (((rfl | ⟨output, -, rfl⟩) | ⟨e, he, rfl⟩) | ⟨-, rfl⟩) | ⟨-, rfl⟩
  · exact isQuiet_property (by decide : IsName "provider") g.provider.not_mem_toText rfl
  · exact isQuiet_property (by decide : IsName "output") output.not_mem_toText rfl
  · exact (hconfig e he).isQuiet
  · exact isQuiet_property (by decide : IsName "binaryTargets") (not_mem_textList _) rfl
  · exact isQuiet_property (by decide : IsName "previewFeatures") (not_mem_textList _) rfl

theorem Enum.blockMeans {e : Enum} (hname : IsName e.name) (hvalues : ∀ v ∈ e.values, IsName v.name) :
    BlockMeans e.lines none := by
  refine .other ⟨'e', "num".toList, rfl, by decide⟩ (by decide) (not_mem_of_isName hname) ?_
  intro line hline
  rcases List.mem_append.mp hline with hline | hline
  · obtain ⟨v, hv, rfl⟩ := List.mem_map.mp hline
    exact EnumValue.isQuiet (hvalues v hv)
  · exact isQuiet_mapLine e.dbName line hline

theorem Model.forall₂_blockMeans {ms : List Model} (h : ∀ m ∈ ms, m.Legible)
    {blocks : List (List String)} (hblocks : ms.mapM Model.lines = .ok blocks) :
    List.Forall₂ BlockMeans blocks (ms.map fun m => some m.printedNotes) := by
  have hlines := forall₂_of_mapM hblocks
  rw [List.forall₂_map_right_iff]
  clear hblocks
  induction hlines with
  | nil => exact .nil
  | cons hm _ ih =>
    obtain ⟨hlegible, hrest⟩ := List.forall_mem_cons.mp h
    exact .cons (hlegible.blockMeans hm) (ih hrest)

/-- **The notes of a printed schema are those of its models**, in their order. -/
theorem Schema.Legible.extract_toText {s : Schema} (h : s.Legible) {text : String}
    (htext : s.toText = .ok text) : extract text.toList = s.models.map Model.printedNotes := by
  obtain ⟨models, hmodels, rfl⟩ := exists_lines_of_toText htext
  have hblocks : List.Forall₂ BlockMeans (s.blocksWith models)
      ((s.datasources.map fun _ => none) ++ (s.generators.map fun _ => none) ++
        (s.models.map fun m => some m.printedNotes) ++ s.enums.map fun _ => none) :=
    forall₂_blocksWith
      (fun d hd => DataSource.blockMeans (h.datasources d hd).1 (h.datasources d hd).2)
      (fun g hg => Generator.blockMeans (h.generators g hg).1 (h.generators g hg).2)
      (Model.forall₂_blockMeans h.models hmodels)
      (fun e he => Enum.blockMeans (h.enums e he).1 (h.enums e he).2)
  have hnotes : (s.models.map fun m => some m.printedNotes) =
      (s.models.map Model.printedNotes).map some := by
    rw [List.map_map]
    rfl
  refine (extract_unlines hblocks).trans ?_
  simp only [reduceOption_append, reduceOption_none, List.nil_append, List.append_nil]
  rw [hnotes, List.reduceOption, List.filterMap_map]
  exact List.filterMap_some

/-! ### Looking notes up -/

/-- The notes of a model, those of its fields being `notes`. -/
def Model.notesWith (notes : Field → FieldNotes) (m : Model) : ModelNotes where
  model := m.name
  lines := m.fields.filterMap (fun f =>
    if notes f = {} then none else some (.field f.name (notes f))) ++
      m.secondaryIndexes.map .secondaryIndex

theorem Model.notes_eq : notes = notesWith Field.notes := rfl

theorem Model.printedNotes_eq : printedNotes = notesWith Field.printedNotes := rfl

section
variable {notes : Field → FieldNotes} {ms : List Model} {m : Model} {n : String}

theorem Notes.linesOf?_map (h : (ms.map (·.name)).Nodup) (hm : m ∈ ms) :
    linesOf? (ms.map (Model.notesWith notes)) m.name = some (m.notesWith notes).lines := by
  have hany : (ms.map (Model.notesWith notes)).any (·.model == m.name) = true := by
    rw [List.any_eq_true]
    exact ⟨m.notesWith notes, List.mem_map_of_mem hm, beq_self_eq_true _⟩
  have hfilter : (ms.map (Model.notesWith notes)).filter (·.model == m.name) =
      [m.notesWith notes] := by
    rw [List.filter_map]
    exact congrArg (List.map (Model.notesWith notes)) (filter_eq_singleton h hm)
  rw [linesOf?, if_pos hany, hfilter, List.flatMap_singleton]

theorem Notes.linesOf?_map_eq_none (h : n ∉ ms.map (·.name)) :
    linesOf? (ms.map (Model.notesWith notes)) n = none := by
  rw [linesOf?, if_neg]
  rw [List.any_eq_true]
  rintro ⟨a, ha, he⟩
  obtain ⟨m, hm, rfl⟩ := List.mem_map.mp ha
  exact h (beq_iff_eq.mp he ▸ List.mem_map_of_mem hm)

theorem Model.filterMap_notesOf? (m : Model) (n : String) :
    (m.notesWith notes).lines.filterMap (LineNote.notesOf? n) =
      (m.fields.filter (·.name == n)).filterMap fun f =>
        if notes f = {} then none else some (notes f) := by
  have hindexes : (m.secondaryIndexes.map LineNote.secondaryIndex).filterMap
      (LineNote.notesOf? n) = [] := by
    rw [List.filterMap_map]
    exact List.filterMap_eq_nil_iff.mpr fun _ _ => rfl
  rw [notesWith, List.filterMap_append, hindexes, List.append_nil, List.filterMap_filterMap,
    List.filterMap_filter]
  refine congrArg (List.filterMap · m.fields) (funext fun f => ?_)
  by_cases hn : f.name = n <;> by_cases he : notes f = {} <;> simp [hn, he, LineNote.notesOf?]

theorem Model.fieldIn?_notesWith (h : m.fieldNames.Nodup) {f : Field} (hf : f ∈ m.fields) :
    LineNote.fieldIn? (m.notesWith notes).lines f.name =
      if notes f = {} then none else some (notes f) := by
  rw [LineNote.fieldIn?, m.filterMap_notesOf?, filter_eq_singleton h hf]
  by_cases he : notes f = {} <;> simp [he]

theorem Model.fieldIn?_printedNotes (h : m.fieldNames.Nodup) {f : Field} (hf : f ∈ m.fields) :
    LineNote.fieldIn? m.printedNotes.lines f.name =
      if f.printedNotes = {} then none else some f.printedNotes := by
  rw [printedNotes_eq]
  exact fieldIn?_notesWith h hf

theorem Model.fieldIn?_notesWith_eq_none (h : n ∉ m.fieldNames) :
    LineNote.fieldIn? (m.notesWith notes).lines n = none := by
  rw [LineNote.fieldIn?, m.filterMap_notesOf?, filter_eq_nil_of_not_mem h]
  rfl

theorem Model.secondaryIndexesIn_notesWith (m : Model) :
    LineNote.secondaryIndexesIn (m.notesWith notes).lines = m.secondaryIndexes := by
  have hfields : (m.fields.filterMap fun f => if notes f = {} then none
      else some (LineNote.field f.name (notes f))).filterMap LineNote.secondaryIndex? = [] := by
    rw [List.filterMap_filterMap, List.filterMap_eq_nil_iff]
    intro f _
    split <;> rfl
  rw [LineNote.secondaryIndexesIn, notesWith, List.filterMap_append, hfields, List.nil_append,
    List.filterMap_map]
  exact List.filterMap_some

end

/-! ### Plain schemas -/

/-- A schema of names whose models hold plain texts only. Documentation and the texts of enums, data
sources and generators are any. -/
structure Schema.Plain (s : Schema) : Prop where
  models : ∀ m ∈ s.models, m.Plain
  modelNames : (s.models.map (·.name)).Nodup
  enums : ∀ e ∈ s.enums, IsName e.name ∧ ∀ v ∈ e.values, IsName v.name
  datasources : ∀ d ∈ s.datasources, IsName d.name ∧ ∀ e ∈ d.config, e.Plain
  generators : ∀ g ∈ s.generators, IsName g.name ∧ ∀ e ∈ g.config, e.Plain

theorem Schema.Plain.legible {s : Schema} (h : s.Plain) : s.Legible where
  models := fun m hm => (h.models m hm).legible
  enums := h.enums
  datasources := h.datasources
  generators := h.generators

theorem Schema.Plain.map_printedNotes {s : Schema} (h : s.Plain) :
    s.models.map Model.printedNotes = s.models.map Model.notes :=
  List.map_congr_left fun m hm => (h.models m hm).printedNotes_eq

/-- **The reader of notes recovers what the printer wrote.** The notes of the text of a plain
schema have one entry for each model and none for any other name. In it, a field that has something
to note has exactly that, no other field has anything, and the secondary indexes stand in their
order. -/
theorem Schema.extract_toText_of_plain {s : Schema} (h : s.Plain) {text : String}
    (htext : s.toText = .ok text) :
    extract text.toList = s.models.map Model.notes ∧
    (∀ m ∈ s.models, ∃ lines, (extract text.toList).linesOf? m.name = some lines ∧
      (∀ f ∈ m.fields, LineNote.fieldIn? lines f.name =
        if f.notes = {} then none else some f.notes) ∧
      (∀ n ∉ m.fieldNames, LineNote.fieldIn? lines n = none) ∧
      LineNote.secondaryIndexesIn lines = m.secondaryIndexes) ∧
    ∀ n ∉ s.models.map (·.name), (extract text.toList).linesOf? n = none := by
  have hextract : extract text.toList = s.models.map Model.notes :=
    (h.legible.extract_toText htext).trans h.map_printedNotes
  rw [hextract, Model.notes_eq]
  refine ⟨rfl, ?_, ?_⟩
  · intro m hm
    refine ⟨_, linesOf?_map h.modelNames hm, ?_, ?_, m.secondaryIndexesIn_notesWith⟩
    · exact fun f hf => Model.fieldIn?_notesWith (h.models m hm).fieldNames hf
    · exact fun n hn => Model.fieldIn?_notesWith_eq_none hn
  · exact fun n hn => linesOf?_map_eq_none hn

/-- A schema whose documentation, enum and properties look like models and attributes. -/
def library : Schema where
  models := [
    { name := "Author"
      fields := [
        { name := "id", kind := .scalar, type := "Int", isId := true
          default := some (.call "autoincrement" []) },
        { name := "name", kind := .scalar, type := "String", columnName := some "full name"
          nativeType := some "@db.VarChar(80)", default := some (.text "map and onUpdate")
          documentation := some "Not @map(\"other\").\n\x7d\nmodel Other \x7b" },
        { name := "books", kind := .object, type := "Book", isList := true, isRequired := false
          relation := some { name := "written" } }]
      dbName := some "authors"
      secondaryIndexes := ["@@index([name], map: \"by name\")"]
      documentation := some "model Author \x7b" },
    { name := "Bookview"
      fields := [
        { name := "authorId", kind := .scalar, type := "Int" },
        { name := "author", kind := .object, type := "Author"
          relation := some { name := "written", fromFields := ["authorId"], toFields := ["id"]
                             onDelete := some .cascade, onUpdate := some .setNull
                             map := some "author_fk" } }]
      uniqueIndexes := [{ name := some "map", fields := ["authorId"] }]
      uniqueFields := [["authorId"]] }]
  enums := [
    { name := "Genre", dbName := some "x\n\x7d\nmodel Genre \x7b"
      values := [{ name := "model", dbName := some "@@index([a])" }, { name := "PROSE" }] }]
  datasources := [
    { name := "db", provider := "sqlite"
      config := [{ key := "model", value := .raw "Config \x7b" }] }]

theorem exists_toText_library : ∃ text, library.toText = .ok text := by
  have hsome : library.toText.toOption.isSome = true := by decide +kernel
  cases htext : library.toText with
  | error e =>
    rw [htext] at hsome
    cases hsome
  | ok text => exact ⟨text, rfl⟩

theorem isNativeType_varChar : IsNativeType "@db.VarChar(80)" :=
  ⟨"VarChar", "(80)".toList, by decide, .inr ⟨['8', '0'], nofun, by decide, rfl⟩, rfl⟩

theorem Schema.plain_library : library.Plain where
  models := by
    intro m hm
    simp only [library, List.mem_cons, List.not_mem_nil, or_false] at hm
    rcases hm with rfl | rfl
    · refine ⟨by decide, by decide, ?_, by decide, by decide, nofun, nofun, ?_⟩
      · intro f hf
        simp only [List.mem_cons, List.not_mem_nil, or_false] at hf
        rcases hf with rfl | rfl | rfl
        · exact ⟨by decide, by decide, nofun, by rintro _ ⟨⟩; exact .call (by decide) nofun, nofun,
            nofun⟩
        · exact ⟨by decide, by decide, by decide, by rintro _ ⟨⟩; exact .text (by decide),
            by rintro _ ⟨⟩; exact isNativeType_varChar, nofun⟩
        · exact ⟨by decide, by decide, nofun, nofun, nofun,
            by rintro _ ⟨⟩; exact ⟨by decide, nofun, nofun, nofun, fun _ => ⟨rfl, rfl⟩⟩⟩
      · intro t ht
        obtain rfl := List.mem_singleton.mp ht
        exact ⟨"[name], map: \"by name\"".toList, by decide, rfl⟩
    · refine ⟨by decide, by decide, ?_, by decide, nofun, ?_, nofun, nofun⟩
      · intro f hf
        simp only [List.mem_cons, List.not_mem_nil, or_false] at hf
        rcases hf with rfl | rfl
        · exact ⟨by decide, by decide, nofun, nofun, nofun, nofun⟩
        · exact ⟨by decide, by decide, nofun, nofun, nofun,
            by rintro _ ⟨⟩; exact ⟨by decide, by decide, by decide, by decide, nofun⟩⟩
      · intro i hi
        obtain rfl := List.mem_singleton.mp hi
        exact ⟨by decide, by decide⟩
  modelNames := by decide
  enums := by decide
  datasources := by
    intro d hd
    obtain rfl := List.mem_singleton.mp hd
    refine ⟨by decide, fun e he => ?_⟩
    obtain rfl := List.mem_singleton.mp he
    exact ⟨by decide, by rintro _ ⟨⟩; decide⟩
  generators := nofun

theorem extract_toText_of_plain_library : library.Plain ∧ ∃ text, library.toText = .ok text ∧
    extract text.toList = [
      ⟨"Author", [.field "name" { columnName := some "full name"
                                  nativeType := some "@db.VarChar(80)" },
        .secondaryIndex "@@index([name], map: \"by name\")"]⟩,
      ⟨"Bookview", [.field "author" { onUpdate := some .setNull
                                      relationMap := some "author_fk" }]⟩] := by
  obtain ⟨text, htext⟩ := exists_toText_library
  have hnotes := (Schema.extract_toText_of_plain Schema.plain_library htext).1
  exact ⟨Schema.plain_library, text, htext, hnotes.trans (by decide)⟩

end Datamodel
