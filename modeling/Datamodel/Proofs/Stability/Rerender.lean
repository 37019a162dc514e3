import Datamodel.Proofs.Stability.Merged
import Datamodel.Proofs.Stability.Reread

/-! Merging, printing, and doing both once more.

The text of a merge is loaded, and the merge of that one fragment has the text of the schema whose
names are escaped (`Schema.Rereadable.toText_reread`). So the second text is the first one just if
the names of columns and constraints hold nothing that a literal escapes
(`toText_merge_load_iff`). -/

namespace Datamodel

open Notes
open Text (Avoids avoids_of_isName)
open Token (IsName)

/-! ### Steady schemas -/

/-- A relation of names whose texts hold no word that is looked for. Without a link it has a
name. -/
structure Relation.Steady (r : Relation) : Prop where
  named : r.fromFields = [] → r.name ≠ ""
  fromFields : ∀ n ∈ r.fromFields, IsName n
  toFields : ∀ n ∈ r.toFields, IsName n
  name : Lacks (marks ++ labels) r.name
  map : ∀ n ∈ r.printedMap, Lacks (marks ++ labels) n

/-- A default that is printed as an expression which makes a default of the same text. -/
def DefaultValue.Steady (kind : FieldKind) (type : String) (d : DefaultValue) : Prop :=
  ∃ e : Expr, e.Lexical ∧ Lacks marks e.toText ∧ d.valueText kind type = .ok e.toText ∧
    (e.toDefault kind).valueText kind type = .ok e.toText

/-- A field whose texts hold no word that is looked for. Its native type is read as such, both as an
attribute and as a note. -/
structure Field.Steady (f : Field) : Prop where
  columnName : ∀ n ∈ f.columnName, Lacks marks n
  default : ∀ d ∈ f.default, d.Steady f.kind f.type
  nativeType : ∀ t ∈ f.nativeType, IsNativeType t ∧
    ∃ a : PrintedAttribute .marker, a.text = t ∧ a.name ∉ Field.interpreted
  relation : ∀ r ∈ f.relation, r.Steady

/-- An index of names whose own name holds no secondary index. -/
structure Index.Steady (i : Index) : Prop where
  name : ∀ n ∈ i.name, ¬indexMark <:+: n.toList
  fields : ∀ n ∈ i.fields, IsName n

/-- A model with a name that the notes can tell, and fields of distinct names. -/
structure Model.Steady (m : Model) : Prop where
  undotted : '.' ∉ m.name.toList
  fieldNames : m.fieldNames.Nodup
  fields : ∀ f ∈ m.fields, f.Steady
  dbName : ∀ n ∈ m.dbName, ¬indexMark <:+: n.toList
  unique : ∀ i ∈ m.uniqueIndexes, i.Steady
  primaryKey : ∀ i ∈ m.primaryKey, i.Steady
  secondaryIndexes : ∀ t ∈ m.secondaryIndexes,
    ∃ a : PrintedAttribute .blockMarker, a.text = t ∧ a.name ∉ Model.interpreted

/-- A schema none of whose names is declared twice. -/
structure Schema.Steady (s : Schema) : Prop where
  names : (s.names.map (·.1)).Nodup
  models : ∀ m ∈ s.models, m.Steady

/-! ### From steady to read back -/

theorem Relation.Steady.lexical {r : Relation} (h : r.Steady) : r.Lexical where
  named := by
    intro hf
    have hname : r.name ≠ "" := h.named (List.isEmpty_iff.mp hf)
    rwa [Bool.eq_false_iff, ne_eq, String.isEmpty_iff]
  fromFields := h.fromFields
  toFields := h.toFields

theorem Relation.Steady.legible {r : Relation} (h : r.Steady)
    (hquote : ∀ n ∈ r.map, '"' ∉ n.toList) : r.Legible where
  name := h.name
  fromFields := fun n hn => avoids_of_isName (h.fromFields n hn) (by decide)
  toFields := fun n hn => avoids_of_isName (h.toFields n hn) (by decide)
  map := by
    intro n hn
    refine ⟨hquote n ?_, h.map n hn⟩
    rw [printedMap] at hn
    split at hn
    · cases hn
    · exact hn

section
variable {names : List (String × FieldKind)}

theorem Field.Steady.legible {f : Field} (h : f.Steady) (hwell : f.WellFormed names)
    (htype : IsName f.type) : f.Legible where
  name := hwell.name
  type := htype
  columnName := fun n hn => ⟨hwell.columnName n hn, h.columnName n hn⟩
  default := by
    intro d hd t ht
    obtain ⟨e, hlexical, hlacks, htext, -⟩ := h.default d hd
    rw [htext] at ht
    cases ht
    exact ⟨hlexical.avoids_newline.not_mem List.mem_cons_self, hlacks⟩
  nativeType := fun t ht => (h.nativeType t ht).1
  relation := fun r hr => (h.relation r hr).legible (hwell.relationMap r hr)

/-- The default of a steady field is printed as an expression, and so is what the expression
makes. -/
theorem Field.Steady.exists_default {f : Field} (h : f.Steady) :
    ∃ e : Option Expr, (∀ x ∈ e, x.Lexical) ∧
      (∀ model, f.default.mapM (f.defaultText model) =
        .ok (e.map fun e => "@default(" ++ e.toText ++ ")")) ∧
      ∀ model, (e.map (Expr.toDefault f.kind)).mapM (f.defaultText model) =
        .ok (e.map fun e => "@default(" ++ e.toText ++ ")") := by
  cases hd : f.default with
  | none => exact ⟨none, nofun, fun _ => rfl, fun _ => rfl⟩
  | some d =>
    obtain ⟨e, hlexical, -, htext, hagain⟩ := h.default d hd
    refine ⟨some e, by rintro _ ⟨⟩; exact hlexical, fun model => ?_, fun model => ?_⟩
    · rw [Option.mapM_some, defaultText, htext]
      rfl
    · rw [Option.map_some, Option.mapM_some, defaultText, hagain]
      rfl

theorem Field.Steady.rereadable {f : Field} (h : f.Steady) (hwell : f.WellFormed names)
    (hkind : f.kind ≠ .unsupported) : ∃ e, f.Rereadable e := by
  obtain ⟨htype, -⟩ := hwell.type.resolve_left hkind
  obtain ⟨e, hexpr, hdefault, hagain⟩ := h.exists_default
  obtain ⟨stored, hstored, hpassed⟩ :=
    PrintsAs.exists_of_option fun t ht => (h.nativeType t ht).2
  have hlexical : f.Lexical e stored := {
    name := hwell.name
    type := htype
    supported := hkind
    list := hwell.list
    default := hdefault
    expr := hexpr
    nativeType := hstored
    passedOver := hpassed
    relation := fun r hr => (h.relation r hr).lexical
    object := hwell.object }
  exact ⟨e, hwell.documentation, ⟨stored, hlexical⟩, h.legible hwell htype, hagain⟩

theorem Index.Steady.legible {i : Index} (h : i.Steady) : i.Legible where
  name := h.name
  fields := fun n hn => avoids_of_isName (h.fields n hn) (by decide)

theorem Model.Steady.rereadable {m : Model} {e : Field → Option Expr} (h : m.Steady)
    (hwell : m.WellFormed names) (hfields : ∀ f ∈ m.fields, f.Rereadable (e f)) :
    m.Rereadable e := by
  obtain ⟨secondary, hsecondary, hpassed⟩ := PrintsAs.exists_of_list h.secondaryIndexes
  have hlexical : m.Lexical secondary := {
    name := hwell.name
    documentation := hwell.documentation
    unique := fun i hi => (h.unique i hi).fields
    primaryKey := fun i hi => (h.primaryKey i hi).fields
    secondaryIndexes := hsecondary
    passedOver := hpassed }
  have hlegible : m.Legible := {
    name := hwell.name
    undotted := h.undotted
    fields := fun f hf => (hfields f hf).legible
    dbName := h.dbName
    unique := fun i hi => (h.unique i hi).legible
    primaryKey := fun i hi => (h.primaryKey i hi).legible
    secondaryIndexes := hwell.secondaryIndexes }
  exact ⟨⟨secondary, hlexical⟩, hlegible, h.fieldNames, hfields⟩

end

namespace Schema
variable {s : Schema}

theorem WellFormed.consistent (h : s.WellFormed s.names) (hnames : (s.names.map (·.1)).Nodup)
    (hkinds : ∀ m ∈ s.models, ∀ f ∈ m.fields, f.kind ≠ .unsupported) : s.Consistent where
  names := hnames
  kinds := by
    intro m hm f hf
    obtain ⟨-, hscalar | hdeclared⟩ :=
      ((h.models m hm).fields f hf).type.resolve_left (hkinds m hm f hf)
    · rw [hscalar.2, FieldKind.among?_scalar hscalar.1]
    · exact FieldKind.among?_of_mem hdeclared.1 hnames hdeclared.2

theorem Steady.rereadable (h : s.Steady) (hwell : s.WellFormed s.names) {text : String}
    (htext : s.toText = .ok text) : ∃ e, s.Rereadable e := by
  have hkinds : ∀ m ∈ s.models, ∀ f ∈ m.fields, f.kind ≠ .unsupported :=
    fun m hm f hf => (Field.exists_toText_iff.mp (exists_toText_iff.mp ⟨text, htext⟩ m hm f hf)).1
  have hexpr (f : Field) : ∃ e, (∃ m ∈ s.models, f ∈ m.fields) → f.Rereadable e := by
    by_cases hf : ∃ m ∈ s.models, f ∈ m.fields
    · obtain ⟨m, hm, hf⟩ := hf
      obtain ⟨e, he⟩ := ((h.models m hm).fields f hf).rereadable ((hwell.models m hm).fields f hf)
        (hkinds m hm f hf)
      exact ⟨e, fun _ => he⟩
    · exact ⟨none, fun hmem => absurd hmem hf⟩
  choose e he using hexpr
  refine ⟨e, ?_, hwell.enums, hwell.datasources, hwell.generators, hwell.consistent h.names hkinds⟩
  intro m hm
  exact (h.models m hm).rereadable (hwell.models m hm) fun f hf => he f ⟨m, hm, hf⟩

end Schema

/-! ### Printing once more -/

theorem Schema.Rereadable.merge_singleton {s : Schema} {e : Field → Option Expr}
    (h : s.Rereadable e) (husable : s.IsUsable) (origin : String) (policy : Policy) :
    merge [⟨origin, s.reread e⟩] policy = s.reread e := by
  obtain ⟨hmodels, henums⟩ := h.nodup_names
  have hmodels' : ((s.reread e).models.map (·.name)).Nodup := by
    rw [reread, List.map_map]
    exact hmodels
  have henums' : ((s.reread e).enums.map (·.name)).Nodup := by
    rw [reread, List.map_map]
    exact henums
  exact Datamodel.merge_singleton hmodels' henums' husable origin policy

/-- **The text of a merge, merged and printed once more.** The text of a steady merge of loaded
fragments is loaded again, and the merge of that one fragment has a text. It is the first text just
if the names of columns and constraints hold nothing that a literal escapes. -/
theorem toText_merge_load_iff {fragments : List Fragment}
    (hloaded : ∀ f ∈ fragments, ∃ source, Fragment.load f.origin source = .ok f) (policy : Policy)
    (hsteady : (merge fragments policy).Steady) {text : String}
    (htext : (merge fragments policy).toText = .ok text) (origin : String) :
    ∃ again second, Fragment.load origin text = .ok again ∧
      (merge [again] policy).toText = .ok second ∧
      (second = text ↔ ∀ m ∈ (merge fragments policy).models, ∀ f ∈ m.fields, f.Verbatim) := by
  have hwell : (merge fragments policy).WellFormed (merge fragments policy).names := by
    apply Schema.wellFormed_merge
    intro f hf
    obtain ⟨source, hsource⟩ := hloaded f hf
    exact Fragment.wellFormed_of_load hsource
  obtain ⟨e, he⟩ := hsteady.rereadable hwell htext
  have hagain : (merge [⟨origin, (merge fragments policy).reread e⟩] policy).toText =
      (merge fragments policy).escaped.toText := by
    rw [he.merge_singleton (Schema.isUsable_merge fragments policy) origin policy, he.toText_reread]
  obtain ⟨second, hsecond⟩ := Schema.exists_toText_escaped htext
  have hnames : ∀ m ∈ (merge fragments policy).models, m.fieldNames.Nodup :=
    fun m hm => (hsteady.models m hm).fieldNames
  refine ⟨_, second, he.load_toText htext origin, hagain.trans hsecond, ?_⟩
  rw [← Schema.toText_escaped_iff he.legible hnames htext, hsecond, Except.ok.injEq]

/-- A schema of one column. -/
def mapped (column : String) : Schema where
  models := [{
    name := "A"
    fields := [{
      name := "id", kind := .scalar, type := "Int", isId := true, columnName := some column }] }]

theorem steady_mapped {column : String} (h : Lacks marks column) : (mapped column).Steady where
  names := List.pairwise_singleton _ _
  models := by
    refine List.forall_mem_singleton.mpr
      ⟨?_, List.pairwise_singleton _ _, ?_, nofun, nofun, nofun, nofun⟩
    · show '.' ∉ "A".toList
      decide
    · refine List.forall_mem_singleton.mpr ⟨?_, nofun, nofun, nofun⟩
      rintro n ⟨⟩
      exact h

theorem verbatim_mapped_iff {column : String} :
    (∀ m ∈ (mapped column).models, ∀ f ∈ m.fields, f.Verbatim) ↔
      Avoids ['"', '\\', '\n', '\r', '\t'] column.toList := by
  constructor
  · intro h
    have hfield := h _ (List.mem_singleton.mpr rfl) _ (List.mem_singleton.mpr rfl)
    exact hfield.columnName column rfl
  · intro h
    refine List.forall_mem_singleton.mpr (List.forall_mem_singleton.mpr ⟨?_, nofun⟩)
    rintro n ⟨⟩
    exact h

theorem exists_toText_mapped (column : String) : ∃ text, (mapped column).toText = .ok text := by
  apply Schema.exists_toText_iff.mpr
  refine List.forall_mem_singleton.mpr (List.forall_mem_singleton.mpr ?_)
  exact Field.exists_toText_iff.mpr ⟨nofun, none, rfl⟩

/-- The text of a column `a_b` is stable, that of a column with two backslashes is not. -/
theorem toText_merge_load_iff_mapped :
    (∃ text again, (mapped "a_b").toText = .ok text ∧
      Fragment.load "again.prisma" text = .ok again ∧ (merge [again]).toText = .ok text) ∧
    ∃ text again second, (mapped "a\\\\b").toText = .ok text ∧
      Fragment.load "again.prisma" text = .ok again ∧ (merge [again]).toText = .ok second ∧
      second ≠ text := by
  have hrender {column source : String} (hcolumn : Lacks marks column)
      (hsource : Fragment.load "a.prisma" source = .ok ⟨"a.prisma", mapped column⟩) :
      ∃ text again second, (mapped column).toText = .ok text ∧
        Fragment.load "again.prisma" text = .ok again ∧ (merge [again]).toText = .ok second ∧
        (second = text ↔ Avoids ['"', '\\', '\n', '\r', '\t'] column.toList) := by
    have hname : ((mapped column).models.map (·.name)).Nodup := List.pairwise_singleton _ _
    have hmerge : merge [⟨"a.prisma", mapped column⟩] = mapped column :=
      merge_singleton hname .nil (.inl rfl) _ _
    have hloaded : ∀ f ∈ [(⟨"a.prisma", mapped column⟩ : Fragment)],
        ∃ source, Fragment.load f.origin source = .ok f :=
      List.forall_mem_singleton.mpr ⟨source, hsource⟩
    obtain ⟨text, htext⟩ := exists_toText_mapped column
    obtain ⟨again, second, hagain, hsecond, hiff⟩ := toText_merge_load_iff hloaded .last
      (hmerge.symm ▸ steady_mapped hcolumn) (hmerge.symm ▸ htext) "again.prisma"
    rw [hmerge, verbatim_mapped_iff] at hiff
    exact ⟨text, again, second, htext, hagain, hsecond, hiff⟩
  have hplain : Fragment.load "a.prisma" "model A \x7b\n  id Int @id @map(\"a_b\")\n\x7d\n" =
      .ok ⟨"a.prisma", mapped "a_b"⟩ := eq_ok_of_toOption (by decide +kernel)
  have hslashed : Fragment.load "a.prisma" "model A \x7b\n  id Int @id @map(\"a\\\\b\")\n\x7d\n" =
      .ok ⟨"a.prisma", mapped "a\\\\b"⟩ := eq_ok_of_toOption (by decide +kernel)
  constructor
  · obtain ⟨text, again, second, htext, hagain, hsecond, hiff⟩ := hrender (by decide) hplain
    exact ⟨text, again, htext, hagain, hsecond.trans (congrArg Except.ok (hiff.mpr (by decide)))⟩
  · obtain ⟨text, again, second, htext, hagain, hsecond, hiff⟩ := hrender (by decide) hslashed
    exact ⟨text, again, second, htext, hagain, hsecond, fun h => absurd (hiff.mp h) (by decide)⟩

end Datamodel
