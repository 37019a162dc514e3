import Datamodel.Proofs.Schema.Structure

/-! The structured reader decodes what the printer encodes.

`Schema.Printable` says what a schema without data sources and generators has to look like for its
text to declare it again; `Schema.withoutStorage` is what is left of it, since column names, native
types, update actions, constraint names and secondary indexes are not read by the grammar. -/

namespace Datamodel

open Token (IsName IsNumber)

/-! ### What the grammar passes over -/

/-- A relation without its update action and the name of its constraint. -/
def Relation.withoutStorage (r : Relation) : Relation := { r with onUpdate := none, map := none }

def Field.withoutStorage (f : Field) : Field :=
  { f with
    columnName := none
    nativeType := none
    relation := f.relation.map Relation.withoutStorage }

def Model.withoutStorage (m : Model) : Model :=
  { m with fields := m.fields.map Field.withoutStorage, secondaryIndexes := [] }

def Schema.withoutStorage (s : Schema) : Schema :=
  { s with models := s.models.map Model.withoutStorage }

/-! ### Printable schemas -/

/-- A default that is read back as it is, on a field of that kind and type. -/
inductive DefaultValue.Printable (kind : FieldKind) (type : String) : DefaultValue → Prop where
  | text {value : String} (hkind : kind = .scalar) (htype : type ≠ "BigInt") :
    Printable kind type (.text value)
  | number {lexeme : String} (h : IsNumber lexeme) : Printable kind type (.number lexeme)
  | boolean {value : Bool} : Printable kind type (.boolean value)
  | member {name : String} (hkind : kind = .enum) (h : IsName name) (htrue : name ≠ "true")
    (hfalse : name ≠ "false") : Printable kind type (.member name)
  | call {function : String} {args : List String} (h : IsName function)
    (hfunction : function ≠ "dbgenerated") (hargs : ∀ a ∈ args, IsName a ∨ IsNumber a) :
    Printable kind type (.call function args)
  | dbgenerated {arg : String} : Printable kind type (.call "dbgenerated" [arg])

/-- A relation whose side without a link has a name and nothing else. -/
structure Relation.Printable (r : Relation) : Prop where
  unlinked : r.fromFields = [] → r.name ≠ "" ∧ r = { name := r.name }
  fromFields : ∀ n ∈ r.fromFields, IsName n
  toFields : ∀ n ∈ r.toFields, IsName n

/-- What the type of a field of the schema `s` may be. -/
inductive Field.Typed (s : Schema) (f : Field) : Prop where
  | scalar (hkind : f.kind = .scalar) (htype : f.type ∈ scalarTypes) (hrelation : f.relation = none)
  | enum (hkind : f.kind = .enum) (htype : f.type ∈ s.enums.map (·.name))
    (hrelation : f.relation = none)
  | object (hkind : f.kind = .object) (htype : f.type ∈ s.models.map (·.name)) {r : Relation}
    (hrelation : f.relation = some r)

/-- A field of the schema `s` that is read back. Its native type is any attribute that the grammar
passes over. -/
structure Field.Printable (s : Schema) (f : Field) : Prop where
  name : IsName f.name
  type : f.Typed s
  list : f.isList = true → f.isRequired = false
  default : ∀ d ∈ f.default, d.Printable f.kind f.type
  nativeType : ∀ t ∈ f.nativeType, ∃ a : PrintedAttribute .marker,
    a.text = t ∧ a.name ∉ Field.interpreted
  relation : ∀ r ∈ f.relation, r.Printable
  documentation : IsDocumentation f.documentation

/-- A model of the schema `s` that is read back. Its secondary indexes are any attributes that the
grammar passes over. -/
structure Model.Printable (s : Schema) (m : Model) : Prop where
  name : IsName m.name
  fields : ∀ f ∈ m.fields, f.Printable s
  dbName : m.dbName ≠ some ""
  unique : ∀ i ∈ m.uniqueIndexes, ∀ n ∈ i.fields, IsName n
  uniqueFields : m.uniqueFields = m.uniqueIndexes.map (·.fields)
  primaryKey : ∀ i ∈ m.primaryKey, i.fields ≠ [] ∧ ∀ n ∈ i.fields, IsName n
  secondaryIndexes : ∀ t ∈ m.secondaryIndexes, ∃ a : PrintedAttribute .blockMarker,
    a.text = t ∧ a.name ∉ Model.interpreted
  documentation : IsDocumentation m.documentation

/-- An enum that is read back. A value is not mapped to its own name. -/
structure Enum.Printable (e : Enum) : Prop where
  name : IsName e.name
  values : ∀ v ∈ e.values, IsName v.name ∧ v.dbName ≠ some v.name
  dbName : e.dbName ≠ some ""
  documentation : IsDocumentation e.documentation

/-- A schema of models and enums that is read back. -/
structure Schema.Printable (s : Schema) : Prop where
  datasources : s.datasources = []
  generators : s.generators = []
  models : ∀ m ∈ s.models, m.Printable s
  enums : ∀ e ∈ s.enums, e.Printable
  names : (s.models.map (·.name) ++ s.enums.map (·.name)).Nodup
  scalarTypes : ∀ n ∈ s.models.map (·.name) ++ s.enums.map (·.name), n ∉ scalarTypes

/-! ### Defaults -/

/-- A word as the argument of a call. -/
def Expr.ofWord (word : String) : Expr := if IsName word then .name word else .number word

theorem Expr.toText_ofWord (word : String) : (ofWord word).toText = word := by
  rw [ofWord]
  split <;> rfl

theorem Expr.bareText_ofWord (word : String) : Argument.bareText ⟨none, ofWord word⟩ = word := by
  rw [ofWord]
  split <;> rfl

theorem Expr.lexical_ofWord {word : String} (h : IsName word ∨ IsNumber word) :
    (ofWord word).Lexical := by
  rw [ofWord]
  split
  · next hname => exact .name hname
  · next hname => exact .number (h.resolve_left hname)

/-- A default is printed as an expression that gives the default again. -/
theorem DefaultValue.Printable.exists_expr {kind : FieldKind} {type : String} {d : DefaultValue}
    (h : d.Printable kind type) :
    ∃ e : Expr, e.Lexical ∧ d.valueText kind type = .ok e.toText ∧ e.toDefault kind = d := by
  cases h with
  | @text value hkind htype =>
    refine ⟨.text value, .text value, ?_, rfl⟩
    rw [valueText, if_pos ⟨hkind, htype⟩, Expr.toText]
  | @number lexeme h => exact ⟨.number lexeme, .number h, rfl, rfl⟩
  | @boolean value =>
    cases value with
    | false => exact ⟨.name "false", .name (by decide), rfl, rfl⟩
    | true => exact ⟨.name "true", .name (by decide), rfl, rfl⟩
  | @member name hkind h htrue hfalse =>
    refine ⟨.name name, .name h, rfl, ?_⟩
    unfold Expr.toDefault
    split <;> simp_all
  | @call function args h hfunction hargs =>
    refine ⟨.call function (args.map fun a => ⟨none, .ofWord a⟩), ?_, ?_, ?_⟩
    · refine .call h ?_ ?_ <;> rw [List.forall_mem_map]
      · rintro a - label ⟨⟩
      · exact fun a ha => Expr.lexical_ofWord (hargs a ha)
    · simp [valueText, hfunction, Expr.toText, Printer.commaList, Argument.toText,
        Expr.toText_ofWord, Function.comp_def]
    · simp [Expr.toDefault, Expr.bareText_ofWord, Function.comp_def]
  | @dbgenerated arg =>
    refine ⟨.call "dbgenerated" [⟨none, .text arg⟩], ?_, ?_, rfl⟩
    · exact .call (by decide) (by simp) (by simpa using .text arg)
    · simp [valueText, Printer.commaList, Expr.toText, Argument.toText]

/-! ### Fields -/

theorem Relation.Printable.lexical {r : Relation} (h : r.Printable) : r.Lexical where
  named := by
    intro hf
    have := (h.unlinked (List.isEmpty_iff.mp hf)).1
    rwa [Bool.eq_false_iff, ne_eq, String.isEmpty_iff]
  fromFields := h.fromFields
  toFields := h.toFields

theorem Relation.Printable.written_eq {r : Relation} (h : r.Printable) :
    r.written = r.withoutStorage := by
  rw [written]
  split
  · next hf =>
    rw [(h.unlinked (List.isEmpty_iff.mp hf)).2]
    rfl
  · rfl

theorem isName_of_mem_scalarTypes : ∀ n ∈ scalarTypes, IsName n := by decide

section
variable {s : Schema}

theorem Field.Typed.isName {f : Field} (h : f.Typed s) (hs : s.Printable) : IsName f.type := by
  cases h with
  | scalar _ htype => exact isName_of_mem_scalarTypes _ htype
  | enum _ htype =>
    obtain ⟨e, he, hname⟩ := List.mem_map.mp htype
    exact hname ▸ (hs.enums e he).name
  | object _ htype =>
    obtain ⟨m, hm, hname⟩ := List.mem_map.mp htype
    exact hname ▸ (hs.models m hm).name

theorem Field.Typed.among? {f : Field} (h : f.Typed s) (hs : s.Printable) :
    FieldKind.among? s.names f.type = some f.kind := by
  have hnodup : (s.names.map (·.1)).Nodup := by
    simpa [Schema.names, Function.comp_def] using hs.names
  cases h with
  | scalar hkind htype => rw [hkind, FieldKind.among?_scalar htype]
  | enum hkind htype =>
    have hscalar := hs.scalarTypes f.type (List.mem_append_right _ htype)
    obtain ⟨e, he, hname⟩ := List.mem_map.mp htype
    refine FieldKind.among?_of_mem hscalar hnodup (List.mem_append_right _ ?_)
    exact List.mem_map.mpr ⟨e, he, by rw [hname, hkind]⟩
  | object hkind htype =>
    have hscalar := hs.scalarTypes f.type (List.mem_append_left _ htype)
    obtain ⟨m, hm, hname⟩ := List.mem_map.mp htype
    refine FieldKind.among?_of_mem hscalar hnodup (List.mem_append_left _ ?_)
    exact List.mem_map.mpr ⟨m, hm, by rw [hname, hkind]⟩

theorem Field.Typed.object_iff {f : Field} (h : f.Typed s) :
    f.kind = .object ↔ f.relation.isSome = true := by
  cases h with
  | scalar hkind _ hrelation | enum hkind _ hrelation => simp [hkind, hrelation]
  | object hkind _ hrelation => simp [hkind, hrelation]

theorem Field.Typed.supported {f : Field} (h : f.Typed s) : f.kind ≠ .unsupported := by
  cases h with
  | scalar hkind | enum hkind | object hkind => rw [hkind]; nofun

theorem Field.Printable.exists_default {f : Field} (h : f.Printable s) :
    ∃ e : Option Expr, (∀ x ∈ e, x.Lexical) ∧ e.map (Expr.toDefault f.kind) = f.default ∧
      ∀ model, f.default.mapM (f.defaultText model) =
        .ok (e.map fun e => "@default(" ++ e.toText ++ ")") := by
  cases hd : f.default with
  | none => exact ⟨none, nofun, rfl, fun _ => rfl⟩
  | some d =>
    obtain ⟨e, hlexical, htext, hvalue⟩ := (h.default d hd).exists_expr
    refine ⟨some e, by rintro _ ⟨⟩; exact hlexical, congrArg some hvalue, fun model => ?_⟩
    rw [Option.mapM_some, defaultText, htext]
    rfl

theorem Field.Printable.readsAs {f : Field} (h : f.Printable s) (hs : s.Printable) :
    f.ReadsAs f.withoutStorage := by
  obtain ⟨stored, hstored, hpassed⟩ := PrintsAs.exists_of_option h.nativeType
  obtain ⟨e, hexpr, hdefault, htext⟩ := h.exists_default
  refine ⟨h.documentation, e, stored, ?_, ?_⟩
  · exact {
      name := h.name
      type := h.type.isName hs
      supported := h.type.supported
      list := h.list
      default := htext
      expr := hexpr
      nativeType := hstored
      passedOver := hpassed
      relation := fun r hr => (h.relation r hr).lexical
      object := h.type.object_iff }
  · have hrelation : f.relation.map Relation.written = f.relation.map Relation.withoutStorage :=
      Option.map_congr fun r hr => (h.relation r hr).written_eq
    rw [written, withoutStorage, hdefault, hrelation]

/-! ### Models, enums, schemas -/

theorem filter_eq_self {α : Type} {p : α → Bool} {o : Option α} (h : ∀ x ∈ o, p x = true) :
    o.filter p = o := by
  cases o with
  | none => rfl
  | some x => exact Option.filter_some_pos (h x rfl)

theorem filter_nonEmpty {name : Option String} (h : name ≠ some "") :
    name.filter (!·.isEmpty) = name :=
  filter_eq_self fun n hn => by
    rw [Bool.not_eq_true', Bool.eq_false_iff, ne_eq, String.isEmpty_iff]
    rintro rfl
    exact h hn

theorem Model.Printable.readsAs {m : Model} (h : m.Printable s) (hs : s.Printable) :
    m.ReadsAs m.withoutStorage := by
  obtain ⟨secondary, hsecondary, hpassed⟩ := PrintsAs.exists_of_list h.secondaryIndexes
  refine ⟨secondary, m.fields.map Field.withoutStorage, ?_, ?_, ?_⟩
  · exact {
      name := h.name
      documentation := h.documentation
      unique := h.unique
      primaryKey := fun i hi => (h.primaryKey i hi).2
      secondaryIndexes := hsecondary
      passedOver := hpassed }
  · rw [List.forall₂_map_right_iff, List.forall₂_same]
    exact fun f hf => (h.fields f hf).readsAs hs
  · have hkey : m.primaryKey.filter (!·.fields.isEmpty) = m.primaryKey :=
      filter_eq_self fun i hi => by simpa using (h.primaryKey i hi).1
    rw [withoutStorage, written, filter_nonEmpty h.dbName, hkey, h.uniqueFields]

theorem Enum.Printable.lexical {e : Enum} (h : e.Printable) : e.Lexical where
  name := h.name
  values := fun v hv => (h.values v hv).1
  documentation := h.documentation

theorem Enum.Printable.written_eq {e : Enum} (h : e.Printable) : e.written = e := by
  have hvalues : e.values.map EnumValue.written = e.values := by
    refine (List.map_congr_left fun v hv => ?_).trans (List.map_id _)
    have hname : v.printedName = v.dbName := by
      refine filter_eq_self fun dbName hdb => ?_
      rw [decide_eq_true_eq]
      rintro rfl
      exact (h.values v hv).2 hdb
    rw [EnumValue.written, hname, id]
  rw [written, hvalues, filter_nonEmpty h.dbName]

theorem Schema.names_withoutStorage (s : Schema) : s.withoutStorage.names = s.names := by
  simp [names, withoutStorage, Model.withoutStorage, Function.comp_def]

theorem Schema.Printable.consistent (h : s.Printable) : s.withoutStorage.Consistent where
  names := by
    rw [names_withoutStorage]
    simpa [Schema.names, Function.comp_def] using h.names
  kinds := by
    rw [names_withoutStorage]
    simp only [withoutStorage, List.forall_mem_map]
    intro m hm
    simp only [Model.withoutStorage, List.forall_mem_map]
    exact fun f hf => ((h.models m hm).fields f hf).type.among? h

end

/-- **The structured reader decodes what the printer encodes.** A printable schema has a text, and
what the grammar reads off it is the schema again, less its storage notes. -/
theorem Schema.ofText_toText_of_printable {s : Schema} (h : s.Printable) :
    ∃ text, s.toText = .ok text ∧ Schema.ofText text = .ok s.withoutStorage := by
  refine ofText_toText ?_ (fun e he => (h.enums e he).lexical) ?_ ?_ rfl ?_ rfl h.consistent
  · rw [withoutStorage, List.forall₂_map_right_iff, List.forall₂_same]
    exact fun m hm => (h.models m hm).readsAs h
  · exact ((List.map_congr_left fun e he => (h.enums e he).written_eq).trans (List.map_id _)).symm
  · rw [h.datasources]
    nofun
  · rw [h.generators]
    nofun

/-- A schema of two models that refer to each other, and an enum. -/
def blog : Schema where
  models := [
    { name := "User"
      fields := [
        { name := "id", kind := .scalar, type := "Int", isId := true
          default := some (.call "autoincrement" []) },
        { name := "email", kind := .scalar, type := "String", isUnique := true
          columnName := some "e_mail", nativeType := some "@db.VarChar(255)"
          default := some (.text "none \"yet\""), documentation := some "Where to write.\nOne line." },
        { name := "role", kind := .enum, type := "Role", default := some (.member "READER") },
        { name := "posts", kind := .object, type := "Post", isList := true, isRequired := false
          relation := some { name := "authored" } }]
      dbName := some "users"
      secondaryIndexes := ["@@index([email, role])"] },
    { name := "Post"
      fields := [
        { name := "id", kind := .scalar, type := "Int" },
        { name := "authorId", kind := .scalar, type := "Int" },
        { name := "author", kind := .object, type := "User"
          relation := some { name := "authored", fromFields := ["authorId"], toFields := ["id"]
                             onDelete := some .cascade, map := some "author_fk" } }]
      uniqueIndexes := [{ name := some "once", fields := ["id", "authorId"] }]
      uniqueFields := [["id", "authorId"]]
      primaryKey := some { fields := ["id"] } }]
  enums := [
    { name := "Role", values := [{ name := "READER" }, { name := "ADMIN", dbName := some "a" }] }]

theorem exists_varChar : ∃ a : PrintedAttribute .marker,
    a.text = "@db.VarChar(255)" ∧ a.name ∉ Field.interpreted := by
  have hargs : ∀ a ∈ [(⟨none, .number "255"⟩ : Argument)], a.Lexical := by
    simpa using Argument.lexical_positional (.number ⟨'2', ['5', '5'], rfl, by decide, by decide⟩)
  exact ⟨.call .field (show IsName "db.VarChar" by decide) hargs, by
    simp [PrintedAttribute.call, Argument.toText, Expr.toText],
    show "db.VarChar" ∉ Field.interpreted by decide⟩

theorem exists_index : ∃ a : PrintedAttribute .blockMarker,
    a.text = "@@index([email, role])" ∧ a.name ∉ Model.interpreted := by
  have hargs : ∀ a ∈ [(⟨none, .ofNames ["email", "role"]⟩ : Argument)], a.Lexical := by
    simpa using Argument.lexical_positional (Expr.lexical_ofNames (by decide))
  exact ⟨.call .block (show IsName "index" by decide) hargs, by
    simp [PrintedAttribute.call, Argument.toText, Expr.ofNames, Expr.toText],
    show "index" ∉ Model.interpreted by decide⟩

theorem Schema.printable_blog : blog.Printable where
  datasources := rfl
  generators := rfl
  models := by
    intro m hm
    simp only [blog, List.mem_cons, List.not_mem_nil, or_false] at hm
    rcases hm with rfl | rfl
    · refine ⟨by decide, ?_, by decide, nofun, rfl, nofun, ?_, nofun⟩
      · intro f hf
        simp only [List.mem_cons, List.not_mem_nil, or_false] at hf
        rcases hf with rfl | rfl | rfl | rfl
        · exact ⟨by decide, .scalar rfl (by decide) rfl, nofun,
            by rintro _ ⟨⟩; exact .call (by decide) (by decide) nofun, nofun, nofun, nofun⟩
        · exact ⟨by decide, .scalar rfl (by decide) rfl, nofun,
            by rintro _ ⟨⟩; exact .text rfl (by decide), by rintro _ ⟨⟩; exact exists_varChar, nofun,
            by rintro _ ⟨⟩; decide⟩
        · exact ⟨by decide, .enum rfl (by decide) rfl, nofun,
            by rintro _ ⟨⟩; exact .member rfl (by decide) (by decide) (by decide), nofun, nofun,
            nofun⟩
        · exact ⟨by decide, .object rfl (by decide) rfl, fun _ => rfl, nofun, nofun,
            by rintro _ ⟨⟩; exact ⟨fun _ => ⟨by decide, rfl⟩, nofun, nofun⟩, nofun⟩
      · simpa using exists_index
    · refine ⟨by decide, ?_, nofun, by decide, rfl, ?_, nofun, nofun⟩
      · intro f hf
        simp only [List.mem_cons, List.not_mem_nil, or_false] at hf
        rcases hf with rfl | rfl | rfl
        · exact ⟨by decide, .scalar rfl (by decide) rfl, nofun, nofun, nofun, nofun, nofun⟩
        · exact ⟨by decide, .scalar rfl (by decide) rfl, nofun, nofun, nofun, nofun, nofun⟩
        · exact ⟨by decide, .object rfl (by decide) rfl, nofun, nofun, nofun,
            by rintro _ ⟨⟩; exact ⟨nofun, by decide, by decide⟩, nofun⟩
      · rintro _ ⟨⟩
        exact ⟨nofun, by decide⟩
  enums := by
    intro e he
    obtain rfl := List.mem_singleton.mp he
    exact ⟨by decide, by decide, nofun, nofun⟩
  names := by decide
  scalarTypes := by decide

theorem ofText_toText_of_printable_blog : blog.Printable ∧
    ∃ text, blog.toText = .ok text ∧ Schema.ofText text = .ok blog.withoutStorage :=
  ⟨Schema.printable_blog, Schema.ofText_toText_of_printable Schema.printable_blog⟩

end Datamodel
