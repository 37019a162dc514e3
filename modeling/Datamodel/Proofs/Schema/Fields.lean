import Datamodel.Proofs.Schema.Blocks

/-! The line of a field, read back.

A field is printed as its name, its type and its attributes. `Field.forms` are those attributes,
and `Field.written` is the field that they make again (`FieldDecl.resolve_ofLine`): the field
without its storage notes, which the grammar passes over. -/

namespace Datamodel

open PrintedAttribute
open Token (Kind IsName Lexes LexesLine Balanced Stops)
open Printer (commaList nameList)

/-! ### Lists of names -/

def Expr.ofNames (names : List String) : Expr := .array (names.map .name)

theorem Expr.toText_ofNames (names : List String) : (ofNames names).toText = nameList names := by
  simp [ofNames, toText, nameList, commaList, Function.comp_def]

theorem Expr.names_ofNames (names : List String) : (ofNames names).names = names := by
  simp [ofNames, Expr.names, Function.comp_def]

theorem Expr.lexical_ofNames {names : List String} (h : ∀ n ∈ names, IsName n) :
    (ofNames names).Lexical := by
  refine .array ?_
  rw [List.forall_mem_map]
  exact fun n hn => .name (h n hn)

/-! ### Relations -/

namespace Relation

/-- The arguments of the attribute that a relation is printed as, its lists of fields being the
expressions `froms` and `tos`. -/
def argsWith (r : Relation) (froms tos : Expr) : List Argument :=
  ⟨some "name", .text r.name⟩ ::
    if r.fromFields.isEmpty then []
    else
      [⟨some "fields", froms⟩, ⟨some "references", tos⟩] ++
      (r.onDelete.map fun action => ⟨some "onDelete", .name action.toText⟩).toList ++
      (r.onUpdate.map fun action => ⟨some "onUpdate", .name action.toText⟩).toList ++
      (r.map.map fun name => ⟨some "map", .text name⟩).toList

/-- The arguments of the attribute that a relation is printed as. -/
def args (r : Relation) : List Argument :=
  r.argsWith (.ofNames r.fromFields) (.ofNames r.toFields)

/-- A relation that is printed at all, and whose fields have names. -/
structure Lexical (r : Relation) : Prop where
  named : r.fromFields.isEmpty = true → r.name.isEmpty = false
  fromFields : ∀ n ∈ r.fromFields, IsName n
  toFields : ∀ n ∈ r.toFields, IsName n

/-- What the grammar reads off the text of a relation. -/
def written (r : Relation) : Relation :=
  if r.fromFields.isEmpty then { name := r.name } else { r with onUpdate := none, map := none }

theorem toText_argsWith {r : Relation} {froms tos : Expr}
    (h : r.fromFields.isEmpty = true → r.name.isEmpty = false)
    (hfroms : froms.toText = nameList r.fromFields) (htos : tos.toText = nameList r.toFields) :
    r.toText =
      "@" ++ "relation" ++ "(" ++ commaList ((r.argsWith froms tos).map Argument.toText) ++ ")" := by
  obtain ⟨name, fromFields, toFields, onDelete, onUpdate, map⟩ := r
  by_cases hf : fromFields.isEmpty = true
  · have hn : name.isEmpty = false := h hf
    rw [← String.toList_inj]
    simp [toText, argsWith, hf, hn, Argument.toText, Expr.toText, commaList]
  · cases onDelete <;> cases onUpdate <;> cases map <;>
      simp [toText, argsWith, hf, Argument.toText, Expr.toText, hfroms, htos, commaList]

theorem toText_eq {r : Relation} (h : r.fromFields.isEmpty = true → r.name.isEmpty = false) :
    r.toText = "@" ++ "relation" ++ "(" ++ commaList (r.args.map Argument.toText) ++ ")" :=
  toText_argsWith h (Expr.toText_ofNames _) (Expr.toText_ofNames _)

theorem lexical_argsWith (r : Relation) {froms tos : Expr} (hfroms : froms.Lexical)
    (htos : tos.Lexical) : ∀ a ∈ r.argsWith froms tos, a.Lexical := by
  have haction (a : ReferentialAction) : IsName a.toText := by cases a <;> decide
  have hname : (⟨some "name", .text r.name⟩ : Argument).Lexical :=
    Argument.lexical_labelled (by decide) (.text r.name)
  rw [argsWith]
  split
  · simpa using hname
  · simp only [List.cons_append, List.nil_append, List.mem_cons, List.mem_append,
      Option.mem_toList, Option.map_eq_some_iff]
    rintro a (rfl | rfl | rfl | (⟨_, _, rfl⟩ | ⟨_, _, rfl⟩) | ⟨_, _, rfl⟩)
    · exact hname
    · exact Argument.lexical_labelled (by decide) hfroms
    · exact Argument.lexical_labelled (by decide) htos
    · exact Argument.lexical_labelled (by decide) (.name (haction _))
    · exact Argument.lexical_labelled (by decide) (.name (haction _))
    · exact Argument.lexical_labelled (by decide) (.text _)

theorem lexical_args {r : Relation} (h : r.Lexical) : ∀ a ∈ r.args, a.Lexical :=
  r.lexical_argsWith (Expr.lexical_ofNames h.fromFields) (Expr.lexical_ofNames h.toFields)

/-- **A relation is read back**, less what the storage notes say. -/
theorem resolve_args (r : Relation) (model target : String) (line : Nat) :
    resolve model target (some ⟨"relation", r.args, line⟩) = .ok r.written := by
  obtain ⟨name, fromFields, toFields, onDelete, onUpdate, map⟩ := r
  by_cases hf : fromFields.isEmpty = true
  · simp [resolve, args, argsWith, written, hf, Attribute.onDelete, Attribute.labelled?, Expr.text?]
  · cases onDelete <;> cases onUpdate <;> cases map <;>
      simp [resolve, args, argsWith, written, hf, Attribute.onDelete, Attribute.labelled?, Expr.text?,
        Expr.names_ofNames, Expr.toText, ReferentialAction.ofText?_toText]

end Relation

/-! ### Attributes of fields -/

namespace Field

/-- The attributes that a field is printed with. Its default is the expression `e`, and its native
type the attribute `stored`. -/
def forms (f : Field) (e : Option Expr) (stored : Option Attribute.Form) : List Attribute.Form :=
  (if f.isId then [⟨"id", []⟩] else []) ++
  (if f.isUnique then [⟨"unique", []⟩] else []) ++
  (if f.isUpdatedAt then [⟨"updatedAt", []⟩] else []) ++
  (f.columnName.map fun name => ⟨"map", [⟨none, .text name⟩]⟩).toList ++
  (e.map fun e => ⟨"default", [⟨none, e⟩]⟩).toList ++ stored.toList ++
  (f.relation.map fun r => ⟨"relation", r.args⟩).toList

/-- The attributes of fields that the grammar takes something from. -/
def interpreted : List String := ["id", "unique", "updatedAt", "default", "relation"]

/-- A field whose line is made of tokens: its default is printed as the expression `e`, and its
native type is read as the attribute `stored`, which the grammar takes nothing from. -/
structure Lexical (f : Field) (e : Option Expr) (stored : Option Attribute.Form) : Prop where
  name : IsName f.name
  type : IsName f.type
  supported : f.kind ≠ .unsupported
  list : f.isList = true → f.isRequired = false
  default : ∀ model, f.default.mapM (f.defaultText model) =
    .ok (e.map fun e => "@default(" ++ e.toText ++ ")")
  expr : ∀ x ∈ e, x.Lexical
  nativeType : PrintsAs .marker f.nativeType.toList stored.toList
  passedOver : ∀ a ∈ stored, a.name ∉ interpreted
  relation : ∀ r ∈ f.relation, r.Lexical
  object : f.kind = .object ↔ f.relation.isSome = true

variable {f : Field} {e : Option Expr} {stored : Option Attribute.Form}

/-- The attributes in front of the default. -/
theorem printsAs_front (f : Field) : PrintsAs .marker
    ((if f.isId then ["@id"] else []) ++ (if f.isUnique then ["@unique"] else []) ++
      (if f.isUpdatedAt then ["@updatedAt"] else []) ++
      (f.columnName.map fun name => "@map(" ++ Text.Quoted.quote name ++ ")").toList)
    ((if f.isId then [⟨"id", []⟩] else []) ++ (if f.isUnique then [⟨"unique", []⟩] else []) ++
      (if f.isUpdatedAt then [⟨"updatedAt", []⟩] else []) ++
      (f.columnName.map fun name => ⟨"map", [⟨none, .text name⟩]⟩).toList) := by
  have hbare (n : String) (hn : IsName n) : PrintsAs .marker ["@" ++ n] [⟨n, []⟩] := .bare .field hn
  have hid : PrintsAs .marker ["@id"] [⟨"id", []⟩] := hbare "id" (by decide)
  have hunique : PrintsAs .marker ["@unique"] [⟨"unique", []⟩] := hbare "unique" (by decide)
  have hupdated : PrintsAs .marker ["@updatedAt"] [⟨"updatedAt", []⟩] :=
    hbare "updatedAt" (by decide)
  have hmap : ∀ name ∈ f.columnName, PrintsAs .marker
      ["@map(" ++ Text.Quoted.quote name ++ ")"] [⟨"map", [⟨none, .text name⟩]⟩] :=
    fun name _ => .positional .field "map" (by decide) (.text name) (.text name)
  exact (((hid.ite f.isId).append (hunique.ite f.isUnique)).append
    (hupdated.ite f.isUpdatedAt)).append (PrintsAs.toList hmap)

theorem printsAs_attributeTexts (h : f.Lexical e stored) :
    PrintsAs .marker (f.attributeTexts (e.map fun e => "@default(" ++ e.toText ++ ")"))
      (f.forms e stored) := by
  have hdefault : ∀ e' ∈ e, PrintsAs .marker
      ["@default(" ++ e'.toText ++ ")"] [⟨"default", [⟨none, e'⟩]⟩] :=
    fun e' he => .positional .field "default" (by decide) e' (h.expr e' he)
  have hrelation : ∀ r ∈ f.relation, PrintsAs .marker [r.toText] [⟨"relation", r.args⟩] := by
    intro r hr
    rw [Relation.toText_eq (h.relation r hr).named]
    exact PrintsAs.call .field (by decide) (Relation.lexical_args (h.relation r hr))
  exact ((f.printsAs_front.append (PrintsAs.toList hdefault)).append h.nativeType).append
    (PrintsAs.toList hrelation)

/-- The line of a field whose default is the expression `e`. -/
def line (f : Field) (e : Option Expr) : String :=
  " ".intercalate ((f.name ++ " " ++ f.type ++ f.modifier) ::
    f.attributeTexts (e.map fun e => "@default(" ++ e.toText ++ ")"))

theorem toText_eq (h : f.Lexical e stored) (model : String) : f.toText model = .ok (f.line e) := by
  rw [line, toText, if_neg h.supported, h.default, ← (printsAs_attributeTexts h).filter_eq]
  rfl

/-! ### Reading a field back -/

/-- The arity that a field is printed with. -/
def arity (f : Field) : Arity :=
  if f.isList then .list else if f.isRequired then .required else .optional

/-- What the grammar reads off the line of a field. -/
def written (f : Field) (e : Option Expr) : Field :=
  { f with
    default := e.map (Expr.toDefault f.kind)
    columnName := none
    nativeType := none
    relation := f.relation.map Relation.written }

/-- The line of a field with the attributes `ps`. -/
theorem lexesLine_of_texts (hname : IsName f.name) (htype : IsName f.type)
    (ps : List (PrintedAttribute .marker)) :
    LexesLine (" ".intercalate ((f.name ++ " " ++ f.type ++ f.modifier) :: ps.map (·.text))).toList
      (.name f.name :: .name f.type :: (f.arity.kinds ++ kindsAll ps)) := by
  have htail : Lexes (f.modifier.toList ++ textAll ps) (f.arity.kinds ++ kindsAll ps) := by
    rw [modifier, arity]
    split
    · exact Lexes.openBracket (Lexes.closeBracket (lexes_textAll ps))
    split
    · exact lexes_textAll ps
    · exact Lexes.question (lexes_textAll ps)
  have hstop : Stops (f.modifier.toList ++ textAll ps) := by
    rw [modifier]
    split
    · exact Stops.cons (by decide)
    split
    · exact stops_textAll ps
    · exact Stops.cons (by decide)
  have hbalanced : Balanced (f.arity.kinds ++ kindsAll ps) := by
    refine Balanced.append ?_ (balanced_kindsAll ps)
    cases f.arity with
    | required => exact .nil
    | optional => exact Balanced.nil.cons fun _ => rfl
    | list => exact Balanced.brackets .nil
  have htext : (" ".intercalate
      ((f.name ++ " " ++ f.type ++ f.modifier) :: ps.map (·.text))).toList =
      f.name.toList ++ ' ' :: (f.type.toList ++ (f.modifier.toList ++ textAll ps)) := by
    rw [toList_intercalate_texts]
    simp
  rw [htext]
  refine LexesLine.of_lexes ?_ ((hbalanced.cons fun _ => rfl).cons fun _ => rfl)
  exact Lexes.name hname (Stops.cons (by decide)) (Lexes.space (Lexes.name htype hstop htail))

/-- A field without attributes. -/
def bare (f : Field) : Field where
  name := f.name
  kind := f.kind
  type := f.type
  isList := f.isList
  isRequired := f.isRequired
  documentation := f.documentation

section
variable (g : Field) (line : Nat)

/-- What the attributes of a field do to it, one after the other. -/
def applyForms (forms : List Attribute.Form) : Field :=
  (forms.map (·.toAttribute line)).foldl applyAttribute g

theorem applyForms_append (as bs : List Attribute.Form) :
    g.applyForms line (as ++ bs) = (g.applyForms line as).applyForms line bs := by
  simp only [applyForms, List.map_append, List.foldl_append]

theorem applyForms_id (hg : g.isId = false) (b : Bool) :
    g.applyForms line (if b then [⟨"id", []⟩] else []) = { g with isId := b } := by
  cases b with
  | false => exact congrArg (fun b => { g with isId := b }) hg
  | true => rfl

theorem applyForms_unique (hg : g.isUnique = false) (b : Bool) :
    g.applyForms line (if b then [⟨"unique", []⟩] else []) = { g with isUnique := b } := by
  cases b with
  | false => exact congrArg (fun b => { g with isUnique := b }) hg
  | true => rfl

theorem applyForms_updatedAt (hg : g.isUpdatedAt = false) (b : Bool) :
    g.applyForms line (if b then [⟨"updatedAt", []⟩] else []) = { g with isUpdatedAt := b } := by
  cases b with
  | false => exact congrArg (fun b => { g with isUpdatedAt := b }) hg
  | true => rfl

theorem applyForms_default (hg : g.default = none) (e : Option Expr) :
    g.applyForms line (e.map fun e => ⟨"default", [⟨none, e⟩]⟩).toList =
      { g with default := e.map (Expr.toDefault g.kind) } := by
  cases e with
  | none => exact congrArg (fun d => { g with default := d }) hg
  | some e => rfl

/-- An attribute that is passed over. -/
theorem applyForms_other {as : List Attribute.Form}
    (h : ∀ a ∈ as, a.name ∉ ["id", "unique", "updatedAt", "default"]) :
    g.applyForms line as = g := by
  induction as with
  | nil => rfl
  | cons a as ih =>
    have ha : g.applyAttribute (a.toAttribute line) = g := by
      have := h a List.mem_cons_self
      simp only [List.mem_cons, not_or] at this
      unfold applyAttribute Attribute.Form.toAttribute
      split <;> simp_all
    have ih := ih fun b hb => h b (List.mem_cons_of_mem _ hb)
    show (g.applyAttribute (a.toAttribute line)).applyForms line as = g
    rw [ha, ih]

end

theorem applyForms_forms (h : f.Lexical e stored) (line : Nat) :
    f.bare.applyForms line (f.forms e stored) = { f.written e with relation := none } := by
  have hcolumn : ∀ a ∈ (f.columnName.map fun name =>
      (⟨"map", [⟨none, .text name⟩]⟩ : Attribute.Form)).toList,
      a.name ∉ ["id", "unique", "updatedAt", "default"] := by
    simp
  have hstored : ∀ a ∈ stored.toList, a.name ∉ ["id", "unique", "updatedAt", "default"] := by
    intro a ha hmem
    refine h.passedOver a (Option.mem_toList.mp ha) ?_
    simp only [interpreted, List.mem_cons, List.not_mem_nil, or_false] at hmem ⊢
    tauto
  have hrelation : ∀ a ∈ (f.relation.map fun r =>
      (⟨"relation", r.args⟩ : Attribute.Form)).toList,
      a.name ∉ ["id", "unique", "updatedAt", "default"] := by
    simp
  rw [forms, applyForms_append, applyForms_append, applyForms_append, applyForms_append,
    applyForms_append, applyForms_append, applyForms_id _ _ rfl, applyForms_unique _ _ rfl,
    applyForms_updatedAt _ _ rfl, applyForms_other _ _ hcolumn, applyForms_default _ _ rfl,
    applyForms_other _ _ hstored, applyForms_other _ _ hrelation]
  rfl

theorem find?_relation (h : f.Lexical e stored) (line : Nat) :
    ((f.forms e stored).map (·.toAttribute line)).find? (·.name == "relation") =
      f.relation.map fun r => ⟨"relation", r.args, line⟩ := by
  have hstored : (stored.toList.map (·.toAttribute line)).find? (·.name == "relation") = none := by
    rw [List.find?_eq_none, List.forall_mem_map]
    intro a ha hname
    exact h.passedOver a (Option.mem_toList.mp ha) (by
      rw [show a.name = "relation" by simpa [Attribute.Form.toAttribute] using hname]
      decide)
  simp only [forms, List.map_append, List.find?_append, hstored]
  cases f.isId <;> cases f.isUnique <;> cases f.isUpdatedAt <;> cases f.columnName <;> cases e <;>
    cases f.relation <;> rfl

end Field

open Datamodel.Field in
/-- **The line of a field is read back** as what is written of the field. -/
theorem FieldDecl.resolve_ofLine {f : Field} {e : Option Expr} {stored : Option Attribute.Form}
    (h : f.Lexical e stored) {ps : List (PrintedAttribute .marker)}
    (hps : ps.map (·.toForm) = f.forms e stored) {declared : List Declaration}
    (hkind : FieldKind.ofName? declared f.type = some f.kind) (model : String) (line : Nat) :
    (ofLine f.name f.type f.arity ps (docTexts f.documentation) line).resolve declared model =
      .ok (f.written e) := by
  have hattrs : ps.map (·.toAttribute line) = (f.forms e stored).map (·.toAttribute line) := by
    rw [← hps, List.map_map]
    rfl
  have hlist : decide (f.arity = .list) = f.isList := by
    rw [Field.arity]
    cases f.isList <;> cases f.isRequired <;> rfl
  have hrequired : decide (f.arity = .required) = f.isRequired := by
    have := h.list
    rw [Field.arity]
    cases hl : f.isList <;> cases hr : f.isRequired <;> simp_all
  have happly : _ = { f.written e with relation := none } := applyForms_forms h line
  have hfind := find?_relation h line
  rw [applyForms, Field.bare] at happly
  simp only [resolve, kind, ofLine, hkind, hattrs, TypeRef.toText, hlist, hrequired,
    joinDocs_docTexts, happly, attribute?, hfind, bind, Except.bind]
  cases hr : f.relation with
  | none =>
    have hobject : f.kind ≠ .object := fun hk => by simpa [hr] using h.object.mp hk
    rw [if_neg hobject, written, hr]
    rfl
  | some r =>
    have hobject : f.kind = .object := h.object.mpr (by rw [hr]; rfl)
    rw [if_pos hobject, Option.map_some, Relation.resolve_args, written, hr]
    rfl

end Datamodel
