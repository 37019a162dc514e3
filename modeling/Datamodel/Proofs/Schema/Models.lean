import Datamodel.Proofs.Schema.Fields

/-! Models and enums, read back.

The body of a model is its fields, each behind its documentation, and the attributes of the model;
that of an enum is its values and its attributes. Both are `BodyLines`, so the blocks can be read
back, and what they declare is `Model.written` and `Enum.written`. -/

namespace Datamodel

open Printer (commaList indexLine mapLine nameArgument nameList docLines isBlankLine blockLines)
open PrintedAttribute
open Token (Kind IsName Lexes LexesLine Answers onLine)

/-! ### Lines of attributes -/

theorem nonblank_of_head {c : Char} {line : String} (h : line.toList.head? = some c)
    (hc : Text.isBlank c = false) : isBlankLine line = false := by
  obtain ⟨s, hs⟩ := List.head?_eq_some_iff.mp h
  rw [isBlankLine, hs, Text.allBlank, List.all_cons, hc, Bool.false_and]

theorem PrintedAttribute.lexesLine {mark : Kind} (hmark : mark = .marker ∨ mark = .blockMarker)
    (a : PrintedAttribute mark) : LexesLine a.text.toList (mark :: a.kinds) := by
  refine LexesLine.of_lexes a.lexes (a.balanced.cons ?_)
  rcases hmark with rfl | rfl <;> exact fun _ => rfl

theorem PrintedAttribute.nonblank {mark : Kind} (a : PrintedAttribute mark) :
    isBlankLine a.text = false :=
  nonblank_of_head a.head (by decide)

/-- An attribute that an item is read as. -/
def Attribute.HasForm (a : Attribute) (form : Attribute.Form) : Prop :=
  ∃ line, a = form.toAttribute line

/-- The lines of the attributes of a block, whose items mean some `β` or an attribute. -/
theorem PrintsAs.bodyLines {α β : Type} {item : ItemReader α}
    {Means : α → β ⊕ Attribute.Form → Prop}
    (hitem : ∀ (a : PrintedAttribute .blockMarker) last n rest, ∃ x,
      Answers (item last [] (onLine n (.blockMarker :: a.kinds) ++ ⟨.newline, n⟩ :: rest))
        (x, []) rest ∧ Means x (.inr a.toForm))
    {texts : List String} {as : List Attribute.Form} (h : PrintsAs .blockMarker texts as) :
    BodyLines item Means [] texts (as.map .inr) := by
  obtain ⟨ps, rfl, rfl⟩ := h
  rw [List.map_map]
  refine BodyLines.of_items fun a _ => ?_
  exact ⟨a.nonblank, _, _, .marker, a.lexesLine (.inr rfl), hitem a⟩

/-! ### Indexes -/

namespace Index

/-- The arguments of the attribute that an index is printed as, its fields being the expression
`fields`. -/
def argsWith (i : Index) (fields : Expr) : List Argument :=
  ⟨none, fields⟩ :: (i.name.map fun name => ⟨some "name", .text name⟩).toList

/-- The arguments of the attribute that an index is printed as. -/
def args (i : Index) : List Argument := i.argsWith (.ofNames i.fields)

theorem indexLine_eq (attr : String) {i : Index} {fields : Expr}
    (h : fields.toText = nameList i.fields) : indexLine attr i =
      attr ++ "(" ++ commaList ((i.argsWith fields).map Argument.toText) ++ ")" := by
  obtain ⟨name, names⟩ := i
  cases name <;> simp [indexLine, nameArgument, argsWith, Argument.toText, Expr.toText, h]

theorem lexical_argsWith (i : Index) {fields : Expr} (h : fields.Lexical) :
    ∀ a ∈ i.argsWith fields, a.Lexical := by
  simp only [argsWith, List.mem_cons, Option.mem_toList, Option.map_eq_some_iff]
  rintro a (rfl | ⟨name, _, rfl⟩)
  · exact Argument.lexical_positional h
  · exact Argument.lexical_labelled (by decide) (.text name)

/-- The line of an index is an attribute. -/
theorem printsAs_indexLine {attr : String} (hattr : IsName attr) {i : Index} {fields : Expr}
    (hlexical : fields.Lexical) (htext : fields.toText = nameList i.fields) :
    PrintsAs .blockMarker [indexLine ("@@" ++ attr) i] [⟨attr, i.argsWith fields⟩] := by
  rw [indexLine_eq _ htext]
  exact PrintsAs.call .block hattr (i.lexical_argsWith hlexical)

theorem toIndex_args (name : String) (i : Index) (line : Nat) :
    Attribute.toIndex ⟨name, i.args, line⟩ = i := by
  obtain ⟨_ | name, fields⟩ := i <;>
    simp [Attribute.toIndex, args, argsWith, Attribute.labelled?, Attribute.positional?,
      Expr.names_ofNames, Expr.text?]

end Index

/-! ### Models -/

namespace ModelItem

/-- What an item of the model `model` stands for: a field, wherever its type is declared, or an
attribute. -/
def Means (model : String) : ModelItem → Field ⊕ Attribute.Form → Prop
  | field d, .inl g => ∀ declared, FieldKind.ofName? declared g.type = some g.kind →
      d.resolve declared model = .ok g
  | attr a, .inr form => a.HasForm form
  | _, _ => False

theorem bodyLines {model : String} {texts : List String} {as : List Attribute.Form}
    (h : PrintsAs .blockMarker texts as) :
    BodyLines ModelItem.read (Means model) [] texts (as.map .inr) :=
  h.bodyLines fun a last n rest => ⟨_, ModelItem.read_attr a last [] n rest, n, rfl⟩

end ModelItem

/-- A field whose lines are read back as the field `g`. -/
def Field.ReadsAs (f g : Field) : Prop :=
  IsDocumentation f.documentation ∧ ∃ e stored, f.Lexical e stored ∧ g = f.written e

section
variable {model : String} {β : Type} {Means : ModelItem → β → Prop}

/-- The line of a field with the attributes `ps`, whatever its declaration stands for. -/
theorem Field.itemLine_of_texts {f : Field} (hname : IsName f.name) (htype : IsName f.type)
    (ps : List (PrintedAttribute .marker)) {b : β}
    (hmeans : ∀ n, Means
      (.field (FieldDecl.ofLine f.name f.type f.arity ps (docTexts f.documentation) n)) b) :
    ItemLine ModelItem.read Means (docTexts f.documentation) []
      (" ".intercalate ((f.name ++ " " ++ f.type ++ f.modifier) :: ps.map (·.text))) b := by
  refine ⟨?_, .name f.name, _, .name _, lexesLine_of_texts hname htype ps, fun last n rest => ?_⟩
  · obtain ⟨c, s, hs, hc, _⟩ := hname
    have hc := Token.isBlank_of_isNameChar (Token.isNameChar_of_isNameStart hc)
    refine nonblank_of_head (c := c) ?_ hc
    rw [toList_intercalate_texts]
    simp [hs]
  · exact ⟨_, ModelItem.read_field f.name f.type f.arity ps last (docTexts f.documentation) n rest,
      hmeans n⟩

theorem Field.itemLine {f : Field} {e : Option Expr} {stored : Option Attribute.Form}
    (h : f.Lexical e stored) :
    ItemLine ModelItem.read (ModelItem.Means model) (docTexts f.documentation) []
      (f.line e) (.inl (f.written e)) := by
  obtain ⟨ps, htexts, hforms⟩ := printsAs_attributeTexts h
  rw [line, ← htexts]
  refine itemLine_of_texts h.name h.type ps fun n declared hkind => ?_
  exact FieldDecl.resolve_ofLine h hforms hkind model n

/-- A field whose line, behind its documentation, stands for `b`. -/
def Field.HasLine (Means : ModelItem → β → Prop) (model : String) (f : Field) (b : β) : Prop :=
  IsDocumentation f.documentation ∧ ∃ line, f.toText model = .ok line ∧
    ItemLine ModelItem.read Means (docTexts f.documentation) [] line b

theorem Field.bodyLines {fs : List Field} {bs : List β}
    (h : List.Forall₂ (Field.HasLine Means model) fs bs) {more : List String} {bs' : List β}
    (hmore : BodyLines ModelItem.read Means [] more bs') :
    ∃ lines, Model.fieldLines model fs = .ok lines ∧
      BodyLines ModelItem.read Means [] (lines ++ more) (bs ++ bs') := by
  induction h with
  | nil => exact ⟨[], rfl, hmore⟩
  | @cons f b fs bs hf _ ih =>
    obtain ⟨hdoc, line, hline, hitem⟩ := hf
    obtain ⟨lines, hlines, hbody⟩ := ih
    refine ⟨docLines f.documentation ++ line :: lines, ?_, ?_⟩
    · rw [Model.fieldLines, hline, hlines]
      rfl
    · rw [docLines_eq, List.append_assoc, List.cons_append, List.cons_append]
      exact BodyLines.docs (fun line hline => mem_docTexts hdoc hline) (.item hitem hbody)

theorem Field.ReadsAs.hasLine {f g : Field} (h : f.ReadsAs g) :
    f.HasLine (ModelItem.Means model) model (.inl g) := by
  obtain ⟨hdoc, e, stored, hlexical, rfl⟩ := h
  exact ⟨hdoc, _, toText_eq hlexical model, itemLine hlexical⟩

/-- The lines of a model whose fields have lines. -/
theorem Model.blockLines_of_body {m : Model} (hname : IsName m.name)
    (hdoc : IsDocumentation m.documentation) {bs bs' : List β}
    (hfields : List.Forall₂ (Field.HasLine Means m.name) m.fields bs)
    (hmore : BodyLines ModelItem.read Means [] m.attributeLines bs') :
    ∃ ls, m.lines = .ok ls ∧ BlockLines ls fun b => ∃ line items,
      b = .model (ModelBlock.ofItems m.isView (docTexts m.documentation) m.name line items) ∧
        List.Forall₂ Means items (bs ++ bs') := by
  obtain ⟨lines, hlines, hbody⟩ := Field.bodyLines hfields hmore
  have hkeyword : IsName (Block.Maker.model m.isView).keyword := by
    cases m.isView <;> decide
  refine ⟨_, by rw [Model.lines, hlines]; rfl, ?_⟩
  exact BlockLines.of_body (Block.Maker.model m.isView) (Block.reads_model m.isView) hkeyword hname
    hdoc hbody

end

namespace Model

/-- The attributes that a model is printed with, `secondary` being its secondary indexes. -/
def forms (m : Model) (secondary : List Attribute.Form) : List Attribute.Form :=
  m.uniqueIndexes.map (fun i => ⟨"unique", i.args⟩) ++ secondary ++
    ((m.dbName.filter (!·.isEmpty)).map fun name => ⟨"map", [⟨none, .text name⟩]⟩).toList ++
    ((m.primaryKey.filter (!·.fields.isEmpty)).map fun i => ⟨"id", i.args⟩).toList

/-- The attributes of models that the grammar takes something from. -/
def interpreted : List String := ["map", "unique", "id"]

/-- A model whose own lines are made of tokens. Its secondary indexes are read as the attributes
`secondary`, which the grammar takes nothing from. -/
structure Lexical (m : Model) (secondary : List Attribute.Form) : Prop where
  name : IsName m.name
  documentation : IsDocumentation m.documentation
  unique : ∀ i ∈ m.uniqueIndexes, ∀ n ∈ i.fields, IsName n
  primaryKey : ∀ i ∈ m.primaryKey, ∀ n ∈ i.fields, IsName n
  secondaryIndexes : PrintsAs .blockMarker m.secondaryIndexes secondary
  passedOver : ∀ a ∈ secondary, a.name ∉ interpreted

/-- What the grammar reads off the lines of a model whose fields are read as `fields`. -/
def written (m : Model) (fields : List Field) : Model where
  name := m.name
  fields := fields
  dbName := m.dbName.filter (!·.isEmpty)
  uniqueIndexes := m.uniqueIndexes
  uniqueFields := m.uniqueIndexes.map (·.fields)
  primaryKey := m.primaryKey.filter (!·.fields.isEmpty)
  documentation := m.documentation

variable {m : Model} {secondary : List Attribute.Form}

theorem printsAs_map (dbName : Option String) : PrintsAs .blockMarker (mapLine dbName)
    ((dbName.filter (!·.isEmpty)).map fun name => ⟨"map", [⟨none, .text name⟩]⟩).toList := by
  have hone (name : String) : PrintsAs .blockMarker ["@@map(" ++ Text.Quoted.quote name ++ ")"]
      [⟨"map", [⟨none, .text name⟩]⟩] := .positional .block "map" (by decide) (.text name) (.text name)
  rw [mapLine]
  cases dbName.filter (!·.isEmpty) with
  | none => exact .nil
  | some name => exact hone name

theorem printsAs_attributeLines (h : m.Lexical secondary) :
    PrintsAs .blockMarker m.attributeLines (m.forms secondary) := by
  have hindex (n : String) (hn : IsName n) (i : Index) (hi : ∀ n ∈ i.fields, IsName n) :
      PrintsAs .blockMarker [indexLine ("@@" ++ n) i] [⟨n, i.args⟩] :=
    Index.printsAs_indexLine hn (Expr.lexical_ofNames hi) (Expr.toText_ofNames _)
  have hunique : PrintsAs .blockMarker (m.uniqueIndexes.map (indexLine "@@unique"))
      (m.uniqueIndexes.map fun i => ⟨"unique", i.args⟩) :=
    PrintsAs.map fun i hi => hindex "unique" (by decide) i (h.unique i hi)
  have hkey : PrintsAs .blockMarker
      ((m.primaryKey.filter (!·.fields.isEmpty)).map (indexLine "@@id")).toList
      ((m.primaryKey.filter (!·.fields.isEmpty)).map fun i => ⟨"id", i.args⟩).toList :=
    PrintsAs.toList fun i hi => hindex "id" (by decide) i
      (h.primaryKey i (Option.filter_eq_some_iff.mp hi).1)
  exact ((hunique.append h.secondaryIndexes).append (printsAs_map m.dbName)).append hkey

/-- What the attributes of a model do to it, one after the other. -/
def applyForms (m : Model) (forms : List Attribute.Form) : Model :=
  (forms.map (·.toAttribute 0)).foldl applyAttribute m

theorem applyForms_append (m : Model) (as bs : List Attribute.Form) :
    m.applyForms (as ++ bs) = (m.applyForms as).applyForms bs := by
  simp only [applyForms, List.map_append, List.foldl_append]

/-- The line of an attribute does not matter to the model. -/
theorem foldl_applyAttribute {attrs : List Attribute} {forms : List Attribute.Form}
    (h : List.Forall₂ Attribute.HasForm attrs forms) (m : Model) :
    attrs.foldl applyAttribute m = m.applyForms forms := by
  induction h generalizing m with
  | nil => rfl
  | cons ha _ ih =>
    obtain ⟨line, rfl⟩ := ha
    exact ih _

theorem applyForms_unique (m : Model) (indexes : List Index) :
    m.applyForms (indexes.map fun i => ⟨"unique", i.args⟩) =
      { m with
        uniqueIndexes := m.uniqueIndexes ++ indexes
        uniqueFields := m.uniqueFields ++ indexes.map (·.fields) } := by
  induction indexes generalizing m with
  | nil => simp [applyForms]
  | cons i indexes ih =>
    have hstep : m.applyAttribute (Attribute.Form.toAttribute ⟨"unique", i.args⟩ 0) =
        m.addUniqueIndex i :=
      congrArg m.addUniqueIndex (Index.toIndex_args "unique" i 0)
    show (m.applyAttribute _).applyForms _ = _
    rw [hstep, ih]
    simp [addUniqueIndex]

theorem applyForms_map (m : Model) (hm : m.dbName = none) (dbName : Option String) :
    m.applyForms (dbName.map fun name => ⟨"map", [⟨none, .text name⟩]⟩).toList =
      { m with dbName := dbName } := by
  cases dbName with
  | none => exact congrArg (fun name => { m with dbName := name }) hm
  | some name => rfl

theorem applyForms_id (m : Model) (hm : m.primaryKey = none) (key : Option Index) :
    m.applyForms (key.map fun i => ⟨"id", i.args⟩).toList = { m with primaryKey := key } := by
  cases key with
  | none => exact congrArg (fun key => { m with primaryKey := key }) hm
  | some i => exact congrArg (fun i => { m with primaryKey := some i }) (Index.toIndex_args "id" i 0)

/-- An attribute that is passed over. -/
theorem applyForms_other (m : Model) {as : List Attribute.Form}
    (h : ∀ a ∈ as, a.name ∉ interpreted) : m.applyForms as = m := by
  induction as with
  | nil => rfl
  | cons a as ih =>
    have ha : m.applyAttribute (a.toAttribute 0) = m := by
      have := h a List.mem_cons_self
      simp only [interpreted, List.mem_cons, not_or] at this
      unfold applyAttribute Attribute.Form.toAttribute
      split <;> simp_all
    show (m.applyAttribute (a.toAttribute 0)).applyForms as = m
    rw [ha, ih fun b hb => h b (List.mem_cons_of_mem _ hb)]

theorem applyForms_forms (h : m.Lexical secondary) (fields : List Field) :
    Model.applyForms { name := m.name, fields, documentation := m.documentation }
      (m.forms secondary) = m.written fields := by
  rw [forms, applyForms_append, applyForms_append, applyForms_append, applyForms_unique,
    applyForms_other _ h.passedOver, applyForms_map _ rfl, applyForms_id _ rfl]
  rfl

end Model

/-! ### The items of a model -/

/-- An item stands for a field, as `R` says of its declaration, or for an attribute. -/
def ModelItem.Stands (R : FieldDecl → Field → Prop) : ModelItem → Field ⊕ Attribute.Form → Prop
  | field d, .inl f => R d f
  | attr a, .inr form => a.HasForm form
  | _, _ => False

section
variable {R : FieldDecl → Field → Prop} {items : List ModelItem} {forms : List Attribute.Form}

theorem ModelItem.stands_forms (h : List.Forall₂ (Stands R) items (forms.map .inr)) :
    items.filterMap field? = [] ∧ List.Forall₂ Attribute.HasForm (items.filterMap attr?) forms := by
  induction forms generalizing items with
  | nil =>
    cases h
    exact ⟨rfl, .nil⟩
  | cons form forms ih =>
    cases h with
    | @cons x _ xs _ hx hxs =>
      obtain ⟨hfields, hforms⟩ := ih hxs
      cases x with
      | field d => exact hx.elim
      | attr a => exact ⟨hfields, .cons hx hforms⟩

theorem ModelItem.stands_fields {fields : List Field}
    (h : List.Forall₂ (Stands R) items (fields.map .inl ++ forms.map .inr)) :
    List.Forall₂ R (items.filterMap field?) fields ∧
      List.Forall₂ Attribute.HasForm (items.filterMap attr?) forms := by
  induction fields generalizing items with
  | nil =>
    obtain ⟨hfields, hforms⟩ := stands_forms h
    exact ⟨hfields ▸ .nil, hforms⟩
  | cons f fields ih =>
    cases h with
    | @cons x _ xs _ hx hxs =>
      cases x with
      | attr a => exact hx.elim
      | field d =>
        obtain ⟨hfields, hforms⟩ := ih hxs
        exact ⟨.cons hx hfields, hforms⟩

end

theorem FieldDecl.mapM_resolve {model : String} {ds : List FieldDecl} {fields : List Field}
    (h : List.Forall₂ (fun d g => ∀ declared, FieldKind.ofName? declared g.type = some g.kind →
      d.resolve declared model = .ok g) ds fields) {declared : List Declaration}
    (hkinds : ∀ f ∈ fields, FieldKind.ofName? declared f.type = some f.kind) :
    ds.mapM (resolve declared model) = .ok fields := by
  induction h with
  | nil => rfl
  | cons hd _ ih =>
    obtain ⟨hkind, hkinds⟩ := List.forall_mem_cons.mp hkinds
    rw [List.mapM_cons, hd declared hkind, ih hkinds]
    rfl

theorem ModelItem.means_fields {model : String} {items : List ModelItem} {fields : List Field}
    {forms : List Attribute.Form}
    (h : List.Forall₂ (ModelItem.Means model) items (fields.map .inl ++ forms.map .inr)) :
    (∀ declared, (∀ f ∈ fields, FieldKind.ofName? declared f.type = some f.kind) →
      (items.filterMap field?).mapM (FieldDecl.resolve declared model) = .ok fields) ∧
    List.Forall₂ Attribute.HasForm (items.filterMap attr?) forms := by
  obtain ⟨hfields, hforms⟩ := stands_fields (h.imp fun x y hxy =>
    show Stands (fun d g => ∀ declared, FieldKind.ofName? declared g.type = some g.kind →
      d.resolve declared model = .ok g) x y by cases x <;> cases y <;> exact hxy)
  exact ⟨fun declared => FieldDecl.mapM_resolve hfields, hforms⟩

/-! ### Blocks of models -/

namespace Schema

/-- The names that a schema declares as types. -/
def names (s : Schema) : List (String × FieldKind) :=
  s.models.map (fun m => (m.name, .object)) ++ s.enums.map fun e => (e.name, .enum)

/-- The types of all fields are declared, and of the kind that the field has. -/
def KindsIn (declared : List Declaration) (s : Schema) : Prop :=
  ∀ m ∈ s.models, ∀ f ∈ m.fields, FieldKind.ofName? declared f.type = some f.kind

end Schema

/-- A block declares what the schema `s` holds. -/
structure Block.Declares (s : Schema) (b : Block) : Prop where
  names : (b.declaration?.map fun d => (d.name, d.kind)).toList = s.names
  resolve : ∀ declared, s.KindsIn declared → b.resolve declared = .ok s

/-- **A model is read back**, less its storage notes. -/
theorem Model.blockLines {m : Model} {secondary : List Attribute.Form} {fields : List Field}
    (h : m.Lexical secondary) (hfields : List.Forall₂ Field.ReadsAs m.fields fields) :
    ∃ ls, m.lines = .ok ls ∧ BlockLines ls (Block.Declares { models := [m.written fields] }) := by
  have hlines : List.Forall₂ (Field.HasLine (ModelItem.Means m.name) m.name) m.fields
      (fields.map .inl) := by
    rw [List.forall₂_map_right_iff]
    exact hfields.imp fun f g hf => hf.hasLine
  obtain ⟨ls, hls, hblock⟩ := blockLines_of_body h.name h.documentation hlines
    (ModelItem.bodyLines (printsAs_attributeLines h))
  refine ⟨ls, hls, hblock.mono ?_⟩
  rintro b ⟨line, items, rfl, hitems⟩
  obtain ⟨hresolve, hforms⟩ := ModelItem.means_fields hitems
  refine ⟨rfl, fun declared hkinds => ?_⟩
  have hkinds := hkinds (m.written fields) List.mem_cons_self
  have hattrs := (foldl_applyAttribute hforms _).trans (applyForms_forms h fields)
  simp only [Block.resolve, ModelBlock.resolve, ModelBlock.ofItems, hresolve declared hkinds,
    joinDocs_docTexts, bind, Except.bind, pure, Except.pure]
  rw [hattrs]

/-! ### Enums -/

namespace EnumValue

/-- The name in the database, where it is printed. -/
def printedName (v : EnumValue) : Option String := v.dbName.filter (· ≠ v.name)

def forms (v : EnumValue) : List Attribute.Form :=
  (v.printedName.map fun name => ⟨"map", [⟨none, .text name⟩]⟩).toList

/-- What the grammar reads off the line of a value. -/
def written (v : EnumValue) : EnumValue := { v with dbName := v.printedName }

theorem printsAs_texts (v : EnumValue) : PrintsAs .marker
    (v.printedName.map fun name => "@map(" ++ Text.Quoted.quote name ++ ")").toList v.forms :=
  PrintsAs.toList fun name _ => .positional .field "map" (by decide) (.text name) (.text name)

theorem toText_eq (v : EnumValue) : v.toText = " ".intercalate (v.name ::
    (v.printedName.map fun name => "@map(" ++ Text.Quoted.quote name ++ ")").toList) := by
  obtain ⟨name, _ | dbName⟩ := v
  · simp [toText, printedName]
  · by_cases hname : dbName = name
    · simp [toText, printedName, hname, Option.filter_some]
    · rw [← String.toList_inj]
      simp [toText, printedName, hname, Option.filter_some]

theorem mapName?_forms (v : EnumValue) (line : Nat) :
    Attribute.mapName? (v.forms.map (·.toAttribute line)) = v.printedName := by
  rw [forms]
  cases v.printedName <;> rfl

end EnumValue

/-- What an item of an enum stands for: a value or an attribute. -/
def EnumItem.Means : EnumItem → EnumValue ⊕ Attribute.Form → Prop
  | .value d, .inl v => d.resolve = v
  | .attr a, .inr form => a.HasForm form
  | _, _ => False

theorem EnumItem.bodyLines {texts : List String} {as : List Attribute.Form}
    (h : PrintsAs .blockMarker texts as) :
    BodyLines EnumItem.read EnumItem.Means [] texts (as.map .inr) :=
  h.bodyLines fun a last n rest => ⟨_, EnumItem.read_attr a last [] n rest, n, rfl⟩

theorem EnumItem.means_forms {items : List EnumItem} {forms : List Attribute.Form}
    (h : List.Forall₂ EnumItem.Means items (forms.map .inr)) :
    items.filterMap value? = [] ∧ List.Forall₂ Attribute.HasForm (items.filterMap attr?) forms := by
  induction forms generalizing items with
  | nil =>
    cases h
    exact ⟨rfl, .nil⟩
  | cons form forms ih =>
    cases h with
    | @cons x _ xs _ hx hxs =>
      obtain ⟨hvalues, hforms⟩ := ih hxs
      cases x with
      | value d => exact hx.elim
      | attr a => exact ⟨hvalues, .cons hx hforms⟩

theorem EnumItem.means_values {items : List EnumItem} {values : List EnumValue}
    {forms : List Attribute.Form}
    (h : List.Forall₂ EnumItem.Means items (values.map .inl ++ forms.map .inr)) :
    (items.filterMap value?).map EnumValueDecl.resolve = values ∧
      List.Forall₂ Attribute.HasForm (items.filterMap attr?) forms := by
  induction values generalizing items with
  | nil =>
    obtain ⟨hvalues, hforms⟩ := means_forms h
    exact ⟨by rw [hvalues]; rfl, hforms⟩
  | cons v values ih =>
    cases h with
    | @cons x _ xs _ hx hxs =>
      cases x with
      | attr a => exact hx.elim
      | value d =>
        obtain ⟨hvalues, hforms⟩ := ih hxs
        exact ⟨congrArg₂ List.cons hx hvalues, hforms⟩

theorem EnumValue.itemLine {v : EnumValue} (h : IsName v.name) :
    ItemLine EnumItem.read EnumItem.Means [] [] v.toText (.inl v.written) := by
  obtain ⟨ps, htexts, hforms⟩ := printsAs_texts v
  have htext : v.toText.toList = v.name.toList ++ textAll ps := by
    rw [toText_eq, ← htexts, toList_intercalate_texts]
  refine ⟨?_, .name v.name, kindsAll ps, .name _, ?_, fun last n rest => ?_⟩
  · obtain ⟨c, s, hs, hc, _⟩ := h
    have hc := Token.isBlank_of_isNameChar (Token.isNameChar_of_isNameStart hc)
    exact nonblank_of_head (c := c) (by rw [htext, hs]; rfl) hc
  · rw [htext]
    exact LexesLine.of_lexes (Lexes.name h (stops_textAll ps) (lexes_textAll ps))
      ((balanced_kindsAll ps).cons fun _ => rfl)
  · refine ⟨_, EnumItem.read_value v.name ps last [] n rest, ?_⟩
    have hattrs : ps.map (·.toAttribute n) = v.forms.map (·.toAttribute n) := by
      rw [← hforms, List.map_map]
      rfl
    show EnumValueDecl.resolve ⟨v.name, ps.map (·.toAttribute n), n⟩ = _
    rw [EnumValueDecl.resolve, hattrs, mapName?_forms, written]

namespace Enum

/-- An enum whose lines are made of tokens. -/
structure Lexical (e : Enum) : Prop where
  name : IsName e.name
  values : ∀ v ∈ e.values, IsName v.name
  documentation : IsDocumentation e.documentation

/-- What the grammar reads off the lines of an enum. -/
def written (e : Enum) : Enum :=
  { e with values := e.values.map EnumValue.written, dbName := e.dbName.filter (!·.isEmpty) }

theorem mapName?_of_hasForm {attrs : List Attribute} {dbName : Option String}
    (h : List.Forall₂ Attribute.HasForm attrs
      (dbName.map fun name => ⟨"map", [⟨none, .text name⟩]⟩).toList) :
    Attribute.mapName? attrs = dbName := by
  cases dbName with
  | none =>
    cases h
    rfl
  | some name =>
    cases h with
    | cons ha hattrs =>
      obtain ⟨line, rfl⟩ := ha
      cases hattrs
      rfl

/-- **An enum is read back.** -/
theorem blockLines {e : Enum} (h : e.Lexical) :
    BlockLines e.lines (Block.Declares { enums := [e.written] }) := by
  have hvalues : e.values.map (fun v => (.inl v.written : EnumValue ⊕ Attribute.Form)) =
      (e.values.map EnumValue.written).map .inl := by
    rw [List.map_map]
    rfl
  have hbody := BodyLines.append_items (fun v hv => EnumValue.itemLine (h.values v hv))
    (EnumItem.bodyLines (Model.printsAs_map e.dbName))
  rw [hvalues] at hbody
  refine (BlockLines.of_body Block.Maker.enum Block.reads_enum (by decide) h.name h.documentation
    hbody).mono ?_
  rintro b ⟨line, items, rfl, hitems⟩
  obtain ⟨hresolve, hforms⟩ := EnumItem.means_values hitems
  refine ⟨rfl, fun declared _ => ?_⟩
  simp only [Block.Maker.enum, Block.resolve, EnumBlock.resolve, EnumBlock.ofItems, hresolve,
    joinDocs_docTexts, mapName?_of_hasForm hforms]
  rfl

end Enum

end Datamodel
