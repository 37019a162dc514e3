import Datamodel.Proofs.Loading.Literals
import Datamodel.Proofs.Merge.Names
import Datamodel.Proofs.Stability.Rerender
import Datamodel.Proofs.Stability.Shown

/-! Defaults that are printed and read once more.

What a default is printed as depends on the field and on the function, and the text is read for what
it looks like: a string without quotes is no string any more, and the arguments of a call are told
apart anew. `DefaultValue.Survives` says which defaults are read back, and in a text that is printed
and loaded once more they are those that are the same (`default_of_load_toText`). -/

namespace Datamodel

open PrintedAttribute
open Printer (commaList)

/-! ### Calls -/

theorem Expr.lexical_call {function : String} {as : List Argument}
    (hfunction : Token.IsName function) (has : ∀ a ∈ as, a.Lexical) :
    (Expr.call function as).Lexical :=
  .call hfunction (fun a ha => (has a ha).label) fun a ha => (has a ha).value

theorem Expr.toText_call (function : String) (as : List Argument) :
    (Expr.call function as).toText =
      function ++ "(" ++ commaList (as.map Argument.toText) ++ ")" := by
  rw [Expr.toText, Argument.textList_eq_map, commaList]

/-- What a call of `dbgenerated` is printed as: its arguments are one string. -/
def Expr.generated (args : List String) : Expr :=
  .call "dbgenerated" [⟨none, .text (commaList args)⟩]

theorem Expr.lexical_generated (args : List String) : (generated args).Lexical :=
  lexical_call (by decide)
    (List.forall_mem_singleton.mpr (Argument.lexical_positional (.text (commaList args))))

theorem DefaultValue.valueText_generated (kind : FieldKind) (type : String) (args : List String) :
    (call "dbgenerated" args).valueText kind type = .ok (Expr.generated args).toText := by
  rw [Expr.generated, Expr.toText_call]
  rfl

/-! ### One default -/

/-- A default that is read back from the text of a field of that kind and type. -/
def DefaultValue.Survives (kind : FieldKind) (type : String) : DefaultValue → Prop
  | text _ => kind = .scalar ∧ type ≠ "BigInt"
  | call function args =>
    if function = "dbgenerated" then args.length = 1 else ∀ arg ∈ args, IsBareArgument arg
  | number _ | boolean _ | member _ => True
  | unrecognized _ => False

/-- The attribute `a` gives the default `d` just if that survives. -/
def PrintedAttribute.Settles (a : PrintedAttribute .marker) (kind : FieldKind) (type : String)
    (d : DefaultValue) : Prop :=
  a.name = "default" ∧ ∀ n,
    ((a.toAttribute n).positional?.map (Expr.toDefault kind) = some d ↔ d.Survives kind type)

namespace DefaultValue
variable {kind : FieldKind} {type v : String} {d : DefaultValue} {e : Expr}

theorem isName_default : Token.IsName "default" := by decide

/-- The attribute that an expression is printed in. -/
theorem exists_printed_of_expr (he : e.Lexical) :
    ∃ a : PrintedAttribute .marker, a.text = "@default(" ++ e.toText ++ ")" ∧ a.name = "default" ∧
      ∀ n, (a.toAttribute n).positional? = some e := by
  have hargs : ∀ a ∈ [(⟨none, e⟩ : Argument)], a.Lexical := by
    simpa using Argument.lexical_positional he
  refine ⟨.call .field isName_default hargs, ?_, rfl, fun _ => rfl⟩
  simp [PrintedAttribute.call, Argument.toText]

theorem exists_settles_of_expr (he : e.Lexical) (htext : e.toText = v)
    (hd : e.toDefault kind = d ↔ d.Survives kind type) :
    ∃ a : PrintedAttribute .marker, a.text = "@default(" ++ v ++ ")" ∧ a.Settles kind type d := by
  obtain ⟨a, ha, hname, hvalue⟩ := exists_printed_of_expr he
  refine ⟨a, htext ▸ ha, hname, fun n => ?_⟩
  rw [hvalue n]
  exact Option.some_inj.trans hd

theorem eq_text_of_toDefault {value : String} (h : e.toDefault kind = .text value) :
    e = .text value := by
  unfold Expr.toDefault at h
  split at h <;> try split at h
  all_goals cases h
  rfl

/-- A string without quotes is read as something else. -/
theorem settles_text {a : PrintedAttribute .marker} {value : String}
    (ha : a.text = "@default(" ++ value ++ ")") (hd : ¬Survives kind type (.text value)) :
    a.Settles kind type (.text value) := by
  refine ⟨a.name_eq isName_default ha, fun n => ⟨fun h => ?_, fun h => absurd h hd⟩⟩
  obtain ⟨e, he, hvalue⟩ := Option.map_eq_some_iff.mp h
  obtain ⟨arg, harg, rfl⟩ := Option.map_eq_some_iff.mp he
  exact absurd (eq_text_of_toDefault hvalue)
    (a.ne_text isName_default ha arg (List.mem_of_find?_eq_some harg))

/-- A call is read as one of the same function. If some argument was a string, the arguments are
others. -/
theorem settles_call {a : PrintedAttribute .marker} {function : String} {args : List String}
    (hfunction : Token.IsName function)
    (ha : a.text = "@default(" ++ (function ++ "(" ++ commaList args ++ ")") ++ ")")
    (hargs : ¬∀ arg ∈ args, IsBareArgument arg) (hd : ¬Survives kind type (.call function args)) :
    a.Settles kind type (.call function args) := by
  refine ⟨a.name_eq isName_default ha, fun n => ⟨fun h => ?_, fun h => absurd h hd⟩⟩
  obtain ⟨as, rest, heq, hbare⟩ := a.exists_call isName_default hfunction ha
  have hvalue : (a.toAttribute n).positional? = some (.call function as) := by
    simp [Attribute.positional?, Attribute.Form.toAttribute, heq]
  rw [hvalue, Option.map_some] at h
  injection h with h
  injection h with _ h
  exact absurd (hbare h) hargs

/-- The arguments of a call that are printed as they are. -/
theorem exists_arguments {args : List String} (h : ∀ arg ∈ args, IsBareArgument arg) :
    ∃ as : List Argument, (∀ a ∈ as, a.Lexical) ∧ as.map Argument.toText = args ∧
      as.map Argument.bareText = args := by
  induction args with
  | nil => exact ⟨[], nofun, rfl, rfl⟩
  | cons arg args ih =>
    obtain ⟨⟨a, ha, htext, hbare⟩, hargs⟩ := List.forall_mem_cons.mp h
    obtain ⟨as, has, htexts, hbares⟩ := ih hargs
    exact ⟨a :: as, List.forall_mem_cons.mpr ⟨ha, has⟩, congrArg₂ List.cons htext htexts,
      congrArg₂ List.cons hbare hbares⟩

theorem call_eq_iff {function : String} {args : List String} :
    call function [commaList args] = call function args ↔ args.length = 1 := by
  constructor
  · intro h
    injection h with _ h
    rw [← h]
    rfl
  · intro h
    obtain ⟨arg, rfl⟩ := List.length_eq_one_iff.mp h
    rw [commaList, String.intercalate_singleton]

theorem exists_settles_call {function : String} {as : List Argument}
    (he : (Expr.call function as).Lexical)
    (hv : valueText kind type (.call function (as.map Argument.bareText)) = .ok v)
    (hcontained : ∃ a : PrintedAttribute .marker, a.text = "@default(" ++ v ++ ")") :
    ∃ a : PrintedAttribute .marker, a.text = "@default(" ++ v ++ ")" ∧
      a.Settles kind type (.call function (as.map Argument.bareText)) := by
  cases he with
  | call hfunction =>
  by_cases hgenerated : function = "dbgenerated"
  · -- The arguments are printed as one string, so they are read as one argument.
    subst hgenerated
    refine exists_settles_of_expr (Expr.lexical_generated (as.map Argument.bareText)) ?_ ?_
    · exact Except.ok.inj ((valueText_generated kind type _).symm.trans hv)
    · exact call_eq_iff.trans (by rw [Survives, if_pos rfl])
  · rw [valueText, if_neg hgenerated] at hv
    cases hv
    by_cases hargs : ∀ arg ∈ as.map Argument.bareText, IsBareArgument arg
    · obtain ⟨as', hlexical, htexts, hbares⟩ := exists_arguments hargs
      refine exists_settles_of_expr (Expr.lexical_call hfunction hlexical) ?_ (iff_of_true ?_ ?_)
      · rw [Expr.toText_call, htexts]
      · rw [Expr.toDefault, hbares]
      · rwa [Survives, if_neg hgenerated]
    · obtain ⟨a, ha⟩ := hcontained
      refine ⟨a, ha, settles_call hfunction ha hargs ?_⟩
      rwa [Survives, if_neg hgenerated]

theorem toDefault_name {n : String} (htrue : n ≠ "true") (hfalse : n ≠ "false") :
    (Expr.name n).toDefault kind = if kind = .enum then .member n else .unrecognized n := by
  unfold Expr.toDefault
  split <;> simp_all

/-- A flag or a member of an enum survives. -/
theorem survives_name {n : String}
    (hv : ((Expr.name n).toDefault kind).valueText kind type = .ok v) :
    n = v ∧ ((Expr.name n).toDefault kind).Survives kind type := by
  by_cases htrue : n = "true"
  · subst htrue
    cases hv
    exact ⟨rfl, trivial⟩
  by_cases hfalse : n = "false"
  · subst hfalse
    cases hv
    exact ⟨rfl, trivial⟩
  rw [toDefault_name htrue hfalse] at hv ⊢
  split at hv
  · next henum =>
    cases hv
    rw [if_pos henum]
    exact ⟨rfl, trivial⟩
  · cases hv

/-- **A printed default** is read from some attribute as itself just if it survives. Where it does
not, this is the attribute that its text is taken for. -/
theorem exists_settles (he : e.Lexical) (hv : (e.toDefault kind).valueText kind type = .ok v)
    (hcontained : ∃ a : PrintedAttribute .marker, a.text = "@default(" ++ v ++ ")") :
    ∃ a : PrintedAttribute .marker, a.text = "@default(" ++ v ++ ")" ∧
      a.Settles kind type (e.toDefault kind) := by
  cases e with
  | text value =>
    have hv : Except.ok (if kind = .scalar ∧ type ≠ "BigInt" then Text.Quoted.quote value
        else value) = Except.ok v := hv
    by_cases hsurvives : kind = .scalar ∧ type ≠ "BigInt"
    · rw [if_pos hsurvives] at hv
      cases hv
      exact exists_settles_of_expr he (by rw [Expr.toText]) (iff_of_true rfl hsurvives)
    · rw [if_neg hsurvives] at hv
      cases hv
      obtain ⟨a, ha⟩ := hcontained
      exact ⟨a, ha, settles_text ha hsurvives⟩
  | number lexeme =>
    cases hv
    exact exists_settles_of_expr he rfl (iff_of_true rfl trivial)
  | name n =>
    obtain ⟨htext, hsurvives⟩ := survives_name hv
    exact exists_settles_of_expr he htext (iff_of_true rfl hsurvives)
  | call function as => exact exists_settles_call he hv hcontained
  | array items => cases hv

end DefaultValue

/-! ### Fields and models -/

/-- A field whose default and whose native type are printed as one attribute each. -/
structure Field.Contained (f : Field) : Prop where
  default : ∀ d ∈ f.default, ∀ model text, f.defaultText model d = .ok text →
    ∃ a : PrintedAttribute .marker, a.text = text
  nativeType : ∀ t ∈ f.nativeType, ∃ a : PrintedAttribute .marker, a.text = t ∧ a.name ≠ "default"

/-- A model whose fields and whose secondary indexes are printed as attributes. -/
structure Model.Contained (m : Model) : Prop where
  fields : ∀ f ∈ m.fields, f.Contained
  secondaryIndexes : ∀ t ∈ m.secondaryIndexes, ∃ a : PrintedAttribute .blockMarker, a.text = t

/-- The type of the field `f` is of its kind, and the expression `e` gives it its default just if
that survives. -/
def Field.ReadFrom (names : List (String × FieldKind)) (f : Field) (e : Option Expr) : Prop :=
  FieldKind.among? names f.type = some f.kind ∧
    (e.map (Expr.toDefault f.kind) = f.default ↔ ∀ d ∈ f.default, d.Survives f.kind f.type)

section
variable {names : List (String × FieldKind)}

theorem Field.exists_valueText {f : Field} {d : DefaultValue} (hd : f.default = some d)
    {model line : String} (htext : f.toText model = .ok line) :
    ∃ v, d.valueText f.kind f.type = .ok v := by
  obtain ⟨-, default, hdefault⟩ := exists_toText_iff.mp ⟨line, htext⟩
  cases hv : d.valueText f.kind f.type with
  | ok v => exact ⟨v, rfl⟩
  | error raw =>
    rw [hd, Option.mapM_some, defaultText, hv] at hdefault
    cases hdefault

theorem Field.Contained.exists_default {f : Field} (h : f.Contained) (hsourced : f.Sourced)
    {model line : String} (htext : f.toText model = .ok line) :
    ∃ o : Option (PrintedAttribute .marker),
      (∀ model, f.default.mapM (f.defaultText model) = .ok (o.map (·.text))) ∧
      (∀ a ∈ o, a.name = "default") ∧
      ∀ n, (o.bind fun a => (a.toAttribute n).positional?).map (Expr.toDefault f.kind) = f.default ↔
        ∀ d ∈ f.default, d.Survives f.kind f.type := by
  cases hd : f.default with
  | none => exact ⟨none, fun _ => rfl, nofun, fun _ => iff_of_true rfl nofun⟩
  | some d =>
    obtain ⟨v, hv⟩ := exists_valueText hd htext
    obtain ⟨e, he, rfl⟩ := hsourced.default d hd
    have hdefault (model : String) : f.defaultText model (e.toDefault f.kind) =
        .ok ("@default(" ++ v ++ ")") := by rw [defaultText, hv]
    obtain ⟨a, ha, hname, hsettles⟩ :=
      DefaultValue.exists_settles he hv (h.default _ hd model _ (hdefault model))
    refine ⟨some a, fun model => ?_, ?_, fun n => (hsettles n).trans ?_⟩
    · rw [Option.mapM_some, hdefault, Option.map_some, ha]
      rfl
    · rintro _ ⟨⟩
      exact hname
    · simp

theorem Field.Contained.shown {f : Field} (h : f.Contained) (hwell : f.WellFormed names)
    (hsourced : f.Sourced) {model line : String} (htext : f.toText model = .ok line)
    (hkind : FieldKind.among? names f.type = some f.kind) : f.Shown (Field.ReadFrom names) := by
  have hsupported := (exists_toText_iff.mp ⟨line, htext⟩).1
  obtain ⟨o, htexts, hnames, hdefault⟩ := h.exists_default hsourced htext
  exact {
    name := hwell.name
    type := (hwell.type.resolve_left hsupported).1
    supported := hsupported
    documentation := hwell.documentation
    default := ⟨o, htexts, hnames, fun n => ⟨hkind, hdefault n⟩⟩
    nativeType := h.nativeType
    relation := hsourced.relation }

theorem Model.Contained.shown {m : Model} (h : m.Contained) (hwell : m.WellFormed names)
    (hsourced : m.Sourced) {text : String} (htext : m.toText = .ok text)
    (hkinds : ∀ f ∈ m.fields, FieldKind.among? names f.type = some f.kind) :
    m.Shown (Field.ReadFrom names) where
  toHasSourcedIndexes := hsourced.toHasSourcedIndexes
  name := hwell.name
  documentation := hwell.documentation
  fields := by
    intro f hf
    obtain ⟨line, hline⟩ := exists_toText_iff.mp ⟨text, htext⟩ f hf
    exact (h.fields f hf).shown (hwell.fields f hf) (hsourced.fields f hf) hline (hkinds f hf)
  secondaryIndexes := h.secondaryIndexes

end

/-! ### A text that is printed and loaded once more -/

/-- A field of the same place, name and type, with the same default just if that survives. -/
structure Field.Reloaded (f f' : Field) : Prop where
  name : f'.name = f.name
  kind : f'.kind = f.kind
  type : f'.type = f.type
  default : f'.default = f.default ↔ ∀ d ∈ f.default, d.Survives f.kind f.type

/-- A model of the same place and name, with a field for each field. -/
structure Model.Reloaded (m m' : Model) : Prop where
  name : m'.name = m.name
  fields : List.Forall₂ Field.Reloaded m.fields m'.fields

section
variable {names : List (String × FieldKind)} {declared : List Declaration}

theorem Field.reloaded_of_shows {model : String} {d : FieldDecl} {f f' : Field}
    (hdeclared : declared.map (fun d => (d.name, d.kind)) = names)
    (hshows : d.Shows (Field.ReadFrom names) f) (h : f'.DeclaredBy declared model d) :
    f.Reloaded f' := by
  obtain ⟨hkind, hdefault⟩ := hshows.default
  have hkind' : f'.kind = f.kind := by
    have hread := h.kind
    simp only [FieldDecl.kind, hshows.type, FieldKind.ofName?_eq_among?, hdeclared, hkind] at hread
    exact (Except.ok.inj hread).symm
  refine ⟨h.name.trans hshows.name, hkind', ?_, ?_⟩
  · rw [h.type, hshows.type]
    rfl
  · rw [h.default, hkind']
    exact hdefault

theorem Model.reloaded_of_shows {b : ModelBlock} {m m' : Model}
    (hdeclared : declared.map (fun d => (d.name, d.kind)) = names)
    (hshows : b.Shows (Field.ReadFrom names) m) (h : m'.DeclaredBy declared b) : m.Reloaded m' :=
  ⟨h.1.trans hshows.name, forall₂_of_common hshows.fields h.2 fun _ _ _ =>
    Field.reloaded_of_shows hdeclared⟩

end

/-- **The defaults of a text that is printed and loaded once more** are the same just if they
survive. -/
theorem default_of_load_toText {origin origin' source text : String} {fragment again : Fragment}
    {policy : Policy} (h : Fragment.load origin source = .ok fragment)
    (hcontained : ∀ m ∈ fragment.schema.models, m.Contained)
    (htext : (merge [fragment] policy).toText = .ok text)
    (hagain : Fragment.load origin' text = .ok again) :
    List.Forall₂ Model.Reloaded fragment.schema.models again.schema.models := by
  obtain ⟨hmodelNames, henumNames⟩ := Schema.nodup_of_names (Fragment.nodup_names_of_load h)
  have hmodels := models_merge_singleton hmodelNames policy
  have hwell : (merge [fragment] policy).WellFormed (merge [fragment] policy).names :=
    Schema.wellFormed_merge (List.forall_mem_singleton.mpr (Fragment.wellFormed_of_load h)) policy
  have hnames : ((merge [fragment] policy).names.map (·.1)).Nodup := by
    rw [Schema.names, hmodels, enums_merge_singleton henumNames]
    exact Fragment.nodup_names_of_load h
  have htexts := Schema.exists_toText_iff.mp ⟨text, htext⟩
  have hconsistent := hwell.consistent hnames fun m hm f hf =>
    (Field.exists_toText_iff.mp (htexts m hm f hf)).1
  have hshown : ∀ m ∈ (merge [fragment] policy).models,
      m.Shown (Field.ReadFrom (merge [fragment] policy).names) := by
    intro m hm
    have hm' : m ∈ fragment.schema.models := hmodels ▸ hm
    obtain ⟨mtext, hmtext⟩ := Model.exists_toText_iff.mpr (htexts m hm)
    exact (hcontained m hm').shown (hwell.models m hm) (Fragment.sourced_of_load h m hm') hmtext
      (hconsistent.kinds m hm)
  obtain ⟨blocks, hblocks, hdeclarations, hshows⟩ := Schema.exists_blocks_of_toText hshown
    hwell.enums hwell.datasources hwell.generators htext
  have hread : Block.ofText (String.ofList (Text.dropMark text.toList)) = .ok blocks := by
    rw [Schema.dropMark_toText htext, String.ofList_toList, hblocks]
  obtain ⟨declared, hdeclared, hagain⟩ := Fragment.declaredBy_of_load hagain hread
  obtain ⟨rfl, -⟩ := Declaration.eq_of_ofBlocks hdeclared
  rw [← hmodels]
  exact forall₂_of_common hshows hagain fun _ _ _ => Model.reloaded_of_shows hdeclarations

/-- Two fields, the default of the first being a string or what it is printed as. -/
def priced (price : DefaultValue) : Schema where
  models := [{
    name := "Item"
    fields := [(Field.scalar "price" "BigInt").withDefault price,
      (Field.scalar "label" "String").withDefault (.text "new")] }]

theorem contained_priced : ∀ m ∈ (priced (.text "5")).models, m.Contained := by
  refine List.forall_mem_singleton.mpr ⟨?_, nofun⟩
  have hfive : (Expr.number "5").Lexical := .number ⟨'5', [], rfl, by decide, by decide⟩
  refine List.forall_mem_cons.mpr ⟨⟨?_, nofun⟩, List.forall_mem_singleton.mpr ⟨?_, nofun⟩⟩
  · rintro _ ⟨⟩ model _ ⟨⟩
    obtain ⟨a, ha, -⟩ := DefaultValue.exists_printed_of_expr hfive
    exact ⟨a, ha⟩
  · rintro _ ⟨⟩ model _ ⟨⟩
    obtain ⟨a, ha, -⟩ := DefaultValue.exists_printed_of_expr (.text "new")
    exact ⟨a, ha⟩

/-- A string is read back from a field of strings, and as a number from one of numbers. -/
theorem default_of_load_toText_priced : ∃ fragment text again,
    Fragment.load "a.prisma"
      "model Item \x7b\n  price BigInt @default(\"5\")\n  label String @default(\"new\")\n\x7d\n" =
        .ok fragment ∧
    (merge [fragment]).toText = .ok text ∧ Fragment.load "again.prisma" text = .ok again ∧
    again.schema = priced (.number "5") ∧
    List.Forall₂ Model.Reloaded fragment.schema.models again.schema.models := by
  let text := "// *** GENERATED BY SCHEMA MIXER :: DO NOT EDIT ***\n\n" ++
    "model Item \x7b\n  price BigInt @default(5)\n  label String @default(\"new\")\n\x7d\n"
  have hload : Fragment.load "a.prisma"
      "model Item \x7b\n  price BigInt @default(\"5\")\n  label String @default(\"new\")\n\x7d\n" =
        .ok ⟨"a.prisma", priced (.text "5")⟩ := Fragment.load_of_chars (by decide +kernel)
  have htext : (merge [⟨"a.prisma", priced (.text "5")⟩]).toText = .ok text :=
    eq_ok_of_toOption (by decide +kernel)
  have hagain : Fragment.load "again.prisma" text = .ok ⟨"again.prisma", priced (.number "5")⟩ := by
    rw [Fragment.load_eq_ofChars]
    exact eq_ok_of_toOption (by decide +kernel)
  exact ⟨_, text, _, hload, htext, hagain, rfl,
    default_of_load_toText hload contained_priced htext hagain⟩

/-! ### Defaults that are lost -/

/-- Every field of a fragment has the default of the field in its place in another. -/
def Fragment.KeepsDefaults (fragment again : Fragment) : Prop :=
  ∀ m' ∈ again.schema.models, ∃ m ∈ fragment.schema.models, m.name = m'.name ∧
    m'.fields.map (·.default) <+: m.fields.map (·.default)

instance (fragment again : Fragment) : Decidable (fragment.KeepsDefaults again) :=
  inferInstanceAs (Decidable (∀ m' ∈ _, ∃ m ∈ _, _))

/-- The fragment of a text and that of the text which it is printed as, if there are both. -/
def reload? (source : String) : Option (Fragment × Fragment) := do
  let fragment ← (Fragment.load "a.prisma" source).toOption
  let text ← (merge [fragment]).toText.toOption
  let again ← (Fragment.load "again.prisma" text).toOption
  return (fragment, again)

/-- The defaults of a text are the same when it is printed and loaded once more. -/
def DefaultsKept (source : String) : Prop := ∀ p ∈ reload? source, p.1.KeepsDefaults p.2

def reloadChars? (cs : List Char) : Option (Fragment × Fragment) := do
  let fragment ← (Fragment.ofChars "a.prisma" cs).toOption
  let text ← (merge [fragment]).toText.toOption
  let again ← (Fragment.ofChars "again.prisma" text.toList).toOption
  return (fragment, again)

theorem not_defaultsKept_of_chars {cs : List Char}
    (h : ∃ p ∈ reloadChars? cs, ¬p.1.KeepsDefaults p.2) : ¬DefaultsKept (String.ofList cs) := by
  have heq : reload? (String.ofList cs) = reloadChars? cs := by
    simp only [reload?, reloadChars?, Fragment.load_eq_ofChars, String.toList_ofList]
  obtain ⟨p, hp, hlost⟩ := h
  exact fun hkept => hlost (hkept p (heq.symm ▸ hp))

/-- Texts of a default of each shape that does not survive. -/
def lostDefaultTexts : List String := [
  -- A string on a field of large numbers.
  "model A \x7b\n  b BigInt @default(\"\")\n\x7d\n",
  -- A string on a field of an enum.
  "enum R \x7b\n  U\n\x7d\n\nmodel A \x7b\n  r R @default(\"U\")\n\x7d\n",
  -- A string among the arguments of a call.
  "model A \x7b\n  s String @default(f(\"\"))\n\x7d\n",
  -- A call of `dbgenerated` without arguments.
  "model A \x7b\n  s String @default(dbgenerated())\n\x7d\n"]

/-- **Defaults are not kept**, since the field and the function decide what is quoted. -/
theorem not_defaultsKept : ¬∃ source ∈ lostDefaultTexts, DefaultsKept source := by
  have hlost : ∀ source ∈ lostDefaultTexts, ¬DefaultsKept source := by
    simp only [lostDefaultTexts, List.forall_mem_cons]
    refine ⟨?_, ?_, ?_, ?_, List.forall_mem_nil _⟩ <;>
      exact not_defaultsKept_of_chars (by decide +kernel)
  rintro ⟨source, hsource, hkept⟩
  exact hlost source hsource hkept

/-- Texts of something that is not printed as one attribute, so that the printed text has other
fields or models. -/
def spilledTexts : List String := [
  -- A default that is printed as two fields.
  "model A \x7b\n  b BigInt @default(\"1)\\nc Int @default(2\")\n\x7d\n",
  -- A native type that runs into a relation with a default in its name.
  "model A \x7b\n  a A @db.X(\")\") @relation(\",1)@default(9)//\")\n\x7d\n",
  -- A secondary index that ends its model and opens another.
  "model A \x7b\n  i Int\n  @@map(\"@@index()\x7dmodel B\x7bi Int//)\")\n\x7d\n"]

/-- Each part of `Model.Contained` is needed. -/
theorem not_defaultsKept_of_spilled : ∀ source ∈ spilledTexts, ¬DefaultsKept source := by
  simp only [spilledTexts, List.forall_mem_cons]
  refine ⟨?_, ?_, ?_, List.forall_mem_nil _⟩ <;>
    exact not_defaultsKept_of_chars (by decide +kernel)

end Datamodel
