import Datamodel.Proofs.Resolution.Blocks

/-! Which blocks are resolved.

`Block.Resolvable` states the conditions on the blocks as they are written, part by part: names,
types of fields, `onDelete` arguments, and the properties of data sources and generators. There is
one lemma for each step of the resolution, which says when that step gives a result; together they
show that blocks are resolved just if the conditions hold (`resolve_iff_resolvable`). -/

namespace Datamodel

/-! ### The conditions -/

/-- A string, or a call `env("VAR")`. -/
def Expr.IsTextOrEnv (e : Expr) : Prop :=
  (∃ value, e = .text value) ∨ ∃ var, e = .call "env" [⟨none, .text var⟩]

/-- The type of a field is built in, or one of the names. -/
def FieldDecl.IsTyped (names : List String) (f : FieldDecl) : Prop :=
  ∀ name, f.type = .named name → name ∈ scalarTypes ∨ name ∈ names

/-- The type of a field is not built in, but a model or view of the blocks. -/
def FieldDecl.Refers (blocks : List Block) (f : FieldDecl) : Prop :=
  ∃ name, f.type = .named name ∧ name ∉ scalarTypes ∧ ∃ m, .model m ∈ blocks ∧ m.name = name

/-- An `onDelete` argument of the first `@relation` is written as a referential action. -/
def FieldDecl.HasAction (f : FieldDecl) : Prop :=
  ∀ a ∈ f.attribute? "relation", ∀ e ∈ a.labelled? "onDelete",
    ∃ action : ReferentialAction, e.toText = action.toText

namespace ConfigBlock

/-- The first property of that key, if there is one, is a string or an environment variable. -/
def HasEnvValue (b : ConfigBlock) (key : String) : Prop :=
  ∀ p ∈ b.property? key, p.value.IsTextOrEnv

/-- A data source gives a string as its provider, and an address that can be one. -/
structure IsDatasource (b : ConfigBlock) : Prop where
  provider : ∃ p value, b.property? "provider" = some p ∧ p.value = .text value
  url : b.HasEnvValue "url"

/-- A generator gives its provider, and no output that cannot be one. -/
structure IsGenerator (b : ConfigBlock) : Prop where
  provider : ∃ p, b.property? "provider" = some p ∧ p.value.IsTextOrEnv
  output : b.HasEnvValue "output"

end ConfigBlock

/-- Blocks that can be resolved. -/
structure Block.Resolvable (blocks : List Block) : Prop where
  names : (typeNames blocks).Nodup
  types : ∀ b, .model b ∈ blocks → ∀ f ∈ b.fields, f.IsTyped (typeNames blocks)
  actions : ∀ b, .model b ∈ blocks → ∀ f ∈ b.fields, f.Refers blocks → f.HasAction
  datasources : ∀ b, .datasource b ∈ blocks → b.IsDatasource
  generators : ∀ b, .generator b ∈ blocks → b.IsGenerator

/-! ### Types -/

section
variable {declared : List Declaration} {name : String}

theorem FieldKind.exists_ofName?_iff : (∃ kind, ofName? declared name = some kind) ↔
    name ∈ scalarTypes ∨ name ∈ declared.map (·.name) := by
  rw [ofName?]
  split
  · next hscalar => exact ⟨fun _ => .inl hscalar, fun _ => ⟨_, rfl⟩⟩
  · next hscalar =>
    rw [← Option.isSome_iff_exists, Option.isSome_map, List.find?_isSome, List.mem_map]
    simp [hscalar]

/-- Where no name is declared twice, a type is a model just if it is declared as one. -/
theorem FieldKind.ofName?_eq_object_iff (hnodup : (declared.map (·.name)).Nodup) :
    ofName? declared name = some .object ↔
      name ∉ scalarTypes ∧ ∃ d ∈ declared, d.name = name ∧ d.kind = .object := by
  constructor
  · intro h
    rcases mem_of_ofName? h with ⟨-, hkind⟩ | ⟨hscalar, hmem⟩
    · cases hkind
    · obtain ⟨d, hd, hpair⟩ := List.mem_map.mp hmem
      obtain ⟨hname, hkind⟩ := Prod.mk.inj hpair
      exact ⟨hscalar, d, hd, hname, hkind⟩
  · rintro ⟨hscalar, d, hd, rfl, hkind⟩
    rw [ofName?, if_neg hscalar, find?_of_nodup hnodup hd, Option.map_some, hkind]

theorem Block.exists_object_iff {blocks : List Block} :
    (∃ d ∈ blocks.filterMap declaration?, d.name = name ∧ d.kind = .object) ↔
      ∃ m, .model m ∈ blocks ∧ m.name = name := by
  constructor
  · rintro ⟨d, hd, rfl, hkind⟩
    obtain ⟨b, hb, hdecl⟩ := List.mem_filterMap.mp hd
    cases b with
    | model m =>
      cases hdecl
      exact ⟨m, hb, rfl⟩
    | enum b =>
      cases hdecl
      cases hkind
    | datasource b | generator b => cases hdecl
  · rintro ⟨m, hm, rfl⟩
    exact ⟨⟨m.name, .object, m.line⟩, List.mem_filterMap.mpr ⟨_, hm, rfl⟩, rfl, rfl⟩

variable {f : FieldDecl} {model : String}

theorem FieldDecl.exists_kind_iff : (∃ kind, f.kind declared model = .ok kind) ↔
    f.IsTyped (declared.map (·.name)) := by
  unfold kind IsTyped
  split
  · next dbType htype =>
    refine ⟨fun _ name hname => ?_, fun _ => ⟨_, rfl⟩⟩
    rw [htype] at hname
    cases hname
  · next name htype =>
    rw [htype]
    have hiff : (∃ kind, FieldKind.ofName? declared name = some kind) ↔ _ :=
      FieldKind.exists_ofName?_iff
    split
    · next kind hkind =>
      refine ⟨?_, fun _ => ⟨kind, rfl⟩⟩
      rintro _ _ ⟨⟩
      exact hiff.mp ⟨kind, hkind⟩
    · next hnone =>
      refine ⟨?_, fun h => ?_⟩
      · rintro ⟨kind, ⟨⟩⟩
      · obtain ⟨kind, hkind⟩ := hiff.mpr (h name rfl)
        rw [hnone] at hkind
        cases hkind

theorem FieldDecl.kind_eq_object_iff {blocks : List Block} (h : (Block.typeNames blocks).Nodup) :
    f.kind (blocks.filterMap Block.declaration?) model = .ok .object ↔ f.Refers blocks := by
  rw [← Block.map_name_declarations] at h
  unfold kind Refers
  split
  · next dbType htype => simp [htype]
  · next name htype =>
    have hiff : FieldKind.ofName? (blocks.filterMap Block.declaration?) name = some .object ↔ _ :=
      (FieldKind.ofName?_eq_object_iff h).trans (and_congr_right fun _ => Block.exists_object_iff)
    simp only [htype, TypeRef.named.injEq, exists_eq_left', ← hiff]
    split
    · next kind hkind => simp [hkind]
    · next hnone => simp [hnone]

end

/-! ### Relations -/

theorem ReferentialAction.ofText?_eq_some_iff {text : String} {action : ReferentialAction} :
    ofText? text = some action ↔ text = action.toText := by
  constructor
  · intro h
    have hfound := List.find?_some h
    exact (beq_iff_eq.mp hfound).symm
  · rintro rfl
    exact ofText?_toText action

theorem Attribute.exists_onDelete_iff {a : Attribute} : (∃ action, a.onDelete = .ok action) ↔
    ∀ e ∈ a.labelled? "onDelete", ∃ action : ReferentialAction, e.toText = action.toText := by
  unfold onDelete
  split
  · next hnone =>
    rw [hnone]
    exact ⟨fun _ => nofun, fun _ => ⟨none, rfl⟩⟩
  · next e hsome =>
    simp only [hsome, Option.mem_some_iff, forall_eq']
    split
    · next action haction =>
      exact ⟨fun _ => ⟨action, ReferentialAction.ofText?_eq_some_iff.mp haction⟩,
        fun _ => ⟨some action, rfl⟩⟩
    · next hnone =>
      refine ⟨?_, ?_⟩
      · rintro ⟨action, ⟨⟩⟩
      · rintro ⟨action, htext⟩
        rw [ReferentialAction.ofText?_eq_some_iff.mpr htext] at hnone
        cases hnone

theorem Relation.exists_resolve_iff {model target : String} {attr : Option Attribute} :
    (∃ r, Relation.resolve model target attr = .ok r) ↔
      ∀ a ∈ attr, ∃ action, a.onDelete = .ok action := by
  cases attr with
  | none => exact ⟨fun _ => nofun, fun _ => ⟨_, rfl⟩⟩
  | some a =>
    rw [resolve, exists_bind_iff]
    simp only [Option.mem_some_iff, forall_eq']
    exact exists_congr fun action => and_iff_left ⟨_, rfl⟩

/-! ### Fields and models -/

section
variable {declared : List Declaration} {blocks : List Block} {model : String}

theorem FieldDecl.exists_resolve_iff {f : FieldDecl} :
    (∃ field, f.resolve declared model = .ok field) ↔
      (∃ kind, f.kind declared model = .ok kind) ∧
        (f.kind declared model = .ok .object → f.HasAction) := by
  rw [resolve, exists_bind_iff]
  constructor
  · rintro ⟨kind, hkind, h⟩
    refine ⟨⟨kind, hkind⟩, fun hobject => ?_⟩
    rw [hkind] at hobject
    rw [if_pos (Except.ok.inj hobject), exists_bind_iff] at h
    obtain ⟨relation, hrelation, -⟩ := h
    have hactions := Relation.exists_resolve_iff.mp ⟨relation, hrelation⟩
    exact fun a ha => Attribute.exists_onDelete_iff.mp (hactions a ha)
  · rintro ⟨⟨kind, hkind⟩, haction⟩
    refine ⟨kind, hkind, ?_⟩
    split
    · next hobject =>
      have hactions : ∀ a ∈ f.attribute? "relation", ∃ action, a.onDelete = .ok action :=
        fun a ha => Attribute.exists_onDelete_iff.mpr (haction (hobject ▸ hkind) a ha)
      rw [exists_bind_iff]
      exact (exists_congr fun relation => and_iff_left ⟨_, rfl⟩).mpr
        (Relation.exists_resolve_iff.mpr hactions)
    · exact ⟨_, rfl⟩

theorem ModelBlock.exists_resolve_iff {b : ModelBlock} (h : (Block.typeNames blocks).Nodup) :
    (∃ m, b.resolve (blocks.filterMap Block.declaration?) = .ok m) ↔
      ∀ f ∈ b.fields, f.IsTyped (Block.typeNames blocks) ∧ (f.Refers blocks → f.HasAction) := by
  rw [resolve, exists_bind_iff, ← Block.map_name_declarations]
  have hfields : (∃ fields, b.fields.mapM
        (FieldDecl.resolve (blocks.filterMap Block.declaration?) b.name) = .ok fields) ↔ _ :=
    exists_mapM_iff
  simp only [FieldDecl.exists_resolve_iff, FieldDecl.exists_kind_iff,
    FieldDecl.kind_eq_object_iff h] at hfields
  rw [← hfields]
  exact exists_congr fun fields => and_iff_left ⟨_, rfl⟩

end

/-! ### Data sources and generators -/

theorem Expr.text?_eq_some_iff {e : Expr} {value : String} :
    e.text? = some value ↔ e = .text value := by
  cases e <;> simp [text?]

theorem Expr.env?_eq_some_iff {e : Expr} {var : String} :
    e.env? = some var ↔ e = .call "env" [⟨none, .text var⟩] := by
  unfold env?
  split
  · simp [text?_eq_some_iff]
  · next hne =>
    refine ⟨nofun, ?_⟩
    rintro rfl
    exact absurd rfl (hne _)

theorem Expr.exists_toEnvValue_iff {line : Nat} {e : Expr} :
    (∃ value, e.toEnvValue line = .ok value) ↔ e.IsTextOrEnv := by
  unfold toEnvValue IsTextOrEnv
  simp only [← text?_eq_some_iff, ← env?_eq_some_iff]
  split <;> simp_all

namespace ConfigBlock
variable {b : ConfigBlock}

theorem exists_envValue?_iff {key : String} :
    (∃ value, b.envValue? key = .ok value) ↔ b.HasEnvValue key := by
  unfold envValue? HasEnvValue
  cases b.property? key with
  | none => exact ⟨fun _ => nofun, fun _ => ⟨none, rfl⟩⟩
  | some p =>
    have henv : (∃ value, p.value.toEnvValue p.line = .ok value) ↔ _ := Expr.exists_toEnvValue_iff
    simp only [Option.mem_some_iff, forall_eq', ← henv]
    show (∃ value, (p.value.toEnvValue p.line >>= fun v => pure (some v)) = .ok value) ↔ _
    rw [exists_bind_iff]
    exact exists_congr fun value => and_iff_left ⟨_, rfl⟩

theorem provider_eq_ok_iff {kind : String} {e : Expr} :
    b.provider kind = .ok e ↔ ∃ p, b.property? "provider" = some p ∧ p.value = e := by
  unfold provider
  split
  · next p hp => simp [hp]
  · next hnone => simp [hnone]

theorem exists_resolveDatasource_iff : (∃ d, b.resolveDatasource = .ok d) ↔ b.IsDatasource := by
  rw [resolveDatasource, exists_bind_iff]
  constructor
  · rintro ⟨e, he, h⟩
    obtain ⟨p, hp, rfl⟩ := provider_eq_ok_iff.mp he
    split at h
    · next value hvalue =>
      obtain ⟨url, hurl, -⟩ := exists_bind_iff.mp h
      exact ⟨⟨p, value, hp, Expr.text?_eq_some_iff.mp hvalue⟩, exists_envValue?_iff.mp ⟨url, hurl⟩⟩
    · obtain ⟨d, ⟨⟩⟩ := h
  · rintro ⟨⟨p, value, hp, hvalue⟩, hurl⟩
    refine ⟨p.value, provider_eq_ok_iff.mpr ⟨p, hp, rfl⟩, ?_⟩
    rw [hvalue]
    obtain ⟨url, hurl⟩ := exists_envValue?_iff.mpr hurl
    exact exists_bind_iff.mpr ⟨url, hurl, _, rfl⟩

theorem exists_resolveGenerator_iff : (∃ g, b.resolveGenerator = .ok g) ↔ b.IsGenerator := by
  rw [resolveGenerator, exists_bind_iff]
  constructor
  · rintro ⟨e, he, h⟩
    obtain ⟨p, hp, rfl⟩ := provider_eq_ok_iff.mp he
    obtain ⟨provider, hprovider, h⟩ := exists_bind_iff.mp h
    obtain ⟨output, houtput, -⟩ := exists_bind_iff.mp h
    exact ⟨⟨p, hp, Expr.exists_toEnvValue_iff.mp ⟨provider, hprovider⟩⟩,
      exists_envValue?_iff.mp ⟨output, houtput⟩⟩
  · rintro ⟨⟨p, hp, hprovider⟩, houtput⟩
    refine ⟨p.value, provider_eq_ok_iff.mpr ⟨p, hp, rfl⟩, exists_bind_iff.mpr ?_⟩
    obtain ⟨provider, hprovider⟩ := Expr.exists_toEnvValue_iff.mpr hprovider
    obtain ⟨output, houtput⟩ := exists_envValue?_iff.mpr houtput
    exact ⟨provider, hprovider, exists_bind_iff.mpr ⟨output, houtput, _, rfl⟩⟩

end ConfigBlock

/-! ### Blocks -/

/-- What resolution asks of one of the blocks, no name being declared twice. -/
def Block.ResolvableAmong (blocks : List Block) : Block → Prop
  | model b => ∀ f ∈ b.fields, f.IsTyped (typeNames blocks) ∧ (f.Refers blocks → f.HasAction)
  | enum _ => True
  | datasource b => b.IsDatasource
  | generator b => b.IsGenerator

theorem Block.exists_resolve_iff {blocks : List Block} (h : (typeNames blocks).Nodup) (b : Block) :
    (∃ s, b.resolve (blocks.filterMap declaration?) = .ok s) ↔ b.ResolvableAmong blocks := by
  cases b with
  | model b =>
    rw [resolve, exists_bind_iff, ResolvableAmong, ← ModelBlock.exists_resolve_iff h]
    exact exists_congr fun m => and_iff_left ⟨_, rfl⟩
  | enum b => exact ⟨fun _ => trivial, fun _ => ⟨_, rfl⟩⟩
  | datasource b =>
    rw [resolve, exists_bind_iff, ResolvableAmong, ← ConfigBlock.exists_resolveDatasource_iff]
    exact exists_congr fun d => and_iff_left ⟨_, rfl⟩
  | generator b =>
    rw [resolve, exists_bind_iff, ResolvableAmong, ← ConfigBlock.exists_resolveGenerator_iff]
    exact exists_congr fun g => and_iff_left ⟨_, rfl⟩

theorem Block.resolvable_iff {blocks : List Block} :
    Resolvable blocks ↔ (typeNames blocks).Nodup ∧ ∀ b ∈ blocks, b.ResolvableAmong blocks := by
  constructor
  · rintro ⟨hnames, htypes, hactions, hdatasources, hgenerators⟩
    refine ⟨hnames, fun b hb => ?_⟩
    cases b with
    | model b => exact fun f hf => ⟨htypes b hb f hf, hactions b hb f hf⟩
    | enum b => trivial
    | datasource b => exact hdatasources b hb
    | generator b => exact hgenerators b hb
  · rintro ⟨hnames, hblocks⟩
    exact {
      names := hnames
      types := fun b hb f hf => (hblocks _ hb f hf).1
      actions := fun b hb f hf => (hblocks _ hb f hf).2
      datasources := fun b hb => hblocks _ hb
      generators := fun b hb => hblocks _ hb }

/-- **Resolution accepts exactly the well-formed blocks.** Where a name is declared twice, it
refuses the first block that repeats one, whatever else is wrong. -/
theorem resolve_iff_resolvable (blocks : List Block) :
    ((∃ s, resolve blocks = .ok s) ↔ Block.Resolvable blocks) ∧
    (¬(Block.typeNames blocks).Nodup → ∃ before b after d, blocks = before ++ b :: after ∧
      b.declaration? = some d ∧ (Block.typeNames before).Nodup ∧
      d.name ∈ Block.typeNames before ∧
      resolve blocks = .error (.duplicate d.line d.label d.name)) := by
  refine ⟨?_, resolve_of_repeated⟩
  rw [exists_resolve_iff, Block.resolvable_iff]
  exact and_congr_right fun hnames => forall₂_congr fun b _ => Block.exists_resolve_iff hnames b

/-- The first list is resolved. In the second an enum repeats the name of a model with a field of
no type, and a data source gives no provider. -/
theorem resolve_iff_resolvable_posts :
    let action : Attribute := ⟨"relation", [⟨some "onDelete", .name "Cascade"⟩], 2⟩
    let author : FieldDecl := ⟨"author", .named "User", .required, [action], none, 2⟩
    let posts : List Block :=
      [.model ⟨"Post", false, [author], [], none, 1⟩, .model ⟨"User", false, [], [], none, 4⟩]
    let repeated : List Block := [.model ⟨"Post", false, [author], [], none, 1⟩,
      .datasource ⟨"db", [], 4⟩, .enum ⟨"Post", [], [], none, 6⟩]
    Block.Resolvable posts ∧ ¬(Block.typeNames repeated).Nodup ∧
      ∃ before b after d, repeated = before ++ b :: after ∧ b.declaration? = some d ∧ d.line = 6 ∧
        resolve repeated = .error (.duplicate 6 "enum" "Post") := by
  intro action author posts repeated
  have hrepeated : ¬(Block.typeNames repeated).Nodup := by decide
  have herror : resolve repeated = .error (.duplicate 6 "enum" "Post") := by rfl
  refine ⟨(resolve_iff_resolvable posts).1.mp ⟨_, by rfl⟩, hrepeated, ?_⟩
  obtain ⟨before, b, after, d, hsplit, hb, -, -, hd⟩ :=
    (resolve_iff_resolvable repeated).2 hrepeated
  obtain ⟨hline, -, -⟩ := SourceError.duplicate.inj (Except.error.inj (hd.symm.trans herror))
  exact ⟨before, b, after, d, hsplit, hb, hline, herror⟩

end Datamodel
