import Datamodel.Fragment
import Datamodel.Proofs.Spacing.Blocks

/-! What a text declares does not depend on the lines that its blocks and their items stand on.

The lines are named by errors alone: blocks without their lines make the same schema, or none if
the blocks themselves make none (`toOption_resolve_unlined`). -/

namespace Datamodel

section
variable {ε α β : Type}

theorem toOption_bind (x : Except ε α) (f : α → Except ε β) :
    (x >>= f).toOption = x.toOption.bind fun a => (f a).toOption := by
  cases x <;> rfl

theorem toOption_map (f : α → β) (x : Except ε α) : (x.map f).toOption = x.toOption.map f := by
  cases x <;> rfl

theorem toOption_mapM (f : α → Except ε β) (xs : List α) :
    (xs.mapM f).toOption = xs.mapM fun x => (f x).toOption := by
  induction xs with
  | nil => rfl
  | cons x xs ih =>
    rw [List.mapM_cons, List.mapM_cons, toOption_bind]
    refine Option.bind_congr fun y _ => ?_
    rw [toOption_bind, ih]
    rfl

/-- What is made of a list after a change that does not matter for its items. -/
theorem toOption_mapM_map {f g : α → Except ε β} {change : α → α}
    (h : ∀ x, (f (change x)).toOption = (g x).toOption) (xs : List α) :
    ((xs.map change).mapM f).toOption = (xs.mapM g).toOption := by
  rw [toOption_mapM, toOption_mapM, List.mapM_map]
  exact congrArg (List.mapM · xs) (funext h)

end

/-! ### Attributes -/

theorem Attribute.find?_unlined (as : List Attribute) (name : String) :
    (as.map unlined).find? (·.name == name) = (as.find? (·.name == name)).map unlined :=
  List.find?_map

theorem Attribute.mapName?_unlined (as : List Attribute) :
    mapName? (as.map unlined) = mapName? as := by
  rw [mapName?, find?_unlined, Option.bind_map]
  rfl

theorem Attribute.labelled?_unlined (a : Attribute) (label : String) :
    a.unlined.labelled? label = a.labelled? label := rfl

theorem Attribute.toOption_onDelete_unlined (a : Attribute) :
    a.unlined.onDelete.toOption = a.onDelete.toOption := by
  rw [onDelete, onDelete, labelled?_unlined]
  cases a.labelled? "onDelete" with
  | none => rfl
  | some value =>
    simp only
    cases ReferentialAction.ofText? value.toText <;> rfl

theorem Relation.toOption_resolve_unlined (model target : String) (attr : Option Attribute) :
    (Relation.resolve model target (attr.map Attribute.unlined)).toOption =
      (Relation.resolve model target attr).toOption := by
  cases attr with
  | none => rfl
  | some a =>
    rw [Option.map_some, Relation.resolve, Relation.resolve, toOption_bind, toOption_bind,
      a.toOption_onDelete_unlined]
    rfl

theorem Field.foldl_applyAttribute_unlined (f : Field) (as : List Attribute) :
    (as.map Attribute.unlined).foldl Field.applyAttribute f = as.foldl Field.applyAttribute f :=
  List.foldl_map

theorem Model.foldl_applyAttribute_unlined (m : Model) (as : List Attribute) :
    (as.map Attribute.unlined).foldl Model.applyAttribute m = as.foldl Model.applyAttribute m :=
  List.foldl_map

/-! ### Models -/

def Declaration.unlined (d : Declaration) : Declaration := { d with line := 0 }

theorem FieldKind.ofName?_unlined (declared : List Declaration) (name : String) :
    FieldKind.ofName? (declared.map Declaration.unlined) name =
      FieldKind.ofName? declared name := by
  rw [FieldKind.ofName?, List.find?_map, Option.map_map]
  rfl

section
variable (declared : List Declaration)

theorem FieldDecl.toOption_kind_unlined (model : String) (f : FieldDecl) :
    (f.unlined.kind (declared.map Declaration.unlined) model).toOption =
      (f.kind declared model).toOption := by
  rw [FieldDecl.kind, FieldDecl.kind, show f.unlined.type = f.type from rfl]
  cases f.type with
  | unsupported dbType => rfl
  | named name =>
    simp only [FieldKind.ofName?_unlined]
    cases FieldKind.ofName? declared name <;> rfl

theorem FieldDecl.toOption_resolve_unlined (model : String) (f : FieldDecl) :
    (f.unlined.resolve (declared.map Declaration.unlined) model).toOption =
      (f.resolve declared model).toOption := by
  rw [FieldDecl.resolve, FieldDecl.resolve, toOption_bind, toOption_bind, toOption_kind_unlined]
  refine Option.bind_congr fun kind _ => ?_
  have hattribute : f.unlined.attribute? "relation" =
      (f.attribute? "relation").map Attribute.unlined := Attribute.find?_unlined _ _
  rw [hattribute]
  simp only [unlined, Field.foldl_applyAttribute_unlined]
  split
  · rw [toOption_bind, toOption_bind, Relation.toOption_resolve_unlined]
    rfl
  · rfl

theorem ModelBlock.toOption_resolve_unlined (b : ModelBlock) :
    (b.unlined.resolve (declared.map Declaration.unlined)).toOption =
      (b.resolve declared).toOption := by
  rw [ModelBlock.resolve, ModelBlock.resolve, toOption_bind, toOption_bind]
  have hfields := toOption_mapM_map (FieldDecl.toOption_resolve_unlined declared b.name) b.fields
  simp only [unlined, hfields, Model.foldl_applyAttribute_unlined]

end

/-! ### Enums, data sources, generators -/

theorem EnumValueDecl.resolve_unlined (v : EnumValueDecl) : v.unlined.resolve = v.resolve := by
  simp only [EnumValueDecl.resolve, unlined, Attribute.mapName?_unlined]

theorem EnumBlock.resolve_unlined (b : EnumBlock) : b.unlined.resolve = b.resolve := by
  have hvalues : EnumValueDecl.resolve ∘ EnumValueDecl.unlined = EnumValueDecl.resolve :=
    funext EnumValueDecl.resolve_unlined
  simp only [EnumBlock.resolve, unlined, Attribute.mapName?_unlined, List.map_map, hvalues]

namespace ConfigBlock
variable (b : ConfigBlock)

theorem property?_unlined (key : String) :
    b.unlined.property? key = (b.property? key).map Property.unlined := List.find?_map

theorem toOption_provider_unlined (kind : String) :
    (b.unlined.provider kind).toOption = (b.provider kind).toOption := by
  rw [provider, provider, property?_unlined]
  cases b.property? "provider" <;> rfl

theorem toOption_toEnvValue (e : Expr) (line line' : Nat) :
    (e.toEnvValue line).toOption = (e.toEnvValue line').toOption := by
  rw [Expr.toEnvValue, Expr.toEnvValue]
  cases e.env? with
  | some var => rfl
  | none => cases e.text? <;> rfl

theorem toOption_envValue?_unlined (key : String) :
    (b.unlined.envValue? key).toOption = (b.envValue? key).toOption := by
  rw [envValue?, envValue?, property?_unlined]
  cases b.property? key with
  | none => rfl
  | some p =>
    show Except.toOption (Except.map _ (p.value.toEnvValue 0)) =
      Except.toOption (Except.map _ (p.value.toEnvValue p.line))
    rw [toOption_map, toOption_map, toOption_toEnvValue p.value 0 p.line]

theorem texts_unlined (key : String) : b.unlined.texts key = b.texts key := by
  rw [texts, texts, property?_unlined, Option.map_map]
  rfl

theorem otherEntries_unlined (known : List String) :
    b.unlined.otherEntries known = b.otherEntries known := by
  rw [otherEntries, otherEntries, unlined, List.filter_map, List.map_map]
  rfl

theorem toOption_resolveDatasource_unlined :
    b.unlined.resolveDatasource.toOption = b.resolveDatasource.toOption := by
  rw [resolveDatasource, resolveDatasource, toOption_bind, toOption_bind,
    toOption_provider_unlined]
  refine Option.bind_congr fun provider _ => ?_
  cases provider.text? with
  | none => rfl
  | some provider =>
    simp only
    rw [toOption_bind, toOption_bind, toOption_envValue?_unlined, otherEntries_unlined]
    rfl

theorem toOption_resolveGenerator_unlined :
    b.unlined.resolveGenerator.toOption = b.resolveGenerator.toOption := by
  rw [resolveGenerator, resolveGenerator, toOption_bind, toOption_bind, toOption_provider_unlined]
  refine Option.bind_congr fun provider _ => ?_
  rw [toOption_bind, toOption_bind, toOption_toEnvValue provider _ b.line]
  refine Option.bind_congr fun provider _ => ?_
  rw [toOption_bind, toOption_bind, toOption_envValue?_unlined]
  refine Option.bind_congr fun output _ => ?_
  simp only [texts_unlined, otherEntries_unlined]
  rfl

end ConfigBlock

/-! ### The whole text -/

theorem Block.toOption_resolve_unlined (declared : List Declaration) (b : Block) :
    (b.unlined.resolve (declared.map Declaration.unlined)).toOption =
      (b.resolve declared).toOption := by
  cases b with
  | model b =>
    simp only [unlined, resolve]
    rw [toOption_bind, toOption_bind, b.toOption_resolve_unlined declared]
  | enum b =>
    simp only [unlined, resolve, b.resolve_unlined]
  | datasource b =>
    simp only [unlined, resolve]
    rw [toOption_bind, toOption_bind, b.toOption_resolveDatasource_unlined]
  | generator b =>
    simp only [unlined, resolve]
    rw [toOption_bind, toOption_bind, b.toOption_resolveGenerator_unlined]

theorem Schema.toOption_ofBlocks_unlined (declared : List Declaration) (bs : List Block) :
    (Schema.ofBlocks (declared.map Declaration.unlined) (bs.map Block.unlined)).toOption =
      (Schema.ofBlocks declared bs).toOption := by
  induction bs with
  | nil => rfl
  | cons b bs ih =>
    rw [List.map_cons, Schema.ofBlocks, Schema.ofBlocks, toOption_bind, toOption_bind,
      b.toOption_resolve_unlined]
    refine Option.bind_congr fun one _ => ?_
    rw [toOption_bind, toOption_bind, ih]

theorem Block.declaration?_unlined (b : Block) :
    b.unlined.declaration? = b.declaration?.map Declaration.unlined := by
  cases b <;> rfl

theorem Declaration.firstRepeat_unlined (seen : List String) (ds : List Declaration) :
    firstRepeat seen (ds.map unlined) = (firstRepeat seen ds).map unlined := by
  induction ds generalizing seen with
  | nil => rfl
  | cons d ds ih =>
    rw [List.map_cons, firstRepeat, firstRepeat, show d.unlined.name = d.name from rfl]
    split
    · rfl
    · exact ih _

theorem Declaration.toOption_ofBlocks_unlined (bs : List Block) :
    (Declaration.ofBlocks (bs.map Block.unlined)).toOption =
      (Declaration.ofBlocks bs).toOption.map (List.map unlined) := by
  have hdeclared : (bs.map Block.unlined).filterMap Block.declaration? =
      (bs.filterMap Block.declaration?).map unlined := by
    rw [List.filterMap_map, List.map_filterMap]
    exact congrArg (List.filterMap · bs) (funext Block.declaration?_unlined)
  simp only [Declaration.ofBlocks, hdeclared, firstRepeat_unlined]
  cases firstRepeat [] (bs.filterMap Block.declaration?) <;> rfl

/-- **What blocks declare** does not depend on the lines that they stand on. -/
theorem toOption_resolve_unlined (bs : List Block) :
    (resolve (bs.map Block.unlined)).toOption = (resolve bs).toOption := by
  rw [resolve, resolve, toOption_bind, toOption_bind, Declaration.toOption_ofBlocks_unlined,
    Option.bind_map]
  exact Option.bind_congr fun declared _ => Schema.toOption_ofBlocks_unlined declared bs

end Datamodel
