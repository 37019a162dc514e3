import Datamodel.Proofs.Merge

/-! Merging in groups.

Merging models is associative (`Model.merge_assoc`): a field inherits through any number of
declarations what the declarations before it say, and a unique index is new or not whatever was
compared with it first. So is taking the first declaration of an enum, and so is the choice of the
fragment that provides the data sources or the generators (`Policy.select_regroup`). A merge may
therefore be put back as one fragment among others (`merge_regroup`). -/

namespace Datamodel

/-! ### Fields -/

theorem Field.inherit_assoc (f g h : Field) :
    (f.inherit g).inherit h = f.inherit (g.inherit h) := by
  simp only [Field.inherit, Option.or_assoc]

/-- Fields that are combined already may be merged in place of all of them. -/
theorem foldl_mergeField_of_combined (fields more : List Field) :
    (Field.combined more).foldl mergeField fields = more.foldl mergeField fields :=
  foldl_upsert_combineByKey (P := fun _ => True) Field.name_inherit (fun _ _ _ _ => trivial)
    (fun f g h _ => Field.inherit_assoc f g h) fields fun _ _ => trivial

/-! ### Unique indexes -/

/-- An index that was left out before is left out again. -/
theorem newIndexes_newIndexes {before present : List Index} (h : before ⊆ present)
    (more : List Index) : newIndexes present (newIndexes before more) = newIndexes present more := by
  have hfilter : (more.filter (· ∉ before)).filter (· ∉ present) = more.filter (· ∉ present) := by
    rw [List.filter_filter]
    refine List.filter_congr fun i _ => ?_
    by_cases hi : i ∈ before
    · simp [h hi]
    · simp [hi]
  rw [newIndexes, newIndexes, filter_eraseDups, hfilter, eraseDups_of_nodup (nodup_eraseDups _),
    newIndexes]

/-- All indexes of two declarations are there after the first and what is new in the second. -/
theorem subset_append_newIndexes (present more : List Index) :
    more ⊆ present ++ newIndexes present more := by
  intro i hi
  by_cases h : i ∈ present
  · exact List.mem_append_left _ h
  · exact List.mem_append_right _ (by simp [newIndexes, hi, h])

theorem newIndexes_append_newIndexes (present before more : List Index) :
    newIndexes present (before ++ newIndexes before more) = newIndexes present (before ++ more) := by
  rw [newIndexes_append, newIndexes_append,
    newIndexes_newIndexes (subset_append_newIndexes present before)]

/-! ### Models -/

namespace Model

/-- The name in the database that a merge gives. -/
def mergedDbName (first later : Option String) : Option String :=
  ((nonEmpty first).or (nonEmpty later)).or first

theorem nonEmpty_mergedDbName (first later : Option String) :
    nonEmpty (mergedDbName first later) = (nonEmpty first).or (nonEmpty later) := by
  have hidem (name : Option String) : nonEmpty (nonEmpty name) = nonEmpty name := by
    cases name <;> simp [nonEmpty, Option.filter_filter]
  rw [mergedDbName]
  cases hfirst : nonEmpty first with
  | some d => rw [Option.some_or, Option.some_or, ← hfirst, hidem]
  | none =>
    cases hlater : nonEmpty later with
    | some d => rw [Option.none_or, Option.some_or, ← hlater, hidem]
    | none => rw [Option.none_or, Option.none_or, hfirst]

theorem mergedDbName_assoc (a b c : Option String) :
    mergedDbName (mergedDbName a b) c = mergedDbName a (mergedDbName b c) := by
  have hleft := nonEmpty_mergedDbName a b
  have hright := nonEmpty_mergedDbName b c
  rw [mergedDbName, hleft, mergedDbName, mergedDbName, hright]
  cases nonEmpty a with
  | some d => rfl
  | none => cases nonEmpty b <;> rfl

/-- A later declaration repeats no field, and takes no repetition back. -/
theorem nodup_fieldNames_merge {m n : Model} :
    (m.merge n).fieldNames.Nodup ↔ m.fieldNames.Nodup := by
  rw [merge, foldl_mergeUniqueIndex]
  exact nodup_map_key_foldl_upsert Field.name_inherit

/-- **Merging models is associative**, if the model in the middle declares no field twice. -/
theorem merge_assoc (a : Model) {b : Model} (h : b.fieldNames.Nodup) (c : Model) :
    (a.merge b).merge c = a.merge (b.merge c) := by
  have hfields : c.fields.foldl mergeField (b.fields.foldl mergeField a.fields) =
      (c.fields.foldl mergeField b.fields).foldl mergeField a.fields := by
    have hb : b.fields = Field.combined b.fields := (combineByKey_of_nodup h).symm
    have hbc : c.fields.foldl mergeField b.fields = Field.combined (b.fields ++ c.fields) := by
      rw [← foldl_mergeField_combined, ← hb]
    rw [hbc, foldl_mergeField_of_combined, List.foldl_append]
  have hindexes := newIndexes_append_newIndexes a.uniqueIndexes b.uniqueIndexes c.uniqueIndexes
  have hdbName := mergedDbName_assoc a.dbName b.dbName c.dbName
  simp only [mergedDbName] at hdbName
  simp only [merge, foldl_mergeUniqueIndex, hfields, hdbName, hindexes]
  simp only [newIndexes_append, List.append_assoc, List.map_append]

end Model

/-! ### Selections -/

namespace Policy
variable {α β : Type} (policy : Policy)

theorem mem_of_choose {policy : Policy} {xs : List α} {x : α} (h : policy.choose xs = some x) :
    x ∈ xs := by
  cases policy with
  | first => exact List.mem_of_mem_head? h
  | last => exact List.mem_of_getLast? h

theorem choose_map (f : α → β) (xs : List α) :
    policy.choose (xs.map f) = (policy.choose xs).map f := by
  cases policy with
  | first => exact List.head?_map
  | last => exact List.getLast?_map

/-- The choice among values may be made among some of them first. -/
theorem choose_append_choose (xs ys zs : List α) :
    policy.choose (xs ++ (policy.choose ys).toList ++ zs) = policy.choose (xs ++ ys ++ zs) := by
  cases policy with
  | first => cases ys <;> simp [choose]
  | last =>
    rcases List.eq_nil_or_concat' ys with rfl | ⟨ys, y, rfl⟩
    · rfl
    · simp [choose, List.getLast?_append, List.getLast?_cons]

/-- The first or the last of the lists that count as chosen. A list without values does not
count. -/
def select (counts : List α → Bool) (xss : List (List α)) : List α :=
  (policy.choose (xss.filter counts)).getD []

theorem select_regroup {counts : List α → Bool} (hnil : counts [] = false)
    (xss yss zss : List (List α)) :
    policy.select counts (xss ++ policy.select counts yss :: zss) =
      policy.select counts (xss ++ yss ++ zss) := by
  have hchosen : [policy.select counts yss].filter counts =
      (policy.choose (yss.filter counts)).toList := by
    rw [select]
    cases h : policy.choose (yss.filter counts) with
    | none => simp [hnil]
    | some ys =>
      have hys : ys ∈ yss.filter counts := mem_of_choose h
      simp [(List.mem_filter.mp hys).2]
  have hlists : xss ++ policy.select counts yss :: zss =
      xss ++ [policy.select counts yss] ++ zss := by simp
  rw [select, hlists, List.filter_append, List.filter_append, hchosen, choose_append_choose,
    select, List.filter_append, List.filter_append]

end Policy

theorem selectDatasources_eq (fragments : List Fragment) (policy : Policy) :
    selectDatasources fragments policy =
      policy.select (·.any DataSource.isUsable) (fragments.map (·.schema.datasources)) := by
  rw [Policy.select, List.filter_map, Policy.choose_map]
  rfl

theorem selectGenerators_eq (fragments : List Fragment) :
    selectGenerators fragments =
      Policy.last.select (!·.isEmpty) (fragments.map (·.schema.generators)) := by
  rw [Policy.select, List.filter_map, Policy.choose_map]
  rfl

/-! ### The whole merge -/

theorem mergeModels_append (fs gs : List Fragment) :
    mergeModels (fs ++ gs) = (declaredModels gs).foldl mergeModel (mergeModels fs) := by
  rw [mergeModels, declaredModels, List.flatMap_append, List.foldl_append]
  rfl

theorem selectEnums_append (fs gs : List Fragment) :
    selectEnums (fs ++ gs) = (declaredEnums gs).foldl addEnum (selectEnums fs) := by
  rw [selectEnums, declaredEnums, List.flatMap_append, List.foldl_append]
  rfl

/-- Models that are merged already may be merged in place of all their declarations. -/
theorem foldl_mergeModel_mergeModels {fragments : List Fragment}
    (h : ∀ m ∈ declaredModels fragments, m.fieldNames.Nodup) (models : List Model) :
    (mergeModels fragments).foldl mergeModel models =
      (declaredModels fragments).foldl mergeModel models := by
  rw [mergeModels_eq]
  exact foldl_upsert_combineByKey Model.name_merge
    (fun _ _ hm _ => Model.nodup_fieldNames_merge.mpr hm)
    (fun a b c hb => Model.merge_assoc a hb c) models h

theorem foldl_addEnum_selectEnums (fragments : List Fragment) (enums : List Enum) :
    (selectEnums fragments).foldl addEnum enums = (declaredEnums fragments).foldl addEnum enums := by
  rw [selectEnums_eq]
  exact foldl_upsert_combineByKey (P := fun _ => True) (fun _ _ _ => rfl) (fun _ _ _ _ => trivial)
    (fun _ _ _ _ => rfl) enums fun _ _ => trivial

/-- **Merging in groups.** Fragments that are merged first, and put back as one fragment, count as
they do one by one. -/
theorem merge_regroup (fs gs hs : List Fragment) (policy : Policy) (origin : String)
    (h : ∀ m ∈ declaredModels gs, m.fieldNames.Nodup) :
    merge (fs ++ ⟨origin, merge gs policy⟩ :: hs) policy = merge (fs ++ gs ++ hs) policy := by
  have hmodels : mergeModels (fs ++ ⟨origin, merge gs policy⟩ :: hs) =
      mergeModels (fs ++ gs ++ hs) := by
    calc mergeModels (fs ++ ⟨origin, merge gs policy⟩ :: hs)
      _ = (mergeModels gs ++ declaredModels hs).foldl mergeModel (mergeModels fs) :=
        mergeModels_append fs _
      _ = (declaredModels hs).foldl mergeModel
            ((declaredModels gs).foldl mergeModel (mergeModels fs)) := by
        rw [List.foldl_append, foldl_mergeModel_mergeModels h]
      _ = mergeModels (fs ++ gs ++ hs) := by rw [mergeModels_append, mergeModels_append]
  have henums : selectEnums (fs ++ ⟨origin, merge gs policy⟩ :: hs) =
      selectEnums (fs ++ gs ++ hs) := by
    calc selectEnums (fs ++ ⟨origin, merge gs policy⟩ :: hs)
      _ = (selectEnums gs ++ declaredEnums hs).foldl addEnum (selectEnums fs) :=
        selectEnums_append fs _
      _ = (declaredEnums hs).foldl addEnum ((declaredEnums gs).foldl addEnum (selectEnums fs)) := by
        rw [List.foldl_append, foldl_addEnum_selectEnums]
      _ = selectEnums (fs ++ gs ++ hs) := by rw [selectEnums_append, selectEnums_append]
  have hdatasources : selectDatasources (fs ++ ⟨origin, merge gs policy⟩ :: hs) policy =
      selectDatasources (fs ++ gs ++ hs) policy := by
    have hgroup : (merge gs policy).datasources = policy.select _ _ := selectDatasources_eq gs policy
    simp only [selectDatasources_eq, List.map_append, List.map_cons, hgroup]
    exact policy.select_regroup rfl _ _ _
  have hgenerators : selectGenerators (fs ++ ⟨origin, merge gs policy⟩ :: hs) =
      selectGenerators (fs ++ gs ++ hs) := by
    have hgroup : (merge gs policy).generators = Policy.last.select _ _ := selectGenerators_eq gs
    simp only [selectGenerators_eq, List.map_append, List.map_cons, hgroup]
    exact Policy.last.select_regroup rfl _ _ _
  rw [merge, hmodels, henums, hdatasources, hgenerators, ← merge]

/-- Two declarations of one model are merged first, and the name of a column is inherited into
them. -/
theorem merge_regroup_users :
    let mapped : Model :=
      { name := "User", fields := [(Field.scalar "id" "Int").withColumnName "user_id"] }
    let unique : Model :=
      ({ name := "User", fields := [Field.scalar "id" "Int"] } : Model).addUniqueIndex
        { fields := ["id"] }
    let renamed : Model :=
      ({ name := "User", fields := [Field.scalar "id" "BigInt"], dbName := some "users" } :
        Model).addUniqueIndex { fields := ["id"] }
    let fs : List Fragment := [⟨"a", { models := [mapped] }⟩]
    let gs : List Fragment :=
      [⟨"b", { models := [unique] }⟩, ⟨"c", { models := [{ name := "Post" }, renamed] }⟩]
    (∀ m ∈ declaredModels gs, m.fieldNames.Nodup) ∧
    merge (fs ++ [⟨"b and c", merge gs⟩]) = merge (fs ++ gs) ∧
    (merge (fs ++ [⟨"b and c", merge gs⟩])).models =
      [{ mapped with
          fields := [(Field.scalar "id" "BigInt").withColumnName "user_id"]
          dbName := some "users"
          uniqueIndexes := [{ fields := ["id"] }]
          uniqueFields := [["id"]] },
        { name := "Post" }] := by
  intro mapped unique renamed fs gs
  have h : ∀ m ∈ declaredModels gs, m.fieldNames.Nodup := by decide
  have hmerge := merge_regroup fs gs [] .last "b and c" h
  rw [List.append_nil] at hmerge
  refine ⟨h, hmerge, ?_⟩
  rw [hmerge]
  decide

end Datamodel
