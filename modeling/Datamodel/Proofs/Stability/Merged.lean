import Datamodel.Proofs.Loading.Fragments
import Datamodel.Proofs.Merge.Regrouping

/-! What the merge of loaded fragments is like.

It is well-formed, as its fragments are (`Schema.wellFormed_merge`). A schema whose names are
distinct and whose data sources are usable is the merge of itself (`merge_singleton`). -/

namespace Datamodel

/-! ### Well-formed models -/

section
variable {names : List (String × FieldKind)}

/-- A later declaration keeps its kind and its type. -/
theorem Field.WellFormed.inherit {existing incoming : Field} (h : existing.WellFormed names)
    (h' : incoming.WellFormed names) : (existing.inherit incoming).WellFormed names where
  name := h'.name
  documentation := h'.documentation
  list := h'.list
  object := h'.object
  type := h'.type
  columnName := by
    intro n hn
    rcases Option.or_eq_some_iff.mp hn with hn | ⟨-, hn⟩
    · exact h'.columnName n hn
    · exact h.columnName n hn
  relationMap := h'.relationMap

theorem Model.WellFormed.merge {existing incoming : Model} (h : existing.WellFormed names)
    (h' : incoming.WellFormed names) : (existing.merge incoming).WellFormed names := by
  rw [Model.merge, foldl_mergeUniqueIndex]
  refine ⟨h.name, h.documentation, ?_, ?_⟩
  · exact forall_mem_foldl_upsert (fun _ _ => Field.WellFormed.inherit) h.fields h'.fields
  · exact List.forall_mem_append.mpr ⟨h.secondaryIndexes, h'.secondaryIndexes⟩

end

/-! ### The parts of a merge -/

section
variable {fragments : List Fragment} {policy : Policy}

/-- The data sources are those of a fragment that has a usable one, if there are any. -/
theorem selectDatasources_cases (fragments : List Fragment) (policy : Policy) :
    selectDatasources fragments policy = [] ∨
      ∃ f ∈ fragments, f.hasUsableDatasource = true ∧
        selectDatasources fragments policy = f.schema.datasources := by
  rw [selectDatasources]
  cases h : datasourceFragment? fragments policy with
  | none => exact .inl rfl
  | some f =>
    obtain ⟨hf, husable⟩ := List.mem_filter.mp (Policy.mem_of_choose h)
    exact .inr ⟨f, hf, husable, rfl⟩

theorem selectGenerators_cases (fragments : List Fragment) :
    selectGenerators fragments = [] ∨
      ∃ f ∈ fragments, selectGenerators fragments = f.schema.generators := by
  rw [selectGenerators]
  cases h : generatorFragment? fragments with
  | none => exact .inl rfl
  | some f => exact .inr ⟨f, List.mem_of_mem_filter (List.mem_of_getLast? h), rfl⟩

theorem map_name_mergeModels (fragments : List Fragment) :
    (mergeModels fragments).map (·.name) = ((declaredModels fragments).map (·.name)).eraseDups := by
  rw [mergeModels_eq]
  exact map_key_combineByKey Model.name_merge _

theorem map_name_selectEnums (fragments : List Fragment) :
    (selectEnums fragments).map (·.name) = ((declaredEnums fragments).map (·.name)).eraseDups := by
  rw [selectEnums_eq]
  exact map_key_combineByKey (fun _ _ _ => rfl) _

/-- Every name that a fragment declares is declared in the merge. -/
theorem names_subset_merge {f : Fragment} (hf : f ∈ fragments) :
    f.schema.names ⊆ (merge fragments policy).names := by
  intro p hp
  have hmodels (ms : List Model) : ms.map (fun m => (m.name, FieldKind.object)) =
      (ms.map (·.name)).map fun n => (n, FieldKind.object) := by
    rw [List.map_map]
    rfl
  have henums (es : List Enum) : es.map (fun e => (e.name, FieldKind.enum)) =
      (es.map (·.name)).map fun n => (n, FieldKind.enum) := by
    rw [List.map_map]
    rfl
  rw [Schema.names, List.mem_append] at hp ⊢
  rcases hp with hp | hp
  · obtain ⟨m, hm, rfl⟩ := List.mem_map.mp hp
    have hdeclared : m ∈ declaredModels fragments := List.mem_flatMap.mpr ⟨f, hf, hm⟩
    left
    show _ ∈ (mergeModels fragments).map _
    rw [hmodels, map_name_mergeModels]
    exact List.mem_map_of_mem (List.mem_eraseDups.mpr (List.mem_map_of_mem hdeclared))
  · obtain ⟨e, he, rfl⟩ := List.mem_map.mp hp
    have hdeclared : e ∈ declaredEnums fragments := List.mem_flatMap.mpr ⟨f, hf, he⟩
    right
    show _ ∈ (selectEnums fragments).map _
    rw [henums, map_name_selectEnums]
    exact List.mem_map_of_mem (List.mem_eraseDups.mpr (List.mem_map_of_mem hdeclared))

/-- **The merge of well-formed fragments is well-formed.** -/
theorem Schema.wellFormed_merge (h : ∀ f ∈ fragments, f.schema.WellFormed f.schema.names)
    (policy : Policy) : (merge fragments policy).WellFormed (merge fragments policy).names where
  models := by
    refine forall_mem_foldl_upsert (fun _ _ => Model.WellFormed.merge) (List.forall_mem_nil _)
      fun m hm => ?_
    obtain ⟨f, hf, hm⟩ := List.mem_flatMap.mp hm
    exact ((h f hf).models m hm).mono (names_subset_merge hf)
  enums := by
    refine forall_mem_foldl_upsert (fun _ _ he _ => he) (List.forall_mem_nil _) fun e he => ?_
    obtain ⟨f, hf, he⟩ := List.mem_flatMap.mp he
    exact (h f hf).enums e he
  datasources := by
    rcases selectDatasources_cases fragments policy with hnone | ⟨f, hf, -, hsome⟩
    · rw [merge, hnone]
      exact List.forall_mem_nil _
    · rw [merge, hsome]
      exact (h f hf).datasources
  generators := by
    rcases selectGenerators_cases fragments with hnone | ⟨f, hf, hsome⟩
    · rw [merge, hnone]
      exact List.forall_mem_nil _
    · rw [merge, hsome]
      exact (h f hf).generators

end

/-! ### One fragment -/

/-- A schema whose data sources, if there are any, are usable. -/
def Schema.IsUsable (s : Schema) : Prop :=
  s.datasources = [] ∨ s.datasources.any DataSource.isUsable = true

theorem Schema.isUsable_merge (fragments : List Fragment) (policy : Policy) :
    (merge fragments policy).IsUsable := by
  rcases selectDatasources_cases fragments policy with hnone | ⟨f, -, husable, hsome⟩
  · exact .inl hnone
  · right
    rw [merge, hsome]
    exact husable

theorem Policy.choose_singleton {α : Type} (policy : Policy) (x : α) :
    policy.choose [x] = some x := by
  cases policy <;> rfl

section
variable {f : Fragment}

theorem models_merge_singleton (h : (f.schema.models.map (·.name)).Nodup) (policy : Policy) :
    (merge [f] policy).models = f.schema.models := by
  show mergeModels [f] = _
  rw [mergeModels_eq, declaredModels, List.flatMap_singleton]
  exact combineByKey_of_nodup h

theorem enums_merge_singleton (h : (f.schema.enums.map (·.name)).Nodup) (policy : Policy) :
    (merge [f] policy).enums = f.schema.enums := by
  show selectEnums [f] = _
  rw [selectEnums_eq, declaredEnums, List.flatMap_singleton]
  exact combineByKey_of_nodup h

end

/-- **A schema is the merge of itself**, if its models and its enums have names of their own. -/
theorem merge_singleton {s : Schema} (hmodels : (s.models.map (·.name)).Nodup)
    (henums : (s.enums.map (·.name)).Nodup) (husable : s.IsUsable) (origin : String)
    (policy : Policy) : merge [⟨origin, s⟩] policy = s := by
  have hm : mergeModels [⟨origin, s⟩] = s.models := models_merge_singleton hmodels policy
  have he : selectEnums [⟨origin, s⟩] = s.enums := enums_merge_singleton henums policy
  have hd : selectDatasources [⟨origin, s⟩] policy = s.datasources := by
    rcases selectDatasources_cases [⟨origin, s⟩] policy with hnone | ⟨f, hf, -, hsome⟩
    · rcases husable with hd | hd
      · rw [hnone, hd]
      · have hfilter : [(⟨origin, s⟩ : Fragment)].filter Fragment.hasUsableDatasource =
            [⟨origin, s⟩] := List.filter_eq_self.mpr (List.forall_mem_singleton.mpr hd)
        rw [selectDatasources, datasourceFragment?, hfilter, Policy.choose_singleton]
        rfl
    · rw [hsome, List.mem_singleton.mp hf]
  have hg : selectGenerators [⟨origin, s⟩] = s.generators := by
    cases h : s.generators with
    | nil => simp [selectGenerators, generatorFragment?, Fragment.hasGenerators, h]
    | cons g gs => simp [selectGenerators, generatorFragment?, Fragment.hasGenerators, h]
  rw [merge, hm, he, hd, hg]

end Datamodel
