import Datamodel.Proofs.Merge.Regrouping

/-! What a merged model keeps of its declarations.

A merged model keeps the names of the fields, the indexes and, if there is one, a name in the
database of every declaration (`Model.Keeps`), whichever of them comes first. The primary key has
no part in the merge of two declarations: a merged model has the key of its first declaration, and
a key that only a later one gives is lost (`primaryKey_merge`). -/

namespace Datamodel

namespace Model

/-- What a model has of another one of its name, the primary key apart. -/
structure Keeps (m d : Model) : Prop where
  fieldNames : d.fieldNames ⊆ m.fieldNames
  uniqueIndexes : d.uniqueIndexes ⊆ m.uniqueIndexes
  secondaryIndexes : d.secondaryIndexes ⊆ m.secondaryIndexes
  dbName : (nonEmpty d.dbName).isSome → (nonEmpty m.dbName).isSome

namespace Keeps

theorem refl (m : Model) : m.Keeps m := ⟨List.Subset.refl _, List.Subset.refl _,
  List.Subset.refl _, id⟩

theorem trans {m n d : Model} (h : m.Keeps n) (h' : n.Keeps d) : m.Keeps d where
  fieldNames := List.Subset.trans h'.fieldNames h.fieldNames
  uniqueIndexes := List.Subset.trans h'.uniqueIndexes h.uniqueIndexes
  secondaryIndexes := List.Subset.trans h'.secondaryIndexes h.secondaryIndexes
  dbName := fun hd => h.dbName (h'.dbName hd)

end Keeps

/-! ### Two declarations -/

theorem mem_map_name_foldl_mergeField {name : String} (fields more : List Field) :
    name ∈ (more.foldl mergeField fields).map (·.name) ↔
      name ∈ fields.map (·.name) ∨ name ∈ more.map (·.name) := by
  induction more generalizing fields with
  | nil => simp
  | cons f more ih =>
    have hstep : (mergeField fields f).map (·.name) = _ := map_key_upsert Field.name_inherit fields f
    rw [List.foldl_cons, ih, hstep, List.map_cons, List.mem_cons, ← or_assoc]
    refine or_congr_left ?_
    split
    · next hmem => exact ⟨.inl, fun h => h.elim id fun h => h ▸ hmem⟩
    · rw [List.mem_append, List.mem_singleton]

theorem merge_keeps (m n : Model) : (m.merge n).Keeps m ∧ (m.merge n).Keeps n := by
  have hnames (name : String) : name ∈ (m.merge n).fieldNames ↔
      name ∈ m.fieldNames ∨ name ∈ n.fieldNames := by
    rw [merge, foldl_mergeUniqueIndex]
    exact mem_map_name_foldl_mergeField m.fields n.fields
  have hdbName : nonEmpty (m.merge n).dbName = (nonEmpty m.dbName).or (nonEmpty n.dbName) := by
    rw [merge, foldl_mergeUniqueIndex]
    exact nonEmpty_mergedDbName m.dbName n.dbName
  have hunique : (m.merge n).uniqueIndexes =
      m.uniqueIndexes ++ newIndexes m.uniqueIndexes n.uniqueIndexes := by
    rw [merge, foldl_mergeUniqueIndex]
  have hsecondary : (m.merge n).secondaryIndexes = m.secondaryIndexes ++ n.secondaryIndexes := by
    rw [merge, foldl_mergeUniqueIndex]
  constructor
  · exact {
      fieldNames := fun name hmem => (hnames name).mpr (.inl hmem)
      uniqueIndexes := hunique ▸ List.subset_append_left _ _
      secondaryIndexes := hsecondary ▸ List.subset_append_left _ _
      dbName := fun h => by simp [hdbName, h] }
  · exact {
      fieldNames := fun name hmem => (hnames name).mpr (.inr hmem)
      uniqueIndexes := hunique ▸ subset_append_newIndexes _ _
      secondaryIndexes := hsecondary ▸ List.subset_append_right _ _
      dbName := fun h => by simp [hdbName, h] }

/-- **The primary key is not merged.** The earlier declaration decides, even if it has none. -/
theorem primaryKey_merge_eq (m n : Model) : (m.merge n).primaryKey = m.primaryKey := by
  rw [merge, foldl_mergeUniqueIndex]

/-! ### Many declarations -/

theorem foldl_merge_keeps (m : Model) (later : List Model) :
    ∀ d ∈ m :: later, (later.foldl merge m).Keeps d := by
  induction later generalizing m with
  | nil => exact List.forall_mem_singleton.mpr (.refl m)
  | cons n later ih =>
    obtain ⟨hfirst, hsecond⟩ := merge_keeps m n
    obtain ⟨hmerged, hlater⟩ := List.forall_mem_cons.mp (ih (m.merge n))
    exact List.forall_mem_cons.mpr ⟨hmerged.trans hfirst,
      List.forall_mem_cons.mpr ⟨hmerged.trans hsecond, hlater⟩⟩

theorem primaryKey_foldl_merge (m : Model) (later : List Model) :
    (later.foldl merge m).primaryKey = m.primaryKey := by
  induction later generalizing m with
  | nil => rfl
  | cons n later ih => rw [List.foldl_cons, ih, primaryKey_merge_eq]

end Model

/-! ### The whole merge -/

section
variable (fragments : List Fragment) (policy : Policy) (name : String)

/-- The model that the merge has of a name. -/
theorem find?_mergeModels : (mergeModels fragments).find? (·.name = name) =
    combineAll Model.merge ((declaredModels fragments).filter (·.name = name)) := by
  rw [mergeModels_eq, ← List.head?_filter, filter_eq_combineByKey Model.name_merge]
  cases combineAll Model.merge ((declaredModels fragments).filter (·.name = name)) <;> rfl

theorem mem_mergeModels_iff {m : Model} : m ∈ mergeModels fragments ↔
    (mergeModels fragments).find? (·.name = m.name) = some m := by
  refine ⟨fun hm => ?_, List.mem_of_find?_eq_some⟩
  rw [find?_mergeModels]
  rw [mergeModels_eq] at hm
  exact combineAll_of_mem Model.name_merge hm

/-- **Merged models.** The model of a name keeps everything of the declarations of that name but
their primary keys, and has the key of the first of them. So it has a key whenever some declaration
has one exactly if then the first declaration has one. -/
theorem primaryKey_merge :
    (∀ m ∈ (merge fragments policy).models, m.name = name →
      ∀ d ∈ declaredModels fragments, d.name = name → m.Keeps d) ∧
    ((merge fragments policy).models.find? (·.name = name)).map (·.primaryKey) =
      ((declaredModels fragments).find? (·.name = name)).map (·.primaryKey) ∧
    (((∃ d ∈ declaredModels fragments, d.name = name ∧ d.primaryKey.isSome) →
        ∃ m ∈ (merge fragments policy).models, m.name = name ∧ m.primaryKey.isSome) ↔
      ((∃ d ∈ declaredModels fragments, d.name = name ∧ d.primaryKey.isSome) →
        ∃ first, (declaredModels fragments).find? (·.name = name) = some first ∧
          first.primaryKey.isSome)) := by
  have hkeeps : ∀ m ∈ mergeModels fragments, m.name = name →
      ∀ d ∈ declaredModels fragments, d.name = name → m.Keeps d := by
    rintro m hm rfl d hd hname
    rw [mem_mergeModels_iff, find?_mergeModels] at hm
    have hdecl : d ∈ (declaredModels fragments).filter (·.name = m.name) := by simp [hd, hname]
    cases hdecls : (declaredModels fragments).filter (·.name = m.name) with
    | nil => simp [hdecls] at hdecl
    | cons first later =>
      rw [hdecls] at hm hdecl
      rw [← Option.some.inj hm]
      exact Model.foldl_merge_keeps first later d hdecl
  have hkey : ((mergeModels fragments).find? (·.name = name)).map (·.primaryKey) =
      ((declaredModels fragments).find? (·.name = name)).map (·.primaryKey) := by
    rw [find?_mergeModels, ← List.head?_filter]
    cases (declaredModels fragments).filter (·.name = name) with
    | nil => rfl
    | cons first later => exact congrArg some (Model.primaryKey_foldl_merge first later)
  refine ⟨hkeeps, hkey, imp_congr_right fun _ => ⟨?_, ?_⟩⟩
  · rintro ⟨m, hm, rfl, hsome⟩
    rw [(mem_mergeModels_iff fragments).mp hm] at hkey
    obtain ⟨first, hfirst, heq⟩ := Option.map_eq_some_iff.mp hkey.symm
    exact ⟨first, hfirst, heq ▸ hsome⟩
  · rintro ⟨first, hfirst, hsome⟩
    rw [hfirst] at hkey
    obtain ⟨m, hm, heq⟩ := Option.map_eq_some_iff.mp hkey
    exact ⟨m, List.mem_of_find?_eq_some hm, by simpa using List.find?_some hm, heq ▸ hsome⟩

/-- A declaration without the key comes first, and the key is lost. -/
example :
    let short : Model := { name := "Tag", fields := [Field.scalar "id" "Int"] }
    let full : Model := { short with primaryKey := some { fields := ["id", "kind"] } }
    (merge [⟨"a", { models := [short] }⟩, ⟨"b", { models := [full] }⟩]).models.map
      (·.primaryKey) = [none] := by decide

end

end Datamodel
