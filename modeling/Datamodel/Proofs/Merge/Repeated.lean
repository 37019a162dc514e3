import Datamodel.Proofs.Merge.Regrouping

/-! Merging the same fragments twice.

Second declarations replace fields by earlier ones for a while, but what a merged model amounts to
does not depend on that: it is a function of all declarations of its name in order
(`Model.ofDeclarations`), and this function sees only the first or the last of what the declarations
say. A unique index that is there already is not added again. So nothing changes when all
declarations come once more, except that secondary indexes, which are put one behind the other, come
twice (`merge_append_self`). -/

namespace Datamodel

/-! ### Fields -/

namespace Field

theorem getLast?_filterMap_append_self {α : Type} (given : Field → Option α) (fs : List Field) :
    ((fs ++ fs).filterMap given).getLast? = (fs.filterMap given).getLast? := by
  rw [List.filterMap_append, List.getLast?_append, Option.or_self]

/-- Declarations that come twice amount to the field that they amount to. -/
theorem combineAll_append_self (earlier : List Field) (last : Field) :
    combineAll inherit ((earlier ++ [last]) ++ (earlier ++ [last])) =
      combineAll inherit (earlier ++ [last]) := by
  rw [← List.append_assoc, combineAll_inherit, combineAll_inherit, ofDeclarations, ofDeclarations,
    List.append_assoc _ earlier, getLast?_filterMap_append_self, getLast?_filterMap_append_self]

theorem combined_append_self (decls : List Field) : combined (decls ++ decls) = combined decls := by
  have hrepeated : ∀ f fs, f :: fs ⊆ decls → combineAll inherit (f :: fs ++ f :: fs) =
      (combineAll inherit (f :: fs)).map id := by
    intro f fs _
    have hconcat := List.eq_nil_or_concat' (f :: fs)
    obtain ⟨earlier, last, heq⟩ := hconcat.resolve_left (List.cons_ne_nil f fs)
    rw [heq, combineAll_append_self, Option.map_id_apply]
  rw [combined, combineByKey_append_self hrepeated, List.map_id]
  rfl

end Field

/-! ### Models -/

/-- Indexes that come once more are there already. -/
theorem newIndexes_append_self (own more : List Index) :
    newIndexes own (more ++ (own ++ more)) = newIndexes own more := by
  have hpresent : own ++ more ⊆ own ++ newIndexes own more :=
    List.append_subset.mpr ⟨List.subset_append_left _ _, subset_append_newIndexes own more⟩
  have hnone : newIndexes (own ++ newIndexes own more) (own ++ more) = [] := by
    rw [newIndexes, List.filter_eq_nil_iff.mpr, List.eraseDups_nil]
    intro i hi
    rw [decide_eq_true_iff, not_not]
    exact hpresent hi
  rw [newIndexes_append, hnone, List.append_nil]

namespace Model

/-- The model with its secondary indexes twice. -/
def repeatSecondaryIndexes (m : Model) : Model :=
  { m with secondaryIndexes := m.secondaryIndexes ++ m.secondaryIndexes }

/-- **Declaring everything once more** repeats the secondary indexes, and nothing else. -/
theorem ofDeclarations_append_self (first : Model) (later : List Model) :
    ofDeclarations first (later ++ first :: later) =
      (ofDeclarations first later).repeatSecondaryIndexes := by
  have hdecls : first :: (later ++ first :: later) = (first :: later) ++ (first :: later) := rfl
  simp only [ofDeclarations, repeatSecondaryIndexes, hdecls, List.flatMap_append,
    List.flatMap_cons, newIndexes_append_self, Field.combined_append_self, List.filterMap_append,
    List.head?_append, Option.or_self]

end Model

/-! ### Selections -/

theorem Policy.select_append_self {α : Type} (policy : Policy) (counts : List α → Bool)
    (xss : List (List α)) : policy.select counts (xss ++ xss) = policy.select counts xss := by
  rw [select, select, List.filter_append]
  cases policy with
  | first => rw [choose, choose, List.head?_append, Option.or_self]
  | last => rw [choose, choose, List.getLast?_append, Option.or_self]

/-! ### The whole merge -/

section
variable (fragments : List Fragment)

theorem mergeModels_append_self (h : ∀ m ∈ declaredModels fragments, m.fieldNames.Nodup) :
    mergeModels (fragments ++ fragments) =
      (mergeModels fragments).map Model.repeatSecondaryIndexes := by
  have hrepeated : ∀ m ms, m :: ms ⊆ declaredModels fragments →
      combineAll Model.merge (m :: ms ++ m :: ms) =
        (combineAll Model.merge (m :: ms)).map Model.repeatSecondaryIndexes := by
    intro m ms hsubset
    have hm := h m (hsubset List.mem_cons_self)
    rw [List.cons_append, Model.combineAll_merge hm, Model.combineAll_merge hm,
      Model.ofDeclarations_append_self, Option.map_some]
  rw [mergeModels_eq, mergeModels_eq, declaredModels, List.flatMap_append]
  exact combineByKey_append_self hrepeated

theorem selectEnums_append_self : selectEnums (fragments ++ fragments) = selectEnums fragments := by
  have hrepeated : ∀ e es, e :: es ⊆ declaredEnums fragments →
      combineAll (fun existing _ => existing) (e :: es ++ e :: es) =
        (combineAll (fun existing _ => existing) (e :: es)).map id := by
    intro e es _
    rw [combineAll_first, combineAll_first, List.head?_append, Option.or_self, Option.map_id_apply]
  rw [selectEnums_eq, selectEnums_eq, declaredEnums, List.flatMap_append]
  exact (combineByKey_append_self hrepeated).trans (List.map_id _)

/-- **Merging the same fragments again** repeats the secondary indexes of the models, and changes
nothing else. -/
theorem merge_append_self (policy : Policy)
    (h : ∀ m ∈ declaredModels fragments, m.fieldNames.Nodup) :
    merge (fragments ++ fragments) policy = { merge fragments policy with
      models := (merge fragments policy).models.map fun m =>
        { m with secondaryIndexes := m.secondaryIndexes ++ m.secondaryIndexes } } := by
  have hdatasources : selectDatasources (fragments ++ fragments) policy =
      selectDatasources fragments policy := by
    rw [selectDatasources_eq, selectDatasources_eq, List.map_append, Policy.select_append_self]
  have hgenerators : selectGenerators (fragments ++ fragments) = selectGenerators fragments := by
    rw [selectGenerators_eq, selectGenerators_eq, List.map_append, Policy.select_append_self]
  rw [merge, mergeModels_append_self fragments h, selectEnums_append_self, hdatasources,
    hgenerators]
  rfl

/-- In the second round the field `id` is an `Int` once more, until its last declaration comes
again. -/
theorem merge_append_self_users :
    let first : Model := {
      name := "User"
      fields := [(Field.scalar "id" "Int").withColumnName "user_id", Field.scalar "age" "Int"]
      uniqueIndexes := [{ fields := ["id"] }], uniqueFields := [["id"]]
      secondaryIndexes := ["@@index([age])"] }
    let later : Model := {
      name := "User", fields := [Field.scalar "id" "BigInt"]
      uniqueIndexes := [{ name := some "key", fields := ["id"] }], uniqueFields := [["id"]] }
    let fragments : List Fragment :=
      [⟨"a", { models := [first], generators := [Generator.ofProvider "client" "js"] }⟩,
        ⟨"b", { models := [later], enums := [Enum.ofNames "Role" ["ADMIN"]] }⟩]
    (∀ m ∈ declaredModels fragments, m.fieldNames.Nodup) ∧
    merge (fragments ++ fragments) = {
      models := [{
        name := "User"
        fields := [(Field.scalar "id" "BigInt").withColumnName "user_id", Field.scalar "age" "Int"]
        uniqueIndexes := [{ fields := ["id"] }, { name := some "key", fields := ["id"] }]
        uniqueFields := [["id"], ["id"]]
        secondaryIndexes := ["@@index([age])", "@@index([age])"] }]
      enums := [Enum.ofNames "Role" ["ADMIN"]]
      generators := [Generator.ofProvider "client" "js"] } := by
  intro first later fragments
  have h : ∀ m ∈ declaredModels fragments, m.fieldNames.Nodup := by decide
  refine ⟨h, ?_⟩
  rw [merge_append_self fragments .last h]
  decide

/-- A declaration that repeats a field is no declaration of it once more. -/
example :
    let m : Model := { name := "A", fields := [Field.scalar "x" "Int", Field.scalar "x" "String"] }
    let fragments : List Fragment := [⟨"a", { models := [m] }⟩]
    (merge fragments).models = [m] ∧ (merge (fragments ++ fragments)).models =
      [{ m with fields := [Field.scalar "x" "String", Field.scalar "x" "String"] }] := by decide

end

end Datamodel
