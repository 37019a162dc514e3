import Datamodel.Merge
import Datamodel.Proofs.Keyed
import Datamodel.Schema.Builder
import Mathlib.Data.List.Induction

/-! The merge in closed form.

A merged model is a function of its declarations alone, in the order of the fragments
(`Model.ofDeclarations`). The two nested folds of the merge, over models and over their fields, are
the same fold by key, so the fields of a model are those of all its declarations taken together,
combined name by name. -/

namespace Datamodel

/-! ### Fields -/

namespace Field

/-- The field that declarations of one name amount to, the last of them being `last`. -/
def ofDeclarations (earlier : List Field) (last : Field) : Field :=
  { last with
    columnName := ((earlier ++ [last]).filterMap (·.columnName)).getLast?
    default := ((earlier ++ [last]).filterMap (·.default)).getLast? }

theorem ofDeclarations_nil (f : Field) : ofDeclarations [] f = f := by
  obtain ⟨_, _, _, _, _, default, _, _, _, column, _, _, _⟩ := f
  cases default <;> cases column <;> rfl

/-- What a declaration leaves open is what the declarations before it say. -/
theorem getLast?_filterMap_concat {α : Type} (given : Field → Option α) (fs : List Field)
    (f : Field) :
    ((fs ++ [f]).filterMap given).getLast? = (given f).or (fs.filterMap given).getLast? := by
  cases h : given f <;> simp [List.filterMap_append, h]

theorem inherit_ofDeclarations (earlier : List Field) (last incoming : Field) :
    (ofDeclarations earlier last).inherit incoming =
      ofDeclarations (earlier ++ [last]) incoming := by
  rw [inherit, ofDeclarations, ofDeclarations, getLast?_filterMap_concat _ _ incoming,
    getLast?_filterMap_concat _ _ incoming]

theorem combineAll_inherit (earlier : List Field) (last : Field) :
    combineAll inherit (earlier ++ [last]) = some (ofDeclarations earlier last) := by
  induction earlier using List.reverseRecOn generalizing last with
  | nil => exact congrArg some (ofDeclarations_nil last).symm
  | append_singleton earlier f ih =>
    have step : combineAll inherit (earlier ++ [f] ++ [last]) =
        (combineAll inherit (earlier ++ [f])).map (·.inherit last) := by
      cases earlier <;> simp [combineAll]
    rw [step, ih, Option.map_some, inherit_ofDeclarations]

theorem name_inherit (f g : Field) (h : f.name = g.name) : (f.inherit g).name = f.name := h.symm

/-- The fields of declarations, combined name by name. -/
def combined (decls : List Field) : List Field := combineByKey Field.name inherit decls

theorem map_name_combined (decls : List Field) :
    (combined decls).map (·.name) = (decls.map (·.name)).eraseDups :=
  map_key_combineByKey name_inherit decls

/-- A combined field is what all declarations of its name amount to. -/
theorem of_mem_combined {decls : List Field} {f : Field} (h : f ∈ combined decls) :
    ∃ earlier last, decls.filter (·.name = f.name) = earlier ++ [last] ∧
      f = ofDeclarations earlier last := by
  have hf := combineAll_of_mem name_inherit h
  rcases List.eq_nil_or_concat' (decls.filter (·.name = f.name)) with h | ⟨earlier, last, h⟩
  · rw [h] at hf
    cases hf
  · rw [h, combineAll_inherit] at hf
    exact ⟨earlier, last, h, (Option.some.inj hf).symm⟩

end Field

/-- Merging fields into combined ones combines all of them. -/
theorem foldl_mergeField_combined (fields more : List Field) :
    more.foldl mergeField (Field.combined fields) = Field.combined (fields ++ more) := by
  have hfold := foldl_upsert Field.name_inherit
  rw [Field.combined, Field.combined, ← hfold, ← hfold, List.foldl_append]
  rfl

/-! ### Unique indexes -/

/-- The indexes that are not among `present`, each once. -/
def newIndexes (present more : List Index) : List Index :=
  (more.filter (· ∉ present)).eraseDups

theorem newIndexes_append (present xs ys : List Index) :
    newIndexes present (xs ++ ys) =
      newIndexes present xs ++ newIndexes (present ++ newIndexes present xs) ys := by
  rw [newIndexes, List.filter_append, List.eraseDups_append]
  congr 2
  rw [List.removeAll, List.filter_filter]
  refine List.filter_congr fun i _ => ?_
  by_cases hi : i ∈ present <;> by_cases hx : i ∈ xs <;> simp [newIndexes, hi, hx]

theorem foldl_mergeUniqueIndex (m : Model) (indexes : List Index) :
    indexes.foldl Model.mergeUniqueIndex m =
      { m with
        uniqueIndexes := m.uniqueIndexes ++ newIndexes m.uniqueIndexes indexes
        uniqueFields := m.uniqueFields ++ (newIndexes m.uniqueIndexes indexes).map (·.fields) } := by
  induction indexes generalizing m with
  | nil => simp [newIndexes]
  | cons i indexes ih =>
    have happ := newIndexes_append m.uniqueIndexes [i] indexes
    rw [List.foldl_cons, ih]
    by_cases h : i ∈ m.uniqueIndexes
    · have hi : newIndexes m.uniqueIndexes [i] = [] := by simp [newIndexes, h]
      rw [hi, List.append_nil, List.nil_append] at happ
      rw [Model.mergeUniqueIndex, if_pos h, ← happ]; rfl
    · have hi : newIndexes m.uniqueIndexes [i] = [i] := by
        simp [newIndexes, h, List.eraseDups_cons]
      rw [hi] at happ
      rw [Model.mergeUniqueIndex, if_neg h, ← List.singleton_append, happ]
      simp [Model.addUniqueIndex]

/-! ### Models -/

namespace Model

/-- The model that declarations of one name amount to, the first of them being `first`. -/
def ofDeclarations (first : Model) (later : List Model) : Model :=
  let indexes := newIndexes first.uniqueIndexes (later.flatMap (·.uniqueIndexes))
  { first with
    fields := Field.combined ((first :: later).flatMap (·.fields))
    dbName := (((first :: later).filterMap fun m => nonEmpty m.dbName).head?).or first.dbName
    uniqueIndexes := first.uniqueIndexes ++ indexes
    uniqueFields := first.uniqueFields ++ indexes.map (·.fields)
    secondaryIndexes := (first :: later).flatMap (·.secondaryIndexes) }

theorem name_merge (m n : Model) (_ : m.name = n.name) : (m.merge n).name = m.name := by
  rw [merge, foldl_mergeUniqueIndex]

theorem ofDeclarations_nil {m : Model} (h : m.fieldNames.Nodup) : ofDeclarations m [] = m := by
  have hf : Field.combined m.fields = m.fields := combineByKey_of_nodup h
  have hn : (nonEmpty m.dbName).or m.dbName = m.dbName := by
    cases hd : m.dbName with
    | none => rfl
    | some d => by_cases he : d.isEmpty <;> simp [nonEmpty, Option.filter, he]
  cases m
  simp_all [ofDeclarations, newIndexes]

theorem nonEmpty_of_head? {ms : List Model} {d : String}
    (h : (ms.filterMap fun m => nonEmpty m.dbName).head? = some d) : nonEmpty (some d) = some d := by
  obtain ⟨n, _, hn⟩ := List.mem_filterMap.mp (List.mem_of_mem_head? h)
  obtain ⟨_, hd⟩ := Option.filter_eq_some_iff.mp hn
  simp [nonEmpty, Option.filter, hd]

/-- The first name in the database that is not empty is not looked for again. -/
theorem dbName_merge_ofDeclarations (first : Model) (later : List Model) (incoming : Model) :
    ((ofDeclarations first later).merge incoming).dbName =
      (ofDeclarations first (later ++ [incoming])).dbName := by
  simp only [merge, foldl_mergeUniqueIndex, ofDeclarations, ← List.cons_append,
    List.filterMap_append, List.head?_append]
  cases h : ((first :: later).filterMap fun m => nonEmpty m.dbName).head? with
  | some d => rw [Option.some_or, nonEmpty_of_head? h]; rfl
  | none =>
    have hf : nonEmpty first.dbName = none := by
      have := List.filterMap_eq_nil_iff.mp (List.head?_eq_none_iff.mp h)
      exact this first List.mem_cons_self
    cases hi : nonEmpty incoming.dbName <;> simp [hf, hi]

/-- **One more declaration.** Merging into what declarations amount to is declaring once more. -/
theorem merge_ofDeclarations (first : Model) (later : List Model) (incoming : Model) :
    (ofDeclarations first later).merge incoming = ofDeclarations first (later ++ [incoming]) := by
  have hdb := dbName_merge_ofDeclarations first later incoming
  rw [merge, foldl_mergeUniqueIndex] at hdb ⊢
  simp only [ofDeclarations] at hdb ⊢
  rw [foldl_mergeField_combined, hdb]
  simp [newIndexes_append, List.append_assoc]

theorem combineAll_merge {first : Model} (h : first.fieldNames.Nodup) (later : List Model) :
    combineAll merge (first :: later) = some (ofDeclarations first later) := by
  induction later using List.reverseRecOn with
  | nil => exact congrArg some (ofDeclarations_nil h).symm
  | append_singleton later m ih =>
    have hfold : later.foldl merge first = ofDeclarations first later := Option.some.inj ih
    rw [combineAll, List.foldl_append, hfold, List.foldl_cons, List.foldl_nil,
      merge_ofDeclarations]

theorem fieldNames_ofDeclarations (first : Model) (later : List Model) :
    (ofDeclarations first later).fieldNames =
      ((first :: later).flatMap fieldNames).eraseDups := by
  rw [fieldNames, ofDeclarations, Field.map_name_combined, List.map_flatMap]
  rfl

end Model

/-! ### The whole merge -/

theorem mergeModels_eq (fragments : List Fragment) :
    mergeModels fragments = combineByKey Model.name Model.merge (declaredModels fragments) :=
  foldl_upsert Model.name_merge _

theorem selectEnums_eq (fragments : List Fragment) :
    selectEnums fragments =
      combineByKey Enum.name (fun existing _ => existing) (declaredEnums fragments) :=
  foldl_upsert (fun _ _ _ => rfl) _

/-- Where nothing overrides a value, the first one stays. -/
theorem combineAll_first {α : Type} (xs : List α) :
    combineAll (fun existing _ => existing) xs = xs.head? := by
  cases xs with
  | nil => rfl
  | cons x xs => induction xs with
    | nil => rfl
    | cons y xs ih => exact ih

/-- A merged model is what the declarations of its name amount to. -/
theorem of_mem_mergeModels {fragments : List Fragment}
    (h : ∀ m ∈ declaredModels fragments, m.fieldNames.Nodup) {m : Model}
    (hm : m ∈ mergeModels fragments) :
    ∃ first later, (declaredModels fragments).filter (·.name = m.name) = first :: later ∧
      m = Model.ofDeclarations first later := by
  rw [mergeModels_eq] at hm
  have hc := combineAll_of_mem Model.name_merge hm
  cases hd : (declaredModels fragments).filter (·.name = m.name) with
  | nil =>
    rw [hd] at hc
    cases hc
  | cons first later =>
    have hfirst : first ∈ declaredModels fragments :=
      List.mem_of_mem_filter (hd ▸ List.mem_cons_self)
    rw [hd, Model.combineAll_merge (h first hfirst)] at hc
    exact ⟨first, later, rfl, (Option.some.inj hc).symm⟩

/-- An enum of the merge is the first declaration of its name. -/
theorem of_mem_selectEnums {fragments : List Fragment} {e : Enum} (he : e ∈ selectEnums fragments) :
    (declaredEnums fragments).find? (·.name = e.name) = some e := by
  rw [selectEnums_eq] at he
  have hc := combineAll_of_mem (fun _ _ _ => rfl) he
  rwa [combineAll_first, List.head?_filter] at hc

/-- **The merge in closed form.** Models and enums come in the order in which their names first
come up, each name once. A model is a function of the declarations of its name, in order, and so is
each of its fields; an enum is the first declaration of its name. -/
theorem merge_eq_ofDeclarations (fragments : List Fragment) (policy : Policy)
    (h : ∀ m ∈ declaredModels fragments, m.fieldNames.Nodup) :
    let merged := merge fragments policy
    merged.models.map (·.name) = ((declaredModels fragments).map (·.name)).eraseDups ∧
    (merged.models.map (·.name)).Nodup ∧
    (∀ m ∈ merged.models, ∃ first later,
      (declaredModels fragments).filter (·.name = m.name) = first :: later ∧
      m = Model.ofDeclarations first later ∧
      m.fieldNames = ((first :: later).flatMap Model.fieldNames).eraseDups ∧
      m.fieldNames.Nodup ∧
      ∀ f ∈ m.fields, ∃ earlier last,
        ((first :: later).flatMap (·.fields)).filter (·.name = f.name) = earlier ++ [last] ∧
        f = Field.ofDeclarations earlier last) ∧
    merged.enums.map (·.name) = ((declaredEnums fragments).map (·.name)).eraseDups ∧
    (merged.enums.map (·.name)).Nodup ∧
    ∀ e ∈ merged.enums, (declaredEnums fragments).find? (·.name = e.name) = some e := by
  have hmodels : (mergeModels fragments).map (·.name) = _ :=
    mergeModels_eq fragments ▸ map_key_combineByKey Model.name_merge _
  have henums : (selectEnums fragments).map (·.name) = _ :=
    selectEnums_eq fragments ▸ map_key_combineByKey (fun _ _ _ => rfl) _
  refine ⟨hmodels, hmodels ▸ nodup_eraseDups _, fun m hm => ?_, henums,
    henums ▸ nodup_eraseDups _, fun e he => of_mem_selectEnums he⟩
  obtain ⟨first, later, hd, rfl⟩ := of_mem_mergeModels h hm
  have hnames := Model.fieldNames_ofDeclarations first later
  exact ⟨first, later, hd, rfl, hnames, hnames ▸ nodup_eraseDups _,
    fun f hf => Field.of_mem_combined hf⟩

/-- A field declared twice keeps the column name that only its first declaration gives. -/
theorem merge_eq_ofDeclarations_users :
    let id := (Field.scalar "id" "Int").withColumnName "user_id"
    let first : Model := { name := "User", fields := [id, Field.scalar "name" "String"] }
    let later : Model :=
      { name := "User", fields := [Field.scalar "id" "BigInt"], dbName := some "users" }
    let fragments : List Fragment :=
      [⟨"a", { models := [first] }⟩, ⟨"b", { models := [{ name := "Post" }, later] }⟩]
    (∀ m ∈ declaredModels fragments, m.fieldNames.Nodup) ∧
    (merge fragments).models.map (·.name) = ["User", "Post"] ∧
    ∀ m ∈ (merge fragments).models, m.name = "User" →
      m.fields = [(Field.scalar "id" "BigInt").withColumnName "user_id",
        Field.scalar "name" "String"] ∧ m.dbName = some "users" := by
  intro id first later fragments
  have h : ∀ m ∈ declaredModels fragments, m.fieldNames.Nodup := by decide
  obtain ⟨hnames, -, hmodels, -⟩ := merge_eq_ofDeclarations fragments .last h
  refine ⟨h, hnames.trans (by decide), fun m hm hname => ?_⟩
  obtain ⟨f, l, hdecls, rfl, -⟩ := hmodels m hm
  rw [hname] at hdecls
  obtain ⟨rfl, rfl⟩ : first = f ∧ [later] = l := List.cons.inj hdecls
  decide

end Datamodel
