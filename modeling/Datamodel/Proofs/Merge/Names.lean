import Datamodel.Proofs.Loading.Declared
import Datamodel.Proofs.Merge.References
import Mathlib.Data.List.Nodup

/-! Names of a merged schema.

A text that loads declares no name twice (`Fragment.nodup_names_of_load`). The merge takes models
by name and enums by name, but does not compare the one with the other, and it appends the first
declaration of a model as it is. So names are repeated in the merge exactly if one text declares a
model of a name and another an enum, and fields of a model exactly if its first declaration repeats
them (`nodup_names_merge_iff`). -/

namespace Datamodel

/-! ### Fields of a merged model -/

/-- Later declarations repeat no field, and take no repetition back. -/
theorem Model.nodup_fieldNames_foldl_merge {m : Model} {later : List Model} :
    (later.foldl Model.merge m).fieldNames.Nodup ↔ m.fieldNames.Nodup := by
  induction later generalizing m with
  | nil => rfl
  | cons n later ih => rw [List.foldl_cons, ih, nodup_fieldNames_merge]

/-- A merged model repeats a field only if the first declaration of its name does. -/
theorem exists_first_of_mem_mergeModels {fragments : List Fragment} {m : Model}
    (hm : m ∈ mergeModels fragments) :
    ∃ first, (declaredModels fragments).find? (·.name = m.name) = some first ∧
      (m.fieldNames.Nodup ↔ first.fieldNames.Nodup) := by
  rw [mergeModels_eq] at hm
  have hcombined := combineAll_of_mem Model.name_merge hm
  cases hdecls : (declaredModels fragments).filter (·.name = m.name) with
  | nil =>
    rw [hdecls] at hcombined
    cases hcombined
  | cons first later =>
    rw [hdecls] at hcombined
    refine ⟨first, ?_, ?_⟩
    · rw [← List.head?_filter, hdecls, List.head?_cons]
    · rw [← Option.some.inj hcombined]
      exact Model.nodup_fieldNames_foldl_merge

/-! ### Names of a text -/

theorem Schema.nodup_names_of_ofText {source : String} {s : Schema} (h : ofText source = .ok s) :
    (s.names.map (·.1)).Nodup := by
  obtain ⟨blocks, -, h⟩ := exists_of_bind h
  obtain ⟨declared, hdeclared, h⟩ := exists_of_bind h
  obtain ⟨rfl, hnodup⟩ := Declaration.eq_of_ofBlocks hdeclared
  rw [((perm_names_of_ofBlocks h).map Prod.fst).nodup_iff, List.map_map]
  exact hnodup

/-- **A text that loads declares no name twice.** -/
theorem Fragment.nodup_names_of_load {origin source : String} {f : Fragment}
    (h : Fragment.load origin source = .ok f) : (f.schema.names.map (·.1)).Nodup := by
  obtain ⟨s, hs, rfl⟩ := exists_schema_of_load h
  rw [Schema.names_overlay]
  exact Schema.nodup_names_of_ofText hs

/-! ### Names of the merge -/

section
variable {fragments : List Fragment} {policy : Policy}

theorem mem_names_merge {p : String × FieldKind} :
    p ∈ (merge fragments policy).names ↔ ∃ f ∈ fragments, p ∈ f.schema.names := by
  constructor
  · intro hp
    rw [Schema.names, List.mem_append] at hp
    rcases hp with hp | hp
    · obtain ⟨m, hm, rfl⟩ := List.mem_map.mp hp
      have hname : m.name ∈ (mergeModels fragments).map (·.name) := List.mem_map_of_mem hm
      rw [map_name_mergeModels, List.mem_eraseDups] at hname
      obtain ⟨d, hd, hname⟩ := List.mem_map.mp hname
      obtain ⟨f, hf, hd⟩ := List.mem_flatMap.mp hd
      refine ⟨f, hf, ?_⟩
      rw [← hname]
      exact List.mem_append_left _ (List.mem_map_of_mem hd)
    · obtain ⟨e, he, rfl⟩ := List.mem_map.mp hp
      have hname : e.name ∈ (selectEnums fragments).map (·.name) := List.mem_map_of_mem he
      rw [map_name_selectEnums, List.mem_eraseDups] at hname
      obtain ⟨d, hd, hname⟩ := List.mem_map.mp hname
      obtain ⟨f, hf, hd⟩ := List.mem_flatMap.mp hd
      refine ⟨f, hf, ?_⟩
      rw [← hname]
      exact List.mem_append_right _ (List.mem_map_of_mem hd)
  · rintro ⟨f, hf, hp⟩
    exact names_subset_merge hf hp

/-- A model and an enum of one name, and nothing else, make the merge repeat a name. -/
theorem nodup_map_fst_names_iff {s : Schema} (hmodels : (s.models.map (·.name)).Nodup)
    (henums : (s.enums.map (·.name)).Nodup) :
    (s.names.map (·.1)).Nodup ↔ ∀ name, (name, .object) ∈ s.names → (name, .enum) ∉ s.names := by
  have hsplit : s.names.map (·.1) = s.models.map (·.name) ++ s.enums.map (·.name) := by
    rw [Schema.names, List.map_append, List.map_map, List.map_map]
    rfl
  rw [hsplit, List.nodup_append]
  constructor
  · rintro ⟨-, -, hne⟩ name hobject henum
    obtain ⟨m, hm, rfl⟩ := Schema.object_mem_names.mp hobject
    obtain ⟨e, he, heq⟩ := Schema.enum_mem_names.mp henum
    exact hne _ (List.mem_map_of_mem hm) _ (List.mem_map_of_mem he) heq.symm
  · intro h
    refine ⟨hmodels, henums, ?_⟩
    intro a ha b hb hab
    obtain ⟨m, hm, rfl⟩ := List.mem_map.mp ha
    obtain ⟨e, he, rfl⟩ := List.mem_map.mp hb
    exact h m.name (Schema.object_mem_names.mpr ⟨m, hm, rfl⟩)
      (Schema.enum_mem_names.mpr ⟨e, he, hab.symm⟩)

/-- A name is that of a model and that of an enum exactly if two texts declare the one and the
other. -/
theorem object_and_enum_mem_names_merge
    (hloaded : ∀ f ∈ fragments, ∃ source, Fragment.load f.origin source = .ok f) {name : String} :
    (name, .object) ∈ (merge fragments policy).names ∧
        (name, .enum) ∈ (merge fragments policy).names ↔
      ∃ f ∈ fragments, ∃ g ∈ fragments, f ≠ g ∧
        (name, .object) ∈ f.schema.names ∧ (name, .enum) ∈ g.schema.names := by
  rw [mem_names_merge, mem_names_merge]
  constructor
  · rintro ⟨⟨f, hf, hobject⟩, g, hg, henum⟩
    refine ⟨f, hf, g, hg, ?_, hobject, henum⟩
    -- One text does not declare a name twice.
    rintro rfl
    obtain ⟨source, hsource⟩ := hloaded f hf
    cases List.inj_on_of_nodup_map (Fragment.nodup_names_of_load hsource) hobject henum rfl
  · rintro ⟨f, hf, g, hg, -, hobject, henum⟩
    exact ⟨⟨f, hf, hobject⟩, g, hg, henum⟩

/-- **Names of a merge.** Models have distinct names, and so have enums. A model and an enum have
one name exactly if a text declares the model and another text the enum; a model has fields of one
name exactly if its first declaration has. -/
theorem nodup_names_merge_iff
    (hloaded : ∀ f ∈ fragments, ∃ source, Fragment.load f.origin source = .ok f)
    (policy : Policy) :
    ((merge fragments policy).models.map (·.name)).Nodup ∧
    ((merge fragments policy).enums.map (·.name)).Nodup ∧
    (∀ name, (name, .object) ∈ (merge fragments policy).names ∧
        (name, .enum) ∈ (merge fragments policy).names ↔
      ∃ f ∈ fragments, ∃ g ∈ fragments, f ≠ g ∧
        (name, .object) ∈ f.schema.names ∧ (name, .enum) ∈ g.schema.names) ∧
    (((merge fragments policy).names.map (·.1)).Nodup ↔
      ∀ f ∈ fragments, ∀ g ∈ fragments, f ≠ g →
        ∀ name, (name, .object) ∈ f.schema.names → (name, .enum) ∉ g.schema.names) ∧
    ∀ m ∈ (merge fragments policy).models, ∃ first,
      (declaredModels fragments).find? (·.name = m.name) = some first ∧
      (m.fieldNames.Nodup ↔ first.fieldNames.Nodup) := by
  have hmodels : ((merge fragments policy).models.map (·.name)).Nodup :=
    map_name_mergeModels fragments ▸ nodup_eraseDups _
  have henums : ((merge fragments policy).enums.map (·.name)).Nodup :=
    map_name_selectEnums fragments ▸ nodup_eraseDups _
  refine ⟨hmodels, henums, fun name => object_and_enum_mem_names_merge hloaded, ?_,
    fun m hm => exists_first_of_mem_mergeModels hm⟩
  rw [nodup_map_fst_names_iff hmodels henums]
  constructor
  · intro h f hf g hg hne name hobject henum
    obtain ⟨hobject, henum⟩ := (object_and_enum_mem_names_merge hloaded).mpr
      ⟨f, hf, g, hg, hne, hobject, henum⟩
    exact h name hobject henum
  · intro h name hobject henum
    obtain ⟨f, hf, g, hg, hne, hobject, henum⟩ :=
      (object_and_enum_mem_names_merge hloaded).mp ⟨hobject, henum⟩
    exact h f hf g hg hne name hobject henum

/-- An enum of the second text has the name of a model of the first. The fields of that model are
distinct all the same. -/
theorem nodup_names_merge_iff_accounts :
    let first := "model Account \x7b\n  id Int\n  role Role\n\x7d\nenum Role \x7b\n  OWNER\n\x7d\n"
    let second := "model Account \x7b\n  id BigInt\n\x7d\nenum Role \x7b\n  GUEST\n\x7d\n"
    let third := "enum Account \x7b\n  CLOSED\n\x7d\n"
    ∃ a b c, Fragment.load "a.prisma" first = .ok a ∧ Fragment.load "b.prisma" second = .ok b ∧
      Fragment.load "c.prisma" third = .ok c ∧
      ((merge [a, b]).names.map (·.1)).Nodup ∧ (∀ m ∈ (merge [a, b]).models, m.fieldNames.Nodup) ∧
      ¬((merge [a, b, c]).names.map (·.1)).Nodup := by
  intro first second third
  let account (type : String) (more : List Field) : Model :=
    { name := "Account", fields := Field.scalar "id" type :: more }
  let a : Fragment := ⟨"a.prisma", {
    models := [account "Int" [Field.ofEnum "role" "Role"]]
    enums := [Enum.ofNames "Role" ["OWNER"]] }⟩
  let b : Fragment := ⟨"b.prisma", {
    models := [account "BigInt" []], enums := [Enum.ofNames "Role" ["GUEST"]] }⟩
  let c : Fragment := ⟨"c.prisma", { enums := [Enum.ofNames "Account" ["CLOSED"]] }⟩
  have ha : Fragment.load "a.prisma" first = .ok a := eq_ok_of_toOption (by decide +kernel)
  have hb : Fragment.load "b.prisma" second = .ok b := eq_ok_of_toOption (by decide +kernel)
  have hc : Fragment.load "c.prisma" third = .ok c := eq_ok_of_toOption (by decide +kernel)
  have hloaded : ∀ f ∈ [a, b, c], ∃ source, Fragment.load f.origin source = .ok f :=
    List.forall_mem_cons.mpr ⟨⟨first, ha⟩,
      List.forall_mem_cons.mpr ⟨⟨second, hb⟩, List.forall_mem_singleton.mpr ⟨third, hc⟩⟩⟩
  have htwo : ∀ f ∈ [a, b], ∃ source, Fragment.load f.origin source = .ok f := by
    intro f hf
    exact hloaded f (List.mem_append_left [c] hf)
  obtain ⟨-, -, -, hnames, hfields⟩ := nodup_names_merge_iff htwo .last
  obtain ⟨-, -, -, hrepeated, -⟩ := nodup_names_merge_iff hloaded .last
  refine ⟨a, b, c, ha, hb, hc, hnames.mpr ?_, ?_, fun h => ?_⟩
  · have hkinds : ∀ f ∈ [a, b], ∀ p ∈ f.schema.names, p.2 = .object ↔ p.1 = "Account" := by decide
    intro f hf g hg _ name hobject henum
    cases (hkinds g hg _ henum).mpr ((hkinds f hf _ hobject).mp rfl)
  · intro m hm
    obtain ⟨first, hfirst, hiff⟩ := hfields m hm
    have hdeclared : ∀ d ∈ declaredModels [a, b], d.fieldNames.Nodup := by decide
    exact hiff.mpr (hdeclared first (List.mem_of_find?_eq_some hfirst))
  · have hne : a ≠ c := fun h => absurd (congrArg Fragment.origin h) (by decide)
    exact hrepeated.mp h a (by simp) c (by simp) hne "Account" (by decide) (by decide)

/-- **Names need not be distinct.** A text may repeat a field, and two texts may declare a model
and an enum of one name. -/
theorem not_nodup_names_merge :
    (∃ f, Fragment.load "a.prisma" "model A \x7b\n  id Int\n  id Int\n\x7d\n" = .ok f ∧
      ¬∀ m ∈ (merge [f]).models, m.fieldNames.Nodup) ∧
    ∃ f g, Fragment.load "a.prisma" "model A \x7b\n  id Int\n\x7d\n" = .ok f ∧
      Fragment.load "b.prisma" "enum A \x7b\n  X\n\x7d\n" = .ok g ∧
      ¬((merge [f, g]).names.map (·.1)).Nodup := by
  let id := Field.scalar "id" "Int"
  let repeated : Fragment := ⟨"a.prisma", { models := [{ name := "A", fields := [id, id] }] }⟩
  let model : Fragment := ⟨"a.prisma", { models := [{ name := "A", fields := [id] }] }⟩
  let enum : Fragment := ⟨"b.prisma", { enums := [Enum.ofNames "A" ["X"]] }⟩
  refine ⟨⟨repeated, ?_, by decide⟩, model, enum, ?_, ?_, by decide⟩
  · exact eq_ok_of_toOption (by decide +kernel)
  · exact eq_ok_of_toOption (by decide +kernel)
  · exact eq_ok_of_toOption (by decide +kernel)

end

end Datamodel
