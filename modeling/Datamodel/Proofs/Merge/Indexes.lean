import Datamodel.Proofs.Loading.Defaults
import Datamodel.Proofs.Merge.Keys

/-! Unique indexes and their fields.

A model lists the fields of its unique indexes a second time, on their own
(`Model.ListsUniqueFields`). Both lists grow in step: by an attribute of a text, by an index of a
later declaration, and by none if the very same index is there. So they agree in whatever a run of
merge steps makes of loaded models, and no index of a declaration is lost on the way
(`KeepUniqueIndexes`). -/

namespace Datamodel

/-! ### One model -/

namespace Model
variable {m : Model}

/-- The unique fields are those of the unique indexes, entry by entry. -/
def ListsUniqueFields (m : Model) : Prop := m.uniqueFields = m.uniqueIndexes.map (·.fields)

namespace ListsUniqueFields

theorem addUniqueIndex (h : m.ListsUniqueFields) (index : Index) :
    (m.addUniqueIndex index).ListsUniqueFields := by
  rw [ListsUniqueFields, Model.addUniqueIndex, List.map_append, ← h]
  rfl

theorem applyAttribute (h : m.ListsUniqueFields) (a : Attribute) :
    (m.applyAttribute a).ListsUniqueFields := by
  unfold Model.applyAttribute
  split
  · exact h
  · exact h.addUniqueIndex a.toIndex
  · exact h
  · exact h

theorem annotate (h : m.ListsUniqueFields) (as : Notes) : (as.annotate m).ListsUniqueFields := by
  unfold Notes.annotate
  split <;> exact h

theorem mergeUniqueIndex (h : m.ListsUniqueFields) (index : Index) :
    (m.mergeUniqueIndex index).ListsUniqueFields := by
  unfold Model.mergeUniqueIndex
  split
  · exact h
  · exact h.addUniqueIndex index

/-- The later declaration only adds its indexes, so nothing has to be known of its own lists. -/
theorem merge (h : m.ListsUniqueFields) (later : Model) : (m.merge later).ListsUniqueFields := by
  rw [Model.merge]
  exact List.foldlRecOn later.uniqueIndexes Model.mergeUniqueIndex h fun _ hm index _ =>
    hm.mergeUniqueIndex index

end ListsUniqueFields

end Model

/-! ### Loaded models -/

theorem ModelBlock.listsUniqueFields_of_resolve {declared : List Declaration} {b : ModelBlock}
    {m : Model} (h : b.resolve declared = .ok m) : m.ListsUniqueFields := by
  obtain ⟨fields, -, h⟩ := exists_of_bind h
  cases h
  exact List.foldlRecOn b.attributes Model.applyAttribute rfl fun _ hm a _ => hm.applyAttribute a

theorem Fragment.listsUniqueFields_of_load {origin source : String} {fragment : Fragment}
    (h : Fragment.load origin source = .ok fragment) :
    ∀ m ∈ fragment.schema.models, m.ListsUniqueFields := by
  intro m hm
  obtain ⟨blocks, declared, b, m, -, -, hresolve, rfl⟩ := exists_block_of_mem h hm
  exact (ModelBlock.listsUniqueFields_of_resolve hresolve).annotate _

/-! ### Merge steps -/

/-- The models list their unique fields and have different names, and under the name of each
declaration stands a model with its unique indexes. -/
structure KeepUniqueIndexes (decls models : List Model) : Prop where
  listed : ∀ m ∈ models, m.ListsUniqueFields
  distinct : (models.map (·.name)).Nodup
  kept : ∀ d ∈ decls, ∃ m ∈ models, m.name = d.name ∧ d.uniqueIndexes ⊆ m.uniqueIndexes

namespace KeepUniqueIndexes
variable {decls models : List Model}

theorem nil : KeepUniqueIndexes [] [] := ⟨nofun, .nil, nofun⟩

/-- **One merge step.** -/
theorem step (h : KeepUniqueIndexes decls models) {d : Model} (hd : d.ListsUniqueFields) :
    KeepUniqueIndexes (decls ++ [d]) (mergeModel models d) where
  listed := forall_mem_upsert (fun _ n hm _ => hm.merge n) h.listed hd
  distinct := (nodup_map_key_upsert Model.name_merge).mpr h.distinct
  kept := by
    have hmodels : ∀ m ∈ models ++ [d], ∃ m' ∈ mergeModel models d,
        m'.name = m.name ∧ m'.Keeps m :=
      exists_mem_upsert Model.name_merge Model.Keeps.refl Model.merge_keeps
    obtain ⟨hold, hnew⟩ := List.forall_mem_append.mp hmodels
    refine List.forall_mem_append.mpr ⟨fun d' hd' => ?_, List.forall_mem_singleton.mpr ?_⟩
    -- an earlier declaration is in some model, and that one in a model of the result
    · obtain ⟨m, hm, hname, hindexes⟩ := h.kept d' hd'
      obtain ⟨m', hm', hname', hkeeps⟩ := hold m hm
      exact ⟨m', hm', hname'.trans hname, List.Subset.trans hindexes hkeeps.uniqueIndexes⟩
    · obtain ⟨m', hm', hname', hkeeps⟩ := hnew d (List.mem_singleton_self d)
      exact ⟨m', hm', hname', hkeeps.uniqueIndexes⟩

/-- **A run of merge steps.** -/
theorem run (h : KeepUniqueIndexes decls models) {steps : List Model}
    (hsteps : ∀ d ∈ steps, d.ListsUniqueFields) :
    KeepUniqueIndexes (decls ++ steps) (steps.foldl mergeModel models) := by
  induction steps generalizing decls models with
  | nil => rwa [List.append_nil]
  | cons d steps ih =>
    obtain ⟨hd, hsteps⟩ := List.forall_mem_cons.mp hsteps
    rw [List.append_cons]
    exact ih (h.step hd) hsteps

end KeepUniqueIndexes

/-! ### The whole merge -/

/-- **Unique indexes of a merge.** The models of loaded fragments list the fields of their unique
indexes. However many of them are merged, and in whatever order, the models that come out do so
too, and have every unique index of every declaration that went in. So it is with the models of the
merged schema and all declarations. -/
theorem keepUniqueIndexes_merge {fragments : List Fragment}
    (hloaded : ∀ f ∈ fragments, ∃ source, Fragment.load f.origin source = .ok f) (policy : Policy) :
    (∀ fragment ∈ fragments, ∀ m ∈ fragment.schema.models, m.ListsUniqueFields) ∧
    (∀ steps ⊆ declaredModels fragments, KeepUniqueIndexes steps (steps.foldl mergeModel [])) ∧
    KeepUniqueIndexes (declaredModels fragments) (merge fragments policy).models := by
  have hlisted : ∀ fragment ∈ fragments, ∀ m ∈ fragment.schema.models, m.ListsUniqueFields := by
    intro fragment hfragment
    obtain ⟨source, hsource⟩ := hloaded fragment hfragment
    exact Fragment.listsUniqueFields_of_load hsource
  have hruns : ∀ steps ⊆ declaredModels fragments,
      KeepUniqueIndexes steps (steps.foldl mergeModel []) := by
    intro steps hsteps
    refine KeepUniqueIndexes.nil.run fun d hd => ?_
    obtain ⟨fragment, hfragment, hmem⟩ := List.mem_flatMap.mp (hsteps hd)
    exact hlisted fragment hfragment d hmem
  exact ⟨hlisted, hruns, hruns _ (List.Subset.refl _)⟩

/-- The first text has an index twice, and the second has it once more and under a name. Only the
named one is new. -/
theorem keepUniqueIndexes_merge_tags :
    let first := "model Tag \x7b\n  id Int\n  @@unique([id])\n  @@unique([id])\n\x7d\n"
    let second := "model Tag \x7b\n  id Int\n  @@unique([id])\n  @@unique([id], name: \"k\")\n\x7d\n"
    ∃ a b, Fragment.load "a.prisma" first = .ok a ∧ Fragment.load "b.prisma" second = .ok b ∧
      KeepUniqueIndexes (declaredModels [a, b]) (merge [a, b]).models ∧
      (merge [a, b]).models.map (fun m => m.uniqueIndexes.map (·.name)) =
        [[none, none, some "k"]] := by
  intro first second
  let tag : Model := { name := "Tag", fields := [Field.scalar "id" "Int"] }
  let key (name : Option String) : Index := { name, fields := ["id"] }
  let a : Fragment :=
    ⟨"a.prisma", { models := [(tag.addUniqueIndex (key none)).addUniqueIndex (key none)] }⟩
  let b : Fragment :=
    ⟨"b.prisma", { models := [(tag.addUniqueIndex (key none)).addUniqueIndex (key "k")] }⟩
  have ha : Fragment.load "a.prisma" first = .ok a := Fragment.load_of_chars (by decide +kernel)
  have hb : Fragment.load "b.prisma" second = .ok b := Fragment.load_of_chars (by decide +kernel)
  have hloaded : ∀ f ∈ [a, b], ∃ source, Fragment.load f.origin source = .ok f :=
    List.forall_mem_cons.mpr ⟨⟨first, ha⟩, List.forall_mem_singleton.mpr ⟨second, hb⟩⟩
  obtain ⟨-, -, hmerged⟩ := keepUniqueIndexes_merge hloaded .last
  exact ⟨a, b, ha, hb, hmerged, by decide⟩

end Datamodel
