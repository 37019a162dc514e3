import Datamodel.Proofs.Keyed
import Datamodel.Proofs.Resolution.Results
import Datamodel.Proofs.Schema.Structure

/-! The resolution of a list of blocks, block by block.

Blocks are resolved if no two of them declare one name and each of them is resolved among the
declared types (`resolve_eq_ok_iff`). Where a name is declared twice, the first block that repeats
one is refused, whatever the others are like (`resolve_of_repeated`). -/

namespace Datamodel

/-! ### Declared names -/

/-- The names that blocks declare as types of fields: those of models, views and enums. -/
def Block.typeNames (blocks : List Block) : List String :=
  blocks.filterMap fun b => b.declaration?.map (·.name)

section
variable {blocks : List Block} {d : Declaration}

theorem Block.map_name_declarations (blocks : List Block) :
    (blocks.filterMap declaration?).map (·.name) = typeNames blocks :=
  List.map_filterMap

/-- The name of a declaration is repeated if it is seen or stands in front of it. In front of the
first such declaration nothing is repeated. -/
theorem Declaration.exists_of_firstRepeat {seen : List String} {ds : List Declaration}
    (h : firstRepeat seen ds = some d) : ∃ before after, ds = before ++ d :: after ∧
      firstRepeat seen before = none ∧ (d.name ∈ seen ∨ d.name ∈ before.map (·.name)) := by
  induction ds generalizing seen with
  | nil => cases h
  | cons d' ds ih =>
    rw [firstRepeat] at h
    split at h
    · next hseen =>
      cases h
      exact ⟨[], ds, rfl, rfl, .inl hseen⟩
    · next hseen =>
      obtain ⟨before, after, rfl, hbefore, hname⟩ := ih h
      refine ⟨d' :: before, after, rfl, by rw [firstRepeat, if_neg hseen, hbefore], ?_⟩
      rw [List.mem_cons, or_assoc, or_left_comm] at hname
      simpa using hname

theorem Declaration.ofBlocks_of_nodup (h : (Block.typeNames blocks).Nodup) :
    ofBlocks blocks = .ok (blocks.filterMap Block.declaration?) := by
  rw [← Block.map_name_declarations] at h
  rw [ofBlocks, firstRepeat_eq_none (fun _ _ => List.not_mem_nil) h]

/-- **A repeated name is refused** at the first block that repeats one. -/
theorem resolve_of_repeated (h : ¬(Block.typeNames blocks).Nodup) :
    ∃ before b after d, blocks = before ++ b :: after ∧ b.declaration? = some d ∧
      (Block.typeNames before).Nodup ∧ d.name ∈ Block.typeNames before ∧
      resolve blocks = .error (.duplicate d.line d.label d.name) := by
  cases hrepeat : Declaration.firstRepeat [] (blocks.filterMap Block.declaration?) with
  | none =>
    have hnodup := (Declaration.nodup_of_firstRepeat hrepeat).1
    rw [Block.map_name_declarations] at hnodup
    exact absurd hnodup h
  | some d =>
    obtain ⟨ds, ds', hsplit, hnone, hname⟩ := Declaration.exists_of_firstRepeat hrepeat
    have hresolve : resolve blocks = .error (.duplicate d.line d.label d.name) := by
      rw [resolve, Declaration.ofBlocks, hrepeat]
      rfl
    -- The declaration in question is that of a block, and the ones in front of it are in front.
    obtain ⟨before, rest, rfl, rfl, hrest⟩ := List.filterMap_eq_append_iff.mp hsplit
    obtain ⟨silent, b, after, rfl, hsilent, hb, -⟩ := List.filterMap_eq_cons_iff.mp hrest
    have hnames : Block.typeNames (before ++ silent) =
        (before.filterMap Block.declaration?).map (·.name) := by
      have hnil : silent.filterMap Block.declaration? = [] :=
        List.filterMap_eq_nil_iff.mpr hsilent
      rw [← Block.map_name_declarations, List.filterMap_append, hnil, List.append_nil]
    refine ⟨before ++ silent, b, after, d, (List.append_assoc ..).symm, hb, ?_, ?_, hresolve⟩
    · rw [hnames]
      exact (Declaration.nodup_of_firstRepeat hnone).1
    · rw [hnames]
      exact hname.resolve_left List.not_mem_nil

/-! ### Resolved blocks -/

theorem Schema.ofBlocks_eq_map (declared : List Declaration) (blocks : List Block) :
    ofBlocks declared blocks = (blocks.mapM (Block.resolve declared)).map sum := by
  induction blocks with
  | nil => rfl
  | cons b blocks ih =>
    rw [ofBlocks, ih, List.mapM_cons]
    cases b.resolve declared with
    | error e => rfl
    | ok one => cases blocks.mapM (Block.resolve declared) <;> rfl

/-- **Blocks are resolved** if they declare no name twice, and each is resolved among the types that
they declare. -/
theorem resolve_eq_ok_iff {s : Schema} : resolve blocks = .ok s ↔ (Block.typeNames blocks).Nodup ∧
    Schema.ofBlocks (blocks.filterMap Block.declaration?) blocks = .ok s := by
  constructor
  · intro h
    obtain ⟨declared, hdeclared, hs⟩ := exists_of_bind h
    obtain ⟨rfl, hnodup⟩ := Declaration.eq_of_ofBlocks hdeclared
    rw [Block.map_name_declarations] at hnodup
    exact ⟨hnodup, hs⟩
  · rintro ⟨hnodup, hs⟩
    rw [resolve, Declaration.ofBlocks_of_nodup hnodup]
    exact hs

theorem exists_resolve_iff : (∃ s, resolve blocks = .ok s) ↔ (Block.typeNames blocks).Nodup ∧
    ∀ b ∈ blocks, ∃ s, b.resolve (blocks.filterMap Block.declaration?) = .ok s := by
  rw [← exists_mapM_iff]
  constructor
  · rintro ⟨s, hs⟩
    obtain ⟨hnodup, hs⟩ := resolve_eq_ok_iff.mp hs
    rw [Schema.ofBlocks_eq_map] at hs
    obtain ⟨ss, hss, -⟩ := exists_of_map hs
    exact ⟨hnodup, ss, hss⟩
  · rintro ⟨hnodup, ss, hss⟩
    refine ⟨Schema.sum ss, resolve_eq_ok_iff.mpr ⟨hnodup, ?_⟩⟩
    rw [Schema.ofBlocks_eq_map, hss]
    rfl

end

end Datamodel
