import Datamodel.Proofs.Resolution.Blocks

/-! Resolution and the order of blocks.

A name is looked up among all declarations of a text, and no two of them have one name, so what a
block makes depends on which blocks there are and not on their order
(`Block.resolve_eq_of_perm`). Blocks in another order are resolved just if they are in this one, to
the same declarations in another order (`resolve_perm`). -/

namespace Datamodel

section
variable {α : Type} {xs ys : List α}

theorem find?_eq_of_perm {key : α → String} (h : xs.Perm ys) (hnodup : (xs.map key).Nodup)
    (name : String) : xs.find? (key · == name) = ys.find? (key · == name) := by
  cases hfound : xs.find? (key · == name) with
  | none =>
    symm
    rw [List.find?_eq_none] at hfound ⊢
    exact fun y hy => hfound y (h.mem_iff.mpr hy)
  | some x =>
    have hkey : key x = name := by simpa using List.find?_some hfound
    have hx : x ∈ ys := h.mem_iff.mp (List.mem_of_find?_eq_some hfound)
    have hys := find?_of_nodup ((h.map key).nodup_iff.mp hnodup) hx
    rw [hkey] at hys
    exact hys.symm

theorem filterMap_toOption_of_forall₂ {ε β : Type} {f : α → Except ε β} {as : List β}
    (h : List.Forall₂ (fun x a => f x = .ok a) xs as) :
    xs.filterMap (fun x => (f x).toOption) = as := by
  induction h with
  | nil => rfl
  | cons hx _ ih =>
    rw [List.filterMap_cons, hx, ih]
    rfl

/-- What is made of a list in another order is made in that order. -/
theorem perm_of_mapM {ε β : Type} {f : α → Except ε β} {as bs : List β} (h : xs.Perm ys)
    (hxs : xs.mapM f = .ok as) (hys : ys.mapM f = .ok bs) : as.Perm bs := by
  rw [← filterMap_toOption_of_forall₂ (forall₂_of_mapM hxs),
    ← filterMap_toOption_of_forall₂ (forall₂_of_mapM hys)]
  exact h.filterMap _

end

/-! ### Blocks among declared types -/

section
variable {declared declared' : List Declaration}

theorem FieldDecl.resolve_congr (h : FieldKind.ofName? declared = FieldKind.ofName? declared')
    (model : String) (f : FieldDecl) : f.resolve declared model = f.resolve declared' model := by
  have hkind : f.kind declared model = f.kind declared' model := by rw [kind, kind, h]
  rw [resolve, resolve, hkind]

/-- Of the declared types a block needs the kinds of their names. -/
theorem Block.resolve_congr (h : FieldKind.ofName? declared = FieldKind.ofName? declared')
    (b : Block) : b.resolve declared = b.resolve declared' := by
  cases b with
  | model b =>
    have hfields : FieldDecl.resolve declared b.name = FieldDecl.resolve declared' b.name :=
      funext (FieldDecl.resolve_congr h b.name)
    rw [resolve, resolve, ModelBlock.resolve, ModelBlock.resolve, hfields]
  | enum b | datasource b | generator b => rfl

end

/-! ### Blocks in another order -/

section
variable {blocks blocks' : List Block}

theorem Block.resolve_eq_of_perm (h : blocks.Perm blocks') (hnodup : (typeNames blocks).Nodup) :
    Block.resolve (blocks.filterMap declaration?) =
      Block.resolve (blocks'.filterMap declaration?) := by
  rw [← map_name_declarations] at hnodup
  have hkinds : FieldKind.ofName? (blocks.filterMap declaration?) =
      FieldKind.ofName? (blocks'.filterMap declaration?) := by
    funext name
    rw [FieldKind.ofName?, FieldKind.ofName?, find?_eq_of_perm (h.filterMap _) hnodup]
  exact funext (resolve_congr hkinds)

theorem exists_resolve_of_perm (h : blocks.Perm blocks') (hs : ∃ s, resolve blocks = .ok s) :
    ∃ s, resolve blocks' = .ok s := by
  obtain ⟨hnodup, hblocks⟩ := exists_resolve_iff.mp hs
  refine exists_resolve_iff.mpr ⟨(h.filterMap _).nodup_iff.mp hnodup, fun b hb => ?_⟩
  rw [← Block.resolve_eq_of_perm h hnodup]
  exact hblocks b (h.mem_iff.mpr hb)

/-- Both schemas are made of their blocks among the types that the first blocks declare. -/
theorem Schema.madeOf_of_perm {s s' : Schema} (h : blocks.Perm blocks')
    (hs : resolve blocks = .ok s) (hs' : resolve blocks' = .ok s') :
    s.MadeOf (blocks.filterMap Block.declaration?) blocks ∧
      s'.MadeOf (blocks.filterMap Block.declaration?) blocks' := by
  obtain ⟨hnodup, hs⟩ := resolve_eq_ok_iff.mp hs
  obtain ⟨-, hs'⟩ := resolve_eq_ok_iff.mp hs'
  refine ⟨madeOf_of_ofBlocks hs, madeOf_of_ofBlocks ?_⟩
  rwa [ofBlocks_eq_map, ← Block.resolve_eq_of_perm h hnodup, ← ofBlocks_eq_map] at hs'

/-- The blocks of each kind stand in one order in both lists. -/
structure Block.SameOrder (blocks blocks' : List Block) : Prop where
  models : blocks.filterMap model? = blocks'.filterMap model?
  enums : blocks.filterMap enum? = blocks'.filterMap enum?
  datasources : blocks.filterMap datasource? = blocks'.filterMap datasource?
  generators : blocks.filterMap generator? = blocks'.filterMap generator?

theorem Schema.MadeOf.eq_of_sameOrder {declared : List Declaration} {s s' : Schema}
    (h : s.MadeOf declared blocks) (h' : s'.MadeOf declared blocks')
    (hsame : Block.SameOrder blocks blocks') : s = s' := by
  obtain ⟨models, enums, datasources, generators⟩ := s
  obtain ⟨hmodels, henums, hdatasources, hgenerators⟩ := h
  rw [hsame.models, h'.models] at hmodels
  rw [hsame.enums, h'.enums] at henums
  rw [hsame.datasources, h'.datasources] at hdatasources
  rw [hsame.generators, h'.generators] at hgenerators
  cases hmodels
  cases henums
  cases hdatasources
  cases hgenerators
  rfl

/-- **The order of blocks does not matter.** Blocks are resolved just if the same blocks in another
order are. What they make is made of each block in the same way, so each list of the one schema
is in the order that its blocks are put into, and the schemas are equal if the blocks of each kind
keep their order. -/
theorem resolve_perm (h : blocks.Perm blocks') :
    ((∃ s, resolve blocks = .ok s) ↔ ∃ s, resolve blocks' = .ok s) ∧
    ∀ s s', resolve blocks = .ok s → resolve blocks' = .ok s' →
      (∃ declared, s.MadeOf declared blocks ∧ s'.MadeOf declared blocks') ∧
      s.models.Perm s'.models ∧ s.enums.Perm s'.enums ∧ s.datasources.Perm s'.datasources ∧
      s.generators.Perm s'.generators ∧ (Block.SameOrder blocks blocks' → s = s') := by
  refine ⟨⟨exists_resolve_of_perm h, exists_resolve_of_perm h.symm⟩, fun s s' hs hs' => ?_⟩
  obtain ⟨hmade, hmade'⟩ := Schema.madeOf_of_perm h hs hs'
  refine ⟨⟨_, hmade, hmade'⟩, ?_, ?_, ?_, ?_, hmade.eq_of_sameOrder hmade'⟩
  · exact perm_of_mapM (h.filterMap _) hmade.models hmade'.models
  · rw [← hmade.enums, ← hmade'.enums]
    exact (h.filterMap _).map _
  · exact perm_of_mapM (h.filterMap _) hmade.datasources hmade'.datasources
  · exact perm_of_mapM (h.filterMap _) hmade.generators hmade'.generators

/-- A model refers to a model behind it, and in the other order to one in front of it. The enum can
stand anywhere. -/
theorem resolve_perm_posts :
    let action : Attribute := ⟨"relation", [⟨some "onDelete", .name "Cascade"⟩], 2⟩
    let author : FieldDecl := ⟨"author", .named "User", .required, [action], none, 2⟩
    let post : Block := .model ⟨"Post", false, [author], [], none, 1⟩
    let user : Block := .model ⟨"User", false, [], [], none, 4⟩
    let role : Block := .enum ⟨"Role", [], [], none, 6⟩
    ∃ s s', resolve [post, user, role] = .ok s ∧ resolve [role, user, post] = .ok s' ∧
      s.models.Perm s'.models ∧ resolve [role, post, user] = .ok s := by
  intro action author post user role
  have hback : [post, user, role].Perm [role, user, post] := (List.reverse_perm _).symm
  have hfront : [post, user, role].Perm [role, post, user] :=
    List.perm_append_singleton role [post, user]
  obtain ⟨s, hs⟩ : ∃ s, resolve [post, user, role] = .ok s := ⟨_, by rfl⟩
  obtain ⟨s', hs'⟩ := (resolve_perm hback).1.mp ⟨s, hs⟩
  obtain ⟨-, hmodels, -⟩ := (resolve_perm hback).2 s s' hs hs'
  obtain ⟨t, ht⟩ := (resolve_perm hfront).1.mp ⟨s, hs⟩
  obtain ⟨-, -, -, -, -, hsame⟩ := (resolve_perm hfront).2 s t hs ht
  obtain rfl := hsame ⟨rfl, rfl, rfl, rfl⟩
  exact ⟨s, s', hs, hs', hmodels, ht⟩

end

end Datamodel
