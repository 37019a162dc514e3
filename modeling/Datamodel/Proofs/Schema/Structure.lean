import Datamodel.Proofs.Schema.Models

/-! The structure of a printed schema, read back.

If the lines of each block can be read back, and the names and types of the blocks fit each other,
then the text of the schema is accepted and declares what is written of it
(`Schema.ofText_toText`). -/

namespace Datamodel

open Printer (unlines banner)

/-! ### Declared names -/

namespace Declaration

theorem firstRepeat_eq_none {ds : List Declaration} {seen : List String}
    (hseen : ∀ d ∈ ds, d.name ∉ seen) (h : (ds.map (·.name)).Nodup) :
    firstRepeat seen ds = none := by
  induction ds generalizing seen with
  | nil => rfl
  | cons d ds ih =>
    rw [List.map_cons, List.nodup_cons] at h
    rw [firstRepeat, if_neg (hseen d List.mem_cons_self)]
    refine ih (fun d' hd' hmem => ?_) h.2
    rcases List.mem_cons.mp hmem with heq | hmem
    · exact h.1 (heq ▸ List.mem_map_of_mem hd')
    · exact hseen d' (List.mem_cons_of_mem _ hd') hmem

end Declaration

/-- The kind of a field whose type has that name, the declared names being `names`. -/
def FieldKind.among? (names : List (String × FieldKind)) (name : String) : Option FieldKind :=
  if name ∈ scalarTypes then some .scalar else (names.find? (·.1 == name)).map (·.2)

theorem FieldKind.ofName?_eq_among? (declared : List Declaration) (name : String) :
    ofName? declared name = among? (declared.map fun d => (d.name, d.kind)) name := by
  rw [ofName?, among?, List.find?_map, Option.map_map]
  rfl

theorem FieldKind.among?_scalar {names : List (String × FieldKind)} {name : String}
    (h : name ∈ scalarTypes) : among? names name = some .scalar := if_pos h

/-- A declared name is of the kind that it is declared with, if no name is declared twice. -/
theorem FieldKind.among?_of_mem {names : List (String × FieldKind)} {name : String}
    {kind : FieldKind} (hscalar : name ∉ scalarTypes) (hnodup : (names.map (·.1)).Nodup)
    (h : (name, kind) ∈ names) : among? names name = some kind := by
  rw [among?, if_neg hscalar]
  induction names with
  | nil => cases h
  | cons p names ih =>
    rw [List.map_cons, List.nodup_cons] at hnodup
    rcases List.mem_cons.mp h with rfl | h
    · simp
    · have hne : p.1 ≠ name := fun e => hnodup.1 (e ▸ List.mem_map_of_mem (f := Prod.fst) h)
      rw [List.find?_cons_of_neg (by simpa using hne)]
      exact ih hnodup.2 h

/-! ### Schemas piece by piece -/

namespace Schema

/-- Schemas one after the other. -/
def sum (ss : List Schema) : Schema := ss.foldr (· ++ ·) {}

theorem append_assoc (s t u : Schema) : s ++ t ++ u = s ++ (t ++ u) := by
  show append (append s t) u = append s (append t u)
  simp [append]

theorem sum_append (ss ts : List Schema) : sum (ss ++ ts) = sum ss ++ sum ts := by
  induction ss with
  | nil => rfl
  | cons s ss ih =>
    show s ++ sum (ss ++ ts) = s ++ sum ss ++ sum ts
    rw [ih, append_assoc]

/-- Schemas that hold one declaration each, of one kind. -/
theorem sum_map {α : Type} (one : α → Schema) (all : List α → Schema) (hnil : all [] = {})
    (hcons : ∀ x xs, one x ++ all xs = all (x :: xs)) (xs : List α) :
    sum (xs.map one) = all xs := by
  induction xs with
  | nil => exact hnil.symm
  | cons x xs ih =>
    show one x ++ sum (xs.map one) = all (x :: xs)
    rw [ih, hcons]

/-- The schemas of the blocks of a text, in the order in which they are printed. -/
def pieces (s : Schema) : List Schema :=
  s.datasources.map (fun d => { datasources := [d] }) ++
    s.generators.map (fun g => { generators := [g] }) ++
    s.models.map (fun m => { models := [m] }) ++ s.enums.map fun e => { enums := [e] }

theorem sum_pieces (s : Schema) : sum s.pieces = s := by
  have hdatasources := sum_map (fun d => { datasources := [d] })
    (fun ds => { datasources := ds }) rfl (fun _ _ => rfl) s.datasources
  have hgenerators := sum_map (fun g => { generators := [g] })
    (fun gs => { generators := gs }) rfl (fun _ _ => rfl) s.generators
  have hmodels := sum_map (fun m => { models := [m] })
    (fun ms => { models := ms }) rfl (fun _ _ => rfl) s.models
  have henums := sum_map (fun e => { enums := [e] })
    (fun es => { enums := es }) rfl (fun _ _ => rfl) s.enums
  rw [pieces, sum_append, sum_append, sum_append, hdatasources, hgenerators, hmodels, henums]
  show append (append (append _ _) _) _ = s
  simp [append]

theorem flatMap_names_pieces (s : Schema) : s.pieces.flatMap names = s.names := by
  have hnil {α : Type} (xs : List α) : xs.flatMap (fun _ => ([] : List (String × FieldKind))) = [] :=
    List.flatMap_eq_nil_iff.mpr fun _ _ => rfl
  simp only [pieces, List.flatMap_append, List.flatMap_map]
  simp [names, ← List.map_eq_flatMap, hnil]

theorem flatMap_models_pieces (s : Schema) : s.pieces.flatMap (·.models) = s.models := by
  have hnil {α : Type} (xs : List α) : xs.flatMap (fun _ => ([] : List Model)) = [] :=
    List.flatMap_eq_nil_iff.mpr fun _ _ => rfl
  simp [pieces, List.flatMap_map, hnil]

theorem mem_models_of_pieces {s t : Schema} {m : Model} (ht : t ∈ s.pieces) (hm : m ∈ t.models) :
    m ∈ s.models := by
  simp only [pieces, List.mem_append, List.mem_map] at ht
  rcases ht with ((⟨d, _, rfl⟩ | ⟨g, _, rfl⟩) | ⟨m', hm', rfl⟩) | ⟨e, _, rfl⟩
  · cases hm
  · cases hm
  · rw [List.mem_singleton.mp hm]
    exact hm'
  · cases hm

end Schema

/-! ### Resolving blocks -/

section
variable {blocks : List Block} {ss : List Schema}

theorem Block.map_declarations (h : List.Forall₂ (fun (b : Block) (s : Schema) =>
      (b.declaration?.map fun d => (d.name, d.kind)).toList = s.names) blocks ss) :
    (blocks.filterMap Block.declaration?).map (fun d => (d.name, d.kind)) =
      ss.flatMap Schema.names := by
  induction h with
  | nil => rfl
  | @cons b s blocks ss hb _ ih =>
    rw [List.flatMap_cons, ← ih, ← hb, List.filterMap_cons]
    cases b.declaration? <;> rfl

theorem Schema.ofBlocks_of_declares
    (h : List.Forall₂ (fun b s => Block.Declares s b) blocks ss) {declared : List Declaration}
    (hkinds : ∀ s ∈ ss, s.KindsIn declared) : Schema.ofBlocks declared blocks = .ok (sum ss) := by
  induction h with
  | nil => rfl
  | @cons b s blocks ss hb _ ih =>
    have ih := ih fun s' hs' => hkinds s' (List.mem_cons_of_mem _ hs')
    rw [ofBlocks, hb.resolve declared (hkinds s List.mem_cons_self), ih]
    rfl

/-- **Blocks are resolved** if no name is declared twice and all types are declared. -/
theorem resolve_of_declares (h : List.Forall₂ (fun b s => Block.Declares s b) blocks ss)
    (hnames : ((ss.flatMap Schema.names).map (·.1)).Nodup)
    (hkinds : ∀ s ∈ ss, ∀ m ∈ s.models, ∀ f ∈ m.fields,
      FieldKind.among? (ss.flatMap Schema.names) f.type = some f.kind) :
    resolve blocks = .ok (Schema.sum ss) := by
  have hdeclared := Block.map_declarations (h.imp fun _ _ hb => hb.names)
  have hnodup : ((blocks.filterMap Block.declaration?).map (·.name)).Nodup := by
    rw [← hdeclared, List.map_map] at hnames
    exact hnames
  have hblocks : Declaration.ofBlocks blocks = .ok (blocks.filterMap Block.declaration?) := by
    rw [Declaration.ofBlocks, Declaration.firstRepeat_eq_none (fun _ _ => List.not_mem_nil) hnodup]
  rw [resolve, hblocks]
  refine Schema.ofBlocks_of_declares h fun s hs m hm f hf => ?_
  rw [FieldKind.ofName?_eq_among?, hdeclared]
  exact hkinds s hs m hm f hf

end

/-! ### The text of a schema -/

/-- A model whose lines are read back as the model `m'`. -/
def Model.ReadsAs (m m' : Model) : Prop :=
  ∃ secondary fields, m.Lexical secondary ∧ List.Forall₂ Field.ReadsAs m.fields fields ∧
    m' = m.written fields

/-- The lines of models, one model after the other. -/
theorem Model.mapM_lines {β : Type} {P : β → List String → Prop} {ms : List Model} {bs : List β}
    (h : List.Forall₂ (fun m b => ∃ ls, m.lines = .ok ls ∧ P b ls) ms bs) :
    ∃ blocks, ms.mapM Model.lines = .ok blocks ∧ List.Forall₂ (fun ls b => P b ls) blocks bs := by
  induction h with
  | nil => exact ⟨[], rfl, .nil⟩
  | cons hm _ ih =>
    obtain ⟨ls, hls, hblock⟩ := hm
    obtain ⟨blocks, hblocks, ih⟩ := ih
    exact ⟨ls :: blocks, mapM_cons_of_ok hls hblocks, .cons hblock ih⟩

theorem Model.ReadsAs.blockLines {m m' : Model} (h : m.ReadsAs m') :
    ∃ ls, m.lines = .ok ls ∧ BlockLines ls (Block.Declares { models := [m'] }) := by
  obtain ⟨secondary, fields, hlexical, hfields, rfl⟩ := h
  exact Model.blockLines hlexical hfields

theorem Schema.nodup_of_names {s : Schema} (h : (s.names.map (·.1)).Nodup) :
    (s.models.map (·.name)).Nodup ∧ (s.enums.map (·.name)).Nodup := by
  simp only [names, List.map_append, List.map_map] at h
  exact ⟨(List.nodup_append.mp h).1, (List.nodup_append.mp h).2.1⟩

/-- The names that the models and enums of a schema declare, and the kinds of its fields, fit each
other. -/
structure Schema.Consistent (s : Schema) : Prop where
  names : (s.names.map (·.1)).Nodup
  kinds : ∀ m ∈ s.models, ∀ f ∈ m.fields, FieldKind.among? s.names f.type = some f.kind

/-- **The structure of a printed schema is read back.** -/
theorem Schema.ofText_toText {s t : Schema} (hmodels : List.Forall₂ Model.ReadsAs s.models t.models)
    (henums : ∀ e ∈ s.enums, e.Lexical) (htenums : t.enums = s.enums.map Enum.written)
    (hdatasources : ∀ d ∈ s.datasources, BlockLines d.lines (Block.Declares { datasources := [d] }))
    (htdatasources : t.datasources = s.datasources)
    (hgenerators : ∀ g ∈ s.generators, BlockLines g.lines (Block.Declares { generators := [g] }))
    (htgenerators : t.generators = s.generators) (ht : t.Consistent) :
    ∃ text, s.toText = .ok text ∧ Schema.ofText text = .ok t := by
  obtain ⟨models, hlines, hmodelBlocks⟩ :=
    Model.mapM_lines (hmodels.imp fun _ _ => Model.ReadsAs.blockLines)
  have hblocks : List.Forall₂ (fun ls s => BlockLines ls (Block.Declares s)) (s.blocksWith models)
      t.pieces := by
    rw [pieces, htdatasources, htgenerators, htenums, List.map_map]
    exact forall₂_blocksWith hdatasources hgenerators (List.forall₂_map_right_iff.mpr hmodelBlocks)
      fun e he => Enum.blockLines (henums e he)
  obtain ⟨bs, hbs, hdeclares⟩ := Block.ofText_unlines hblocks
  refine ⟨_, by rw [toText_eq, lines, hlines]; rfl, ?_⟩
  rw [ofText, hbs]
  have hresolve := resolve_of_declares hdeclares (by rw [flatMap_names_pieces]; exact ht.names)
    (by
      rw [flatMap_names_pieces]
      exact fun u hu m hm f hf => ht.kinds m (mem_models_of_pieces hu hm) f hf)
  rw [sum_pieces] at hresolve
  exact hresolve

end Datamodel
