import Datamodel.Proofs.Loading.Defaults
import Datamodel.Proofs.Merge.Keys

/-! Which merged fields have a default that fits their kind.

In a loaded fragment only a field of an enum has a value of an enum for a default
(`Field.DefaultFits`). The merge takes the kind of a field from its last declaration, and a default
that this one leaves open from an earlier one, whatever the kind was there. So the default fits
unless the last declaration is of another kind and leaves open what an earlier one gave as a value
of an enum (`defaultFits_merge`). -/

namespace Datamodel

theorem Expr.kind_of_toDefault {kind : FieldKind} {e : Expr} {value : String}
    (h : e.toDefault kind = .member value) : kind = .enum := by
  unfold toDefault at h
  split at h <;> try cases h
  split at h
  · assumption
  · cases h

namespace Field

/-- Only a field of an enum has a value of an enum for a default. -/
def DefaultFits (f : Field) : Prop := ∀ value, f.default = some (.member value) → f.kind = .enum

theorem DeclaredBy.defaultFits {declared : List Declaration} {model : String} {d : FieldDecl}
    {f : Field} (h : f.DeclaredBy declared model d) : f.DefaultFits := by
  intro value hvalue
  rw [h.default] at hvalue
  obtain ⟨e, -, he⟩ := Option.map_eq_some_iff.mp hvalue
  exact Expr.kind_of_toDefault he

end Field

/-- The fields of a loaded fragment have defaults that fit them. -/
theorem Fragment.defaultFits_of_load {origin source : String} {fragment : Fragment}
    (h : Fragment.load origin source = .ok fragment) :
    ∀ m ∈ fragment.schema.models, ∀ f ∈ m.fields, f.DefaultFits := by
  obtain ⟨blocks, hblocks⟩ := exists_blocks_of_load h
  obtain ⟨declared, -, hmodels⟩ := declaredBy_of_load h hblocks
  intro m hm f hf
  obtain ⟨b, -, -, hfields⟩ := exists_of_forall₂_right hmodels m hm
  obtain ⟨d, -, hd⟩ := exists_of_forall₂_right hfields f hf
  exact hd.defaultFits

/-! ### The declarations of a merged field -/

namespace Field

/-- The declarations that each field comes from when the fields `more` are merged into `fields`:
the first field of a name takes in all that are to come, and names that are new are put at the
end. -/
def chains : List Field → List Field → List (List Field)
  | [], more => (more.map (·.name)).eraseDups.map fun name => more.filter (·.name = name)
  | f :: fields, more =>
    (f :: more.filter (·.name = f.name)) :: chains fields (more.filter (·.name ≠ f.name))

/-- The declarations of a chain amount to the field `f`, the last of them being `last`. -/
def AmountsTo (chain : List Field) (f : Field) : Prop :=
  ∃ earlier last, chain = earlier ++ [last] ∧ f = ofDeclarations earlier last

theorem amountsTo_of_combineAll {chain : List Field} {f : Field}
    (h : combineAll inherit chain = some f) : AmountsTo chain f := by
  rcases List.eq_nil_or_concat' chain with rfl | ⟨earlier, last, rfl⟩
  · cases h
  · rw [combineAll_inherit] at h
    exact ⟨earlier, last, rfl, (Option.some.inj h).symm⟩

theorem forall₂_map_filterMap {α β γ : Type} {R : β → γ → Prop} {g : α → β} {g' : α → Option γ}
    {xs : List α} (h : ∀ x ∈ xs, ∃ y, g' x = some y ∧ R (g x) y) :
    List.Forall₂ R (xs.map g) (xs.filterMap g') := by
  induction xs with
  | nil => exact .nil
  | cons x xs ih =>
    obtain ⟨⟨y, hy, hR⟩, hxs⟩ := List.forall_mem_cons.mp h
    rw [List.filterMap_cons_some hy]
    exact .cons hR (ih hxs)

/-- **Each merged field comes from the declarations of its chain.** -/
theorem forall₂_foldl_mergeField (fields more : List Field) :
    List.Forall₂ AmountsTo (chains fields more) (more.foldl mergeField fields) := by
  induction fields generalizing more with
  | nil =>
    have hfold : more.foldl mergeField [] = combineByKey Field.name inherit more :=
      foldl_upsert name_inherit more
    rw [hfold, chains, combineByKey]
    refine forall₂_map_filterMap fun name hname => ?_
    obtain ⟨f, hf, rfl⟩ := List.mem_map.mp (List.mem_eraseDups.mp hname)
    have hmem : f ∈ more.filter (·.name = f.name) := by simp [hf]
    obtain ⟨first, later, hchain⟩ := List.exists_cons_of_ne_nil (List.ne_nil_of_mem hmem)
    exact ⟨_, by rw [hchain]; rfl, amountsTo_of_combineAll (by rw [hchain]; rfl)⟩
  | cons f fields ih =>
    have hfold : more.foldl mergeField (f :: fields) =
        (more.filter (·.name = f.name)).foldl inherit f ::
          (more.filter (·.name ≠ f.name)).foldl mergeField fields :=
      foldl_upsert_cons name_inherit more f fields
    rw [hfold, chains]
    exact .cons (amountsTo_of_combineAll rfl) (ih _)

/-- The default of a field fits unless it is a value of an enum that only an earlier declaration
gives, and the last one is of another kind. -/
theorem defaultFits_ofDeclarations_iff {earlier : List Field} {last : Field}
    (h : last.DefaultFits) : (ofDeclarations earlier last).DefaultFits ↔
      (last.default = none → ∀ value,
        (earlier.filterMap (·.default)).getLast? = some (.member value) → last.kind = .enum) := by
  have hdefault : (ofDeclarations earlier last).default =
      last.default.or (earlier.filterMap (·.default)).getLast? :=
    getLast?_filterMap_concat (·.default) earlier last
  unfold DefaultFits
  rw [hdefault]
  cases hlast : last.default with
  | none => simp [ofDeclarations]
  | some d =>
    simp only [Option.some_or, reduceCtorEq, false_implies, iff_true]
    intro value hvalue
    exact h value (hlast.trans hvalue)

/-- Chains hold fields of both lists, and no others. -/
theorem mem_of_mem_chains {fields more chain : List Field} {f : Field}
    (hchain : chain ∈ chains fields more) (hf : f ∈ chain) : f ∈ fields ++ more := by
  induction fields generalizing more with
  | nil =>
    obtain ⟨name, -, rfl⟩ := List.mem_map.mp hchain
    exact List.mem_of_mem_filter hf
  | cons g fields ih =>
    rcases List.mem_cons.mp hchain with rfl | hchain
    · rcases List.mem_cons.mp hf with rfl | hf
      · exact List.mem_cons_self
      · exact List.mem_append_right _ (List.mem_of_mem_filter hf)
    · rcases List.mem_append.mp (ih hchain) with hmem | hmem
      · exact List.mem_cons_of_mem _ (List.mem_append_left _ hmem)
      · exact List.mem_append_right _ (List.mem_of_mem_filter hmem)

end Field

/-- The fields of declarations that are merged into `m`. -/
theorem Model.fields_foldl_merge (m : Model) (later : List Model) :
    (later.foldl merge m).fields = (later.flatMap (·.fields)).foldl mergeField m.fields := by
  induction later generalizing m with
  | nil => rfl
  | cons n later ih =>
    have hfields : (m.merge n).fields = n.fields.foldl mergeField m.fields := by
      rw [merge, foldl_mergeUniqueIndex]
    rw [List.foldl_cons, ih, hfields, List.flatMap_cons, List.foldl_append]

/-! ### The whole merge -/

/-- **Defaults of a merge.** In a loaded fragment only fields of enums have values of enums for
defaults. A merged field comes from a chain of declarations, and so does its default: it fits the
field unless the last declaration of the chain gives none and is not of an enum, while the last
default before it is a value of an enum. -/
theorem defaultFits_merge {fragments : List Fragment}
    (hloaded : ∀ f ∈ fragments, ∃ source, Fragment.load f.origin source = .ok f) (policy : Policy) :
    (∀ fragment ∈ fragments, ∀ m ∈ fragment.schema.models, ∀ f ∈ m.fields, f.DefaultFits) ∧
    ∀ m ∈ (merge fragments policy).models, ∃ first later,
      (declaredModels fragments).filter (·.name = m.name) = first :: later ∧
      List.Forall₂ (fun chain f => ∃ earlier last, chain = earlier ++ [last] ∧
          f = Field.ofDeclarations earlier last ∧
          (f.DefaultFits ↔ (last.default = none → ∀ value,
            (earlier.filterMap (·.default)).getLast? = some (.member value) → last.kind = .enum)))
        (Field.chains first.fields (later.flatMap (·.fields))) m.fields := by
  have hfits : ∀ fragment ∈ fragments, ∀ m ∈ fragment.schema.models, ∀ f ∈ m.fields,
      f.DefaultFits := by
    intro fragment hfragment
    obtain ⟨source, hsource⟩ := hloaded fragment hfragment
    exact Fragment.defaultFits_of_load hsource
  refine ⟨hfits, fun m hm => ?_⟩
  have hmodel := (mem_mergeModels_iff fragments).mp hm
  rw [find?_mergeModels] at hmodel
  cases hdecls : (declaredModels fragments).filter (·.name = m.name) with
  | nil =>
    rw [hdecls] at hmodel
    cases hmodel
  | cons first later =>
    have hdeclared : ∀ f ∈ first.fields ++ later.flatMap (·.fields), f.DefaultFits := by
      intro f hf
      obtain ⟨d, hd, hf⟩ := (List.mem_flatMap (l := first :: later)).mp hf
      have hmem : d ∈ declaredModels fragments := List.mem_of_mem_filter (hdecls ▸ hd)
      obtain ⟨fragment, hfragment, hd⟩ := List.mem_flatMap.mp hmem
      exact hfits fragment hfragment d hd f hf
    have hfields : m.fields = (later.flatMap (·.fields)).foldl mergeField first.fields := by
      rw [hdecls] at hmodel
      rw [← Option.some.inj hmodel, Model.fields_foldl_merge]
    have hchains := (List.forall₂_and_left _ _).mpr ⟨fun chain hchain f hf =>
      hdeclared f (Field.mem_of_mem_chains hchain hf), Field.forall₂_foldl_mergeField _ _⟩
    refine ⟨first, later, rfl, hfields ▸ hchains.imp ?_⟩
    rintro _ f ⟨hchain, earlier, last, rfl, hf⟩
    have hlast : last.DefaultFits := hchain last (by simp)
    exact ⟨earlier, last, rfl, hf, hf ▸ Field.defaultFits_ofDeclarations_iff hlast⟩

/-- The second text leaves the default of a field to the first. The field is of an enum in both. -/
theorem defaultFits_merge_users :
    let first := "model User \x7b\n  role Role @default(GUEST)\n\x7d\nenum Role \x7b\n  GUEST\n\x7d\n"
    let second := "model User \x7b\n  role Role?\n\x7d\nenum Role \x7b\n  ADMIN\n\x7d\n"
    ∃ a b, Fragment.load "a.prisma" first = .ok a ∧ Fragment.load "b.prisma" second = .ok b ∧
      (merge [a, b]).models.map (fun m => m.fields.map (·.default)) = [[some (.member "GUEST")]] ∧
      ∀ m ∈ (merge [a, b]).models, ∀ f ∈ m.fields, f.DefaultFits := by
  intro first second
  let role : Field := Field.ofEnum "role" "Role"
  let user (f : Field) : Model := { name := "User", fields := [f] }
  let a : Fragment := ⟨"a.prisma", {
    models := [user (role.withDefault (.member "GUEST"))], enums := [Enum.ofNames "Role" ["GUEST"]] }⟩
  let b : Fragment := ⟨"b.prisma", {
    models := [user role.asOptional], enums := [Enum.ofNames "Role" ["ADMIN"]] }⟩
  have ha : Fragment.load "a.prisma" first = .ok a := Fragment.load_of_chars (by decide +kernel)
  have hb : Fragment.load "b.prisma" second = .ok b := Fragment.load_of_chars (by decide +kernel)
  have hloaded : ∀ f ∈ [a, b], ∃ source, Fragment.load f.origin source = .ok f :=
    List.forall_mem_cons.mpr ⟨⟨first, ha⟩, List.forall_mem_singleton.mpr ⟨second, hb⟩⟩
  obtain ⟨-, hmerged⟩ := defaultFits_merge hloaded .last
  refine ⟨a, b, ha, hb, by decide, fun m hm f hf => ?_⟩
  obtain ⟨d, later, hdecls, hfields⟩ := hmerged m hm
  obtain ⟨chain, hchain, earlier, last, rfl, -, hiff⟩ := exists_of_forall₂_right hfields f hf
  rw [hiff]
  have hlast : last ∈ (d :: later).flatMap (·.fields) :=
    Field.mem_of_mem_chains hchain (by simp)
  obtain ⟨d', hd', hlast⟩ := List.mem_flatMap.mp hlast
  have hkinds : ∀ d ∈ declaredModels [a, b], ∀ f ∈ d.fields, f.kind = .enum := by decide
  have hkind := hkinds d' (List.mem_of_mem_filter (hdecls ▸ hd')) last hlast
  exact fun _ _ _ => hkind

/-- **A merged default need not fit.** The second text gives the field another type and leaves the
default of the first in place. -/
theorem not_defaultFits_merge : ∃ a b,
    Fragment.load "a.prisma"
      "enum Role \x7b\n  USER\n\x7d\nmodel A \x7b\n  role Role @default(USER)\n\x7d\n" = .ok a ∧
    Fragment.load "b.prisma" "model A \x7b\n  role String\n\x7d\n" = .ok b ∧
    ¬∀ m ∈ (merge [a, b]).models, ∀ f ∈ m.fields, f.DefaultFits := by
  let role : Field := (Field.ofEnum "role" "Role").withDefault (.member "USER")
  let a : Fragment := ⟨"a.prisma", {
    models := [{ name := "A", fields := [role] }], enums := [Enum.ofNames "Role" ["USER"]] }⟩
  let b : Fragment := ⟨"b.prisma", {
    models := [{ name := "A", fields := [Field.scalar "role" "String"] }] }⟩
  refine ⟨a, b, ?_, ?_, fun h => ?_⟩
  · exact Fragment.load_of_chars (by decide +kernel)
  · exact Fragment.load_of_chars (by decide +kernel)
  · let merged : Field := (Field.scalar "role" "String").withDefault (.member "USER")
    have hmerged : (merge [a, b]).models = [{ name := "A", fields := [merged] }] := by decide
    rw [hmerged] at h
    exact absurd (h _ List.mem_cons_self merged List.mem_cons_self "USER" rfl) (by decide)

end Datamodel
