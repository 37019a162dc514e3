import Datamodel.Proofs.Stability.Merged

/-! References between the declarations of a merged schema.

A text is loaded only if its fields name built-in types or models and enums of the same text. The
merge keeps the name of every model and every enum that some text declares, and replaces a field by
a whole field, so what a field refers to is there whatever texts are merged
(`refers_of_mem_merge`). -/

namespace Datamodel

/-- What the kind of a field says of its type and its relation, among the declarations of a
schema. -/
def Field.Refers (s : Schema) (f : Field) : Prop :=
  match f.kind with
  | .scalar => f.relation = none ∧ f.type ∈ scalarTypes
  | .object => f.relation.isSome = true ∧ ∃ m ∈ s.models, m.name = f.type
  | .enum => f.relation = none ∧ ∃ e ∈ s.enums, e.name = f.type
  | .unsupported => f.relation = none

instance (s : Schema) (f : Field) : Decidable (f.Refers s) := by
  unfold Field.Refers
  split <;> infer_instance

example : ¬(Field.ofEnum "role" "Role").Refers {} := by decide

section
variable {s : Schema} {name : String}

theorem Schema.object_mem_names : (name, .object) ∈ s.names ↔ ∃ m ∈ s.models, m.name = name := by
  simp [names]

theorem Schema.enum_mem_names : (name, .enum) ∈ s.names ↔ ∃ e ∈ s.enums, e.name = name := by
  simp [names]

theorem Schema.scalar_not_mem_names : (name, .scalar) ∉ s.names := by
  simp [names]

end

/-- The declared names of a schema hold what its fields refer to. -/
theorem Field.WellFormed.refers {s : Schema} {f : Field} (h : f.WellFormed s.names) :
    f.Refers s := by
  have hnone (hkind : f.kind ≠ .object) : f.relation = none := by
    cases hrelation : f.relation with
    | none => rfl
    | some r => exact absurd (h.object.mpr (by simp [hrelation])) hkind
  have hnames (hkind : f.kind = .object ∨ f.kind = .enum) : (f.type, f.kind) ∈ s.names := by
    rcases h.type with hunsupported | ⟨-, ⟨-, hscalar⟩ | ⟨-, hmem⟩⟩
    · simp [hunsupported] at hkind
    · simp [hscalar] at hkind
    · exact hmem
  unfold Field.Refers
  cases hkind : f.kind with
  | scalar =>
    rcases h.type with hunsupported | ⟨-, ⟨hscalar, -⟩ | ⟨-, hmem⟩⟩
    · exact absurd (hkind.symm.trans hunsupported) nofun
    · exact ⟨hnone (by simp [hkind]), hscalar⟩
    · exact absurd (hkind ▸ hmem) Schema.scalar_not_mem_names
  | object => exact ⟨h.object.mp hkind, Schema.object_mem_names.mp (hkind ▸ hnames (.inl hkind))⟩
  | enum => exact ⟨hnone (by simp [hkind]), Schema.enum_mem_names.mp (hkind ▸ hnames (.inr hkind))⟩
  | unsupported => exact hnone (by simp [hkind])

/-- **The references of a merge resolve.** Fields of models and of enums refer to models and enums
of the merged schema, and only fields of models have relations. -/
theorem refers_of_mem_merge {fragments : List Fragment}
    (hloaded : ∀ f ∈ fragments, ∃ source, Fragment.load f.origin source = .ok f) (policy : Policy) :
    ∀ m ∈ (merge fragments policy).models, ∀ f ∈ m.fields, f.Refers (merge fragments policy) := by
  have hwell : (merge fragments policy).WellFormed (merge fragments policy).names := by
    apply Schema.wellFormed_merge
    intro f hf
    obtain ⟨source, hsource⟩ := hloaded f hf
    exact Fragment.wellFormed_of_load hsource
  intro m hm f hf
  exact ((hwell.models m hm).fields f hf).refers

/-- The second text replaces a field of an enum by one of a model. The enum stays. -/
theorem refers_of_mem_merge_blog :
    let first := "model User \x7b\n  role Role\n\x7d\nenum Role \x7b\n  ADMIN\n\x7d\n"
    let second := "model User \x7b\n  role Post?\n\x7d\nmodel Post \x7b\n  by User\n\x7d\n"
    ∃ a b, Fragment.load "a.prisma" first = .ok a ∧ Fragment.load "b.prisma" second = .ok b ∧
      (merge [a, b]).models.map (fun m => m.fields.map fun f => (f.name, f.kind, f.type)) =
        [[("role", .object, "Post")], [("by", .object, "User")]] ∧
      ∀ m ∈ (merge [a, b]).models, ∀ f ∈ m.fields, f.Refers (merge [a, b]) := by
  intro first second
  let post : Field := {
    name := "role", kind := .object, type := "Post", isRequired := false
    relation := some { name := "PostToUser" } }
  let a : Fragment := ⟨"a.prisma", {
    models := [{ name := "User", fields := [Field.ofEnum "role" "Role"] }]
    enums := [Enum.ofNames "Role" ["ADMIN"]] }⟩
  let b : Fragment := ⟨"b.prisma", {
    models := [
      { name := "User", fields := [post] },
      { name := "Post", fields := [Field.object "by" "User" { name := "PostToUser" }] }] }⟩
  have ha : Fragment.load "a.prisma" first = .ok a := eq_ok_of_toOption (by decide +kernel)
  have hb : Fragment.load "b.prisma" second = .ok b := eq_ok_of_toOption (by decide +kernel)
  have hloaded : ∀ f ∈ [a, b], ∃ source, Fragment.load f.origin source = .ok f :=
    List.forall_mem_cons.mpr ⟨⟨first, ha⟩, List.forall_mem_singleton.mpr ⟨second, hb⟩⟩
  exact ⟨a, b, ha, hb, by decide, refers_of_mem_merge hloaded .last⟩

end Datamodel
