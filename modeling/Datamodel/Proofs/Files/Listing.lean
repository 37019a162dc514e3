import Datamodel.Inputs
import Datamodel.Proofs.Files.WellFormed
import Mathlib.Data.List.Sort
import Mathlib.Order.RelClasses
import Mathlib.Data.String.Basic
import Mathlib.Data.List.Lex

/-! What is below a folder, sorted.

Locations are listed in a linear order, so two trees that have the same below a folder list the
same (`eq_of_sorted`). Paths are listed in a linear order of their components, and
leaving out paths before sorting or after makes no difference (`filter_mergeSort`). -/

namespace Datamodel

/-! ### Sorting -/

section
variable {α : Type} {le : α → α → Bool}

/-- Two halves are told apart by a test that the first passes and the second fails. -/
theorem filter_append_of_split {q : α → Bool} {xs ys : List α} (hxs : ∀ x ∈ xs, q x = true)
    (hys : ∀ y ∈ ys, q y = false) : (xs ++ ys).filter q = xs := by
  rw [List.filter_append, List.filter_eq_self.mpr hxs,
    List.filter_eq_nil_iff.mpr (by simpa using hys), List.append_nil]

/-- **Sorting and leaving out** may change places. -/
theorem filter_mergeSort (htrans : ∀ a b c, le a b = true → le b c = true → le a c = true)
    (htotal : ∀ a b, (le a b || le b a) = true) (p : α → Bool) (xs : List α) :
    (xs.mergeSort le).filter p = (xs.filter p).mergeSort le := by
  induction xs with
  | nil => rw [List.mergeSort_nil, List.filter_nil, List.mergeSort_nil]
  | cons a xs ih =>
    obtain ⟨before, after, hsorted, hrest, hbefore⟩ := List.mergeSort_cons htrans htotal a xs
    by_cases ha : p a = true
    · -- What stands before `a` is what does not come after it, in both lists.
      obtain ⟨before', after', hsorted', hrest', hbefore'⟩ :=
        List.mergeSort_cons htrans htotal a (xs.filter p)
      have hafter (ys zs : List α) (l : List α) (h : l.mergeSort le = ys ++ a :: zs) :
          ∀ b ∈ zs, (!le a b) = false := by
        have hpairwise := List.pairwise_mergeSort htrans htotal l
        rw [h, List.pairwise_append, List.pairwise_cons] at hpairwise
        simpa using hpairwise.2.1.1
      have heq : before.filter p ++ after.filter p = before' ++ after' := by
        rw [← List.filter_append, ← hrest, ih, hrest']
      have hfirst : before.filter p = before' := by
        have h := congrArg (List.filter fun b => !le a b) heq
        rwa [filter_append_of_split (fun b hb => hbefore b (List.mem_of_mem_filter hb))
            (fun b hb => hafter _ _ _ hsorted b (List.mem_of_mem_filter hb)),
          filter_append_of_split hbefore' (hafter _ _ _ hsorted')] at h
      rw [hfirst, List.append_cancel_left_eq] at heq
      rw [hsorted, List.filter_cons_of_pos ha, hsorted', List.filter_append,
        List.filter_cons_of_pos ha, hfirst, heq]
    · rw [hsorted, List.filter_cons_of_neg ha, List.filter_append, List.filter_cons_of_neg ha,
        ← List.filter_append, ← hrest, ih]

/-- Lists sorted in a linear order are equal if they have the same members, each once. -/
theorem eq_of_sorted {xs ys : List α} (hanti : ∀ a b, le a b = true → le b a = true → a = b)
    (hxs : xs.Pairwise fun a b => le a b = true) (hys : ys.Pairwise fun a b => le a b = true)
    (hnodup : xs.Nodup) (hnodup' : ys.Nodup) (hmem : ∀ a, a ∈ xs ↔ a ∈ ys) : xs = ys :=
  List.Perm.eq_of_pairwise (fun a b _ _ => hanti a b) hxs hys
    ((List.perm_ext_iff_of_nodup hnodup hnodup').mpr hmem)

end

/-! ### Orders -/

section
variable {α : Type} [DecidableEq α] {lt : α → α → Bool}

/-- Lists in the order of their first difference. -/
theorem lex_trans [Std.Trichotomous fun a b => lt a b = true]
    [IsOrderConnected α fun a b => lt a b = true] {as bs cs : List α}
    (hab : (!List.lex bs as lt) = true) (hbc : (!List.lex cs bs lt) = true) :
    (!List.lex cs as lt) = true := by
  rw [Bool.not_eq_true', List.lex_eq_false_iff_not_lex] at hab hbc ⊢
  have hconnected := List.Lex.isOrderConnected fun a b => lt a b = true
  intro h
  exact (hconnected.conn _ bs _ h).elim hbc hab

theorem lex_total [Std.Asymm fun a b => lt a b = true] (as bs : List α) :
    (!List.lex bs as lt || !List.lex as bs lt) = true := by
  rw [Bool.or_eq_true, Bool.not_eq_true', Bool.not_eq_true', List.lex_eq_false_iff_not_lex,
    List.lex_eq_false_iff_not_lex, ← not_and_or]
  rintro ⟨hba, hab⟩
  exact (List.Lex.asymm fun a b => lt a b = true).asymm _ _ hba hab

theorem lex_antisymm [Std.Trichotomous fun a b => lt a b = true] {as bs : List α}
    (hab : (!List.lex bs as lt) = true) (hba : (!List.lex as bs lt) = true) : as = bs := by
  rw [Bool.not_eq_true', List.lex_eq_false_iff_not_lex] at hab hba
  exact (List.Lex.trichotomous fun a b => lt a b = true).trichotomous _ _ hba hab

end

/-- Steps are in the order of their keys. -/
theorem Path.Step.before_iff {a b : Step} : before a b = true ↔
    a.key.1 < b.key.1 ∨ a.key.1 = b.key.1 ∧ a.key.2 < b.key.2 := by
  simp [before]

instance : Std.Asymm fun a b => Path.Step.before a b = true where
  asymm a b hab hba := by
    rw [Path.Step.before_iff] at hab hba
    rcases hab with hab | ⟨heq, hab⟩
    · omega
    · rcases hba with hba | ⟨-, hba⟩
      · omega
      · exact lt_asymm hab hba

instance : Std.Trichotomous fun a b => Path.Step.before a b = true where
  trichotomous a b hab hba := by
    rw [Path.Step.before_iff, not_or, not_and] at hab hba
    have hkind : a.key.1 = b.key.1 := by omega
    have hname : a.key.2 = b.key.2 :=
      le_antisymm (not_lt.mp (hba.2 hkind.symm)) (not_lt.mp (hab.2 hkind))
    cases a <;> cases b <;> simp_all [Path.Step.key]

instance : IsOrderConnected Path.Step fun a b => Path.Step.before a b = true where
  conn a b c hac := by
    simp only [Path.Step.before_iff] at hac ⊢
    rcases lt_trichotomy a.key.1 b.key.1 with hab | hab | hab
    · exact .inl (.inl hab)
    · rcases hac with hac | ⟨hac, hname⟩
      · exact .inr (.inl (hab ▸ hac))
      · rcases lt_or_ge a.key.2 b.key.2 with hab' | hba
        · exact .inl (.inr ⟨hab, hab'⟩)
        · exact .inr (.inr ⟨hab ▸ hac, lt_of_le_of_lt hba hname⟩)
    · exact .inr (.inl (by omega))

theorem Path.le_trans (p q r : Path) (hpq : p.le q = true) (hqr : q.le r = true) :
    p.le r = true :=
  lex_trans hpq hqr

theorem Path.le_total (p q : Path) : (p.le q || q.le p) = true :=
  lex_total p.components q.components

instance asymm_string : Std.Asymm fun a b : String => decide (a < b) = true where
  asymm _ _ hab hba := lt_asymm (of_decide_eq_true hab) (of_decide_eq_true hba)

instance trichotomous_string : Std.Trichotomous fun a b : String => decide (a < b) = true where
  trichotomous _ _ hab hba :=
    le_antisymm (not_lt.mp fun h => hba (decide_eq_true h))
      (not_lt.mp fun h => hab (decide_eq_true h))

instance isOrderConnected_string : IsOrderConnected String fun a b => decide (a < b) = true where
  conn a b c hac := by
    simp only [decide_eq_true_eq] at hac ⊢
    rcases lt_or_ge a b with hab | hba
    · exact .inl hab
    · exact .inr (lt_of_le_of_lt hba hac)

theorem Location.le_trans (a b c : Location) (hab : a.le b = true) (hbc : b.le c = true) :
    a.le c = true :=
  lex_trans hab hbc

theorem Location.le_total (a b : Location) : (a.le b || b.le a) = true := lex_total a b

theorem Location.le_antisymm (a b : Location) (hab : a.le b = true) (hba : b.le a = true) :
    a = b :=
  lex_antisymm hab hba

/-! ### Folders -/

namespace FileTree

variable {t t' : FileTree} {loc way : Location}

/-- The ways to the schema files below a location, sorted. -/
def schemaFiles (t : FileTree) (loc : Location) : List Location :=
  ((t.below loc).filterMap fun
    | (way, .file _) => if way.getLast?.any isSchemaName then some way else none
    | (_, .folder) => none).mergeSort Location.le

theorem schemaFile_iff {x : Location × Entry} :
    (match x with
      | (way, .file _) => if way.getLast?.any isSchemaName then some way else none
      | (_, .folder) => none) = some way ↔
    x.1 = way ∧ way.getLast?.any isSchemaName = true ∧ ∃ c, x.2 = .file c := by
  obtain ⟨w, e⟩ := x
  cases e <;> grind

/-- The ways to what is below a location, sorted. -/
def ways (t : FileTree) (loc : Location) : List Location := (t.sortedBelow loc).map (·.1)

namespace WellFormed

theorem mem_ways (h : t.WellFormed) :
    way ∈ t.ways loc ↔ way ≠ [] ∧ ∃ e, t.lookup? (loc ++ way) = some e := by
  simp only [ways, sortedBelow, List.mem_map, List.mem_mergeSort, Prod.exists, h.mem_below]
  grind

theorem nodup_below (h : t.WellFormed) (loc : Location) : ((t.below loc).map (·.1)).Nodup := by
  rw [List.Nodup, List.pairwise_map, below, List.pairwise_filterMap]
  have hentries := h.nodup
  rw [List.Nodup, List.pairwise_map] at hentries
  refine hentries.imp fun {x y} hne a ha b hb heq => hne ?_
  rw [(of_below ha).2, (of_below hb).2, heq]

theorem nodup_ways (h : t.WellFormed) (loc : Location) : (t.ways loc).Nodup :=
  ((List.mergeSort_perm _ _).map _).nodup_iff.mpr (h.nodup_below loc)

theorem nodup_schemaFiles (h : t.WellFormed) (loc : Location) : (t.schemaFiles loc).Nodup := by
  rw [schemaFiles, List.nodup_mergeSort, List.Nodup, List.pairwise_filterMap]
  have hbelow := h.nodup_below loc
  rw [List.Nodup, List.pairwise_map] at hbelow
  refine hbelow.imp fun {x y} hne a ha b hb heq => hne ?_
  exact (schemaFile_iff.mp ha).1.trans (heq.trans (schemaFile_iff.mp hb).1.symm)

theorem mem_schemaFiles (h : t.WellFormed) : way ∈ t.schemaFiles loc ↔
    way.getLast?.any isSchemaName = true ∧ ∃ c, t.lookup? (loc ++ way) = some (.file c) := by
  rw [schemaFiles, List.mem_mergeSort, List.mem_filterMap]
  constructor
  · rintro ⟨⟨w, e⟩, hx, hway⟩
    obtain ⟨rfl, hname, c, rfl⟩ := schemaFile_iff.mp hway
    exact ⟨hname, c, (h.mem_below.mp hx).2⟩
  · rintro ⟨hname, c, hc⟩
    have hne : way ≠ [] := by
      rintro rfl
      cases hname
    refine ⟨(way, .file c), h.mem_below.mpr ⟨hne, hc⟩, ?_⟩
    exact (schemaFile_iff (x := (way, .file c))).mpr ⟨rfl, hname, c, rfl⟩

end WellFormed

theorem sorted_ways (t : FileTree) (loc : Location) :
    (t.ways loc).Pairwise fun a b => a.le b = true :=
  List.pairwise_map.mpr (List.pairwise_mergeSort (fun a b c => Location.le_trans a.1 b.1 c.1)
    (fun a b => Location.le_total a.1 b.1) _)

theorem sorted_schemaFiles (t : FileTree) (loc : Location) :
    (t.schemaFiles loc).Pairwise fun a b => a.le b = true :=
  List.pairwise_mergeSort Location.le_trans Location.le_total _

end FileTree

end Datamodel
