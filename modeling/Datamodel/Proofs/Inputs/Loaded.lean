import Datamodel.Fragment
import Datamodel.Proofs.Inputs.Written

/-! The inputs of patterns, and what is loaded, in a tree where files were written.

Patterns find the same known paths as before (`FileTree.Written.resolveInputs`): of the files that
fit them, or of what they name (`expandPattern_eq_ok_iff`). So the same is loaded, unless a path is
an input now that leads to a file that was written, or to one that was there by a way that was not
(`FileTree.Written.loadFragments`). -/

namespace Datamodel

variable {t t' : FileTree} {outs : List Location} {base p q : Path} {pattern : String}
  {patterns : List String} {exclude inputs inputs' : List Path}

/-! ### Patterns -/

theorem Path.steps_join_ne (h : base.steps ≠ []) (q : Path) : (base.join q).steps ≠ [] := by
  cases habsolute : q.isAbsolute with
  | false => simp [steps_join habsolute, h]
  | true =>
    rw [join, habsolute, Bool.true_or, if_pos rfl, steps, habsolute]
    simp

namespace FileTree

/-- The files that fit a pattern with wildcards, in their order. -/
def fitting (t : FileTree) (g : Glob) : List Path :=
  ((t.glob g).filter t.isFile).mergeSort Path.le

/-- What a path without wildcards stands for: the schema files of a folder, or the path itself. -/
def named (t : FileTree) (p : Path) : List Path :=
  if t.isFolder p then t.scan p else [p]

theorem mem_fitting {g : Glob} : q ∈ t.fitting g ↔ q ∈ t.glob g ∧ t.isFile q = true := by
  rw [fitting, List.mem_mergeSort, List.mem_filter]

theorem extends_of_mem_named (ht : t.WellFormed) (hp : p.steps ≠ []) (hq : q ∈ t.named p) :
    p.Extends q := by
  rw [named] at hq
  split at hq
  · exact extends_of_mem_scan ht hp hq
  · rw [List.mem_singleton.mp hq]
    exact .refl hp

theorem straight_of_mem_named (ht : t.WellFormed) (hp : p.steps ≠ []) (hstraight : p.Straight)
    (hq : q ∈ t.named p) : q.Straight := by
  rw [named] at hq
  split at hq
  · obtain ⟨_, _, _, -, -, hspells⟩ := exists_of_mem_scan ht hp hq
    exact hspells.straight hstraight
  · exact List.mem_singleton.mp hq ▸ hstraight

end FileTree

/-- **What a pattern finds**: with wildcards the files that fit it, and otherwise what is named. -/
theorem expandPattern_eq_ok_iff {found : List Path} : expandPattern t base pattern = .ok found ↔
    (hasWildcard pattern = true ∧ ∃ g, Glob.ofText (rootedPattern base pattern) = .ok g ∧
      t.fitting g = found) ∨
    (hasWildcard pattern = false ∧ t.named (base.join ⟨pattern⟩) = found) := by
  rw [expandPattern]
  cases hasWildcard pattern with
  | false => simp [FileTree.named]
  | true =>
    rw [if_pos rfl]
    cases Glob.ofText (rootedPattern base pattern) <;> simp [FileTree.fitting]

namespace FileTree

/-- The known paths of both lists are the same. -/
def KnowsSame (t : FileTree) (ps' ps : List Path) : Prop :=
  ps'.filter t.known = ps.filter t.known

namespace Written

theorem fitting {g : Glob} (h : t.Written outs t') (hg : Slashless g.parts) :
    t.KnowsSame (t'.fitting g) (t.fitting g) := by
  rw [KnowsSame, FileTree.fitting, FileTree.fitting, filter_mergeSort Path.le_trans Path.le_total,
    filter_mergeSort Path.le_trans Path.le_total,
    filter_filter_known (fun p hp => h.isFile_eq hp) (h.filter_glob hg)]

theorem named (h : t.Written outs t') (hp : p.steps ≠ []) :
    t.KnowsSame (t'.named p) (t.named p) := by
  cases hknown : t.known p with
  | true =>
    rw [FileTree.named, FileTree.named, h.isFolder_eq hknown]
    split
    · exact h.filter_scan hp
    · rfl
  | false =>
    -- An unknown path may have become a folder, with nothing in it that is known.
    have hnil {s : FileTree} (hs : s.WellFormed) : (s.named p).filter t.known = [] :=
      filter_eq_nil hknown fun q hq => extends_of_mem_named hs hp hq
    rw [KnowsSame, hnil h.wellFormed, hnil h.wellFormed']

/-- **A pattern finds the known paths** that it found before. -/
theorem expandPattern (h : t.Written outs t') (hbase : base.steps ≠ []) (pattern : String) :
    Follows t.KnowsSame (Datamodel.expandPattern t' base pattern)
      (Datamodel.expandPattern t base pattern) := by
  intro found' hfound'
  rcases expandPattern_eq_ok_iff.mp hfound' with ⟨hwildcard, g, hg, rfl⟩ | ⟨hwildcard, rfl⟩
  · exact ⟨_, expandPattern_eq_ok_iff.mpr (.inl ⟨hwildcard, g, hg, rfl⟩),
      h.fitting (slashless_of_ofText hg)⟩
  · exact ⟨_, expandPattern_eq_ok_iff.mpr (.inr ⟨hwildcard, rfl⟩),
      h.named (Path.steps_join_ne hbase ⟨pattern⟩)⟩

end Written

theorem KnowsSame.flatten {finds' finds : List (List Path)}
    (h : List.Forall₂ t.KnowsSame finds' finds) : t.KnowsSame finds'.flatten finds.flatten := by
  rw [KnowsSame, List.filter_flatten, List.filter_flatten]
  congr 1
  induction h with
  | nil => rfl
  | cons hfirst _ ih => rw [List.map_cons, List.map_cons, hfirst, ih]

end FileTree

/-! ### Inputs -/

theorem resolveInputs_eq_ok_iff : resolveInputs t base patterns exclude = .ok inputs ↔
    ∃ found, patterns.mapM (expandPattern t base) = .ok found ∧
      distinct [] (found.flatten.filter (!isExcluded base exclude ·)) = inputs := by
  constructor
  · intro h
    obtain ⟨found, hfound, heq⟩ := exists_of_bind h
    exact ⟨found, hfound, Except.ok.inj heq⟩
  · rintro ⟨found, hfound, rfl⟩
    rw [resolveInputs, hfound]
    rfl

/-- Leaving out paths by their normal forms makes no other paths first of theirs. -/
theorem distinct_filter {keep : Path → Bool} {seen seen' : List (List Path.Step)} {ps : List Path}
    (hkeep : ∀ p ∈ ps, ∀ q ∈ ps, p.normal = q.normal → keep p = keep q)
    (hseen : ∀ p ∈ ps, keep p = true → (p.normal ∈ seen' ↔ p.normal ∈ seen)) :
    distinct seen' (ps.filter keep) = (distinct seen ps).filter keep := by
  induction ps generalizing seen seen' with
  | nil => rfl
  | cons p ps ih =>
    have hkeep' : ∀ q ∈ ps, ∀ r ∈ ps, q.normal = r.normal → keep q = keep r := fun q hq r hr =>
      hkeep q (List.mem_cons_of_mem _ hq) r (List.mem_cons_of_mem _ hr)
    obtain ⟨hp, hps⟩ := List.forall_mem_cons.mp hseen
    rw [distinct]
    cases hk : keep p with
    | true =>
      rw [List.filter_cons_of_pos hk, distinct]
      simp only [hp hk]
      split
      · exact ih hkeep' hps
      · rw [List.filter_cons_of_pos hk]
        congr 1
        refine ih hkeep' fun q hq hkq => ?_
        rw [List.mem_cons, List.mem_cons, hps q hq hkq]
    | false =>
      have hne : ∀ q ∈ ps, keep q = true → q.normal ≠ p.normal := by
        intro q hq hkq heq
        have := hkeep q (List.mem_cons_of_mem _ hq) p List.mem_cons_self heq
        rw [hkq, hk] at this
        cases this
      rw [List.filter_cons_of_neg (by simp [hk])]
      split
      · exact ih hkeep' hps
      · rw [List.filter_cons_of_neg (by simp [hk])]
        refine ih hkeep' fun q hq hkq => ?_
        rw [hps q hq hkq, List.mem_cons, or_iff_right (hne q hq hkq)]

theorem mem_of_mem_distinct {seen : List (List Path.Step)} {ps : List Path}
    (h : q ∈ distinct seen ps) : q ∈ ps := by
  induction ps generalizing seen with
  | nil => exact h
  | cons p ps ih =>
    rw [distinct] at h
    split at h
    · exact List.mem_cons_of_mem _ (ih h)
    · rcases List.mem_cons.mp h with rfl | h
      · exact List.mem_cons_self
      · exact List.mem_cons_of_mem _ (ih h)

/-- Each normal form that has not been seen is kept once. -/
theorem exists_of_mem_of_distinct {seen : List (List Path.Step)} {ps : List Path} (hq : q ∈ ps)
    (hseen : q.normal ∉ seen) : ∃ p ∈ distinct seen ps, p.normal = q.normal := by
  induction ps generalizing seen with
  | nil => cases hq
  | cons p ps ih =>
    rw [distinct]
    split
    · next hp =>
      rcases List.mem_cons.mp hq with rfl | hq
      · exact absurd hp hseen
      · exact ih hq hseen
    · by_cases hpq : p.normal = q.normal
      · exact ⟨p, List.mem_cons_self, hpq⟩
      · rcases List.mem_cons.mp hq with rfl | hq
        · exact absurd rfl hpq
        · have hseen' : q.normal ∉ p.normal :: seen := by
            rw [List.mem_cons, not_or]
            exact ⟨Ne.symm hpq, hseen⟩
          obtain ⟨r, hr, heq⟩ := ih hq hseen'
          exact ⟨r, List.mem_cons_of_mem _ hr, heq⟩

/-- **The known inputs** are those that were inputs before. -/
theorem FileTree.Written.resolveInputs (h : t.Written outs t') (hbase : base.steps ≠ []) :
    Follows t.KnowsSame (Datamodel.resolveInputs t' base patterns exclude)
      (Datamodel.resolveInputs t base patterns exclude) := by
  refine (Follows.mapM fun pattern _ => h.expandPattern hbase pattern).bind fun finds' finds hsame =>
    .ok ?_
  have hflatten := KnowsSame.flatten hsame
  rw [KnowsSame] at hflatten ⊢
  have hdistinct (ps : List Path) : (distinct [] ps).filter t.known = distinct [] (ps.filter t.known) :=
    (distinct_filter (fun p _ q _ heq => known_congr heq) fun _ _ _ => Iff.rfl).symm
  rw [hdistinct, hdistinct, List.filter_comm t.known, hflatten, List.filter_comm t.known]

/-! ### Loading -/

/-- Files that cannot be read can be left out. -/
theorem loadFragments_filter {keep : Path → Bool} {ps : List Path}
    (hkeep : ∀ p ∈ ps, ∀ text, t.read p = .ok text → keep p = true) :
    loadFragments t (ps.filter keep) = loadFragments t ps := by
  rw [loadFragments, loadFragments, List.filterMap_filter]
  refine List.filterMap_congr fun p hp => ?_
  split
  · rfl
  · next hnot =>
    cases hread : t.read p with
    | ok text => exact absurd (hkeep p hp text hread) hnot
    | error reason =>
      rw [Fragment.ofFile, hread]
      rfl

theorem loadFragments_congr {ps : List Path}
    (hread : ∀ p ∈ ps, ∀ text, t'.read p = .ok text ↔ t.read p = .ok text) :
    loadFragments t' ps = loadFragments t ps := by
  refine List.filterMap_congr fun p hp => ?_
  rw [Fragment.ofFile, Fragment.ofFile]
  cases hold : t.read p with
  | ok text => rw [(hread p hp text).mpr hold]
  | error reason =>
    cases hnew : t'.read p with
    | error reason' => rfl
    | ok text =>
      rw [(hread p hp text).mp hnew] at hold
      cases hold

namespace FileTree.Written

/-- **What is loaded** is what was loaded before, if no input leads to a file that was written, and
none is spelled with steps upwards, unless it led to a file before. -/
theorem loadFragments (h : t.Written outs t') (hsame : t.KnowsSame inputs' inputs)
    (hout : ∀ p ∈ inputs', p.resolve t.start ∉ outs)
    (hspelled : ∀ p ∈ inputs', p.Straight ∨ t.isFile p) :
    Datamodel.loadFragments t' inputs' = Datamodel.loadFragments t inputs := by
  have hknown' : ∀ p ∈ inputs', ∀ text, t'.read p = .ok text → t.known p = true := by
    intro p hp text hread
    obtain ⟨loc, hfind'⟩ := read_eq_ok_iff.mp hread
    rcases hspelled p hp with hstraight | hfile
    · have hloc : loc = p.resolve t.start := h.start ▸ resolve_of_find hfind'
      have hlookup := h.lookup?_of_file (hloc ▸ hout p hp) (lookup?_of_find hfind')
      rw [hloc, hstraight.resolve_eq] at hlookup
      exact h.wellFormed.known_of_straight hstraight (by simp [hlookup])
    · obtain ⟨loc, c, hfind⟩ := isFile_iff.mp hfile
      exact known_of_find hfind
  have hknown : ∀ p ∈ inputs, ∀ text, t.read p = .ok text → t.known p = true := by
    intro p _ text hread
    obtain ⟨loc, hfind⟩ := read_eq_ok_iff.mp hread
    exact known_of_find hfind
  have hread : ∀ p ∈ inputs'.filter t.known, ∀ text, t'.read p = .ok text ↔ t.read p = .ok text := by
    intro p hp text
    obtain ⟨hp, hknown⟩ := List.mem_filter.mp hp
    rw [read_eq_ok_iff, read_eq_ok_iff]
    exact exists_congr fun loc => h.find_iff hknown (hout p hp)
  calc Datamodel.loadFragments t' inputs'
    _ = Datamodel.loadFragments t' (inputs'.filter t.known) := (loadFragments_filter hknown').symm
    _ = Datamodel.loadFragments t (inputs'.filter t.known) := loadFragments_congr hread
    _ = Datamodel.loadFragments t (inputs.filter t.known) := by rw [hsame]
    _ = Datamodel.loadFragments t inputs := loadFragments_filter hknown

end FileTree.Written

end Datamodel
