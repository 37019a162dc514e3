import Datamodel.Proofs.Inputs.Loaded
import Datamodel.Proofs.Inputs.Rooted

/-! The files that a list of patterns names.

The first pattern that cannot be read is the cause of a failure. If there is none, the files are
those that the patterns stand for, one pattern after another, less the excluded ones and less each
path that spells the way of an earlier one (`resolveInputs_eq`). The reader of patterns and the
search for fitting files are taken as they are. -/

namespace Datamodel

variable {t : FileTree} {base : Path} {pattern : String}

/-- Whether a text is taken for a pattern with wildcards, and cannot be read as one. -/
def isMalformed (pattern : String) : Bool :=
  hasWildcard pattern && !(Glob.ofText pattern.toList).isOk

/-- The paths of a list, less those of which an earlier one has the normal form. -/
def firstSpellings (ps : List Path) : List Path :=
  (ps.zipIdx.filter fun (p, i) => (ps.take i).all (·.normal != p.normal)).map (·.1)

/-! ### Failures -/

theorem isOk_ofText_rootedPattern (base : Path) (pattern : String) :
    (Glob.ofText (rootedPattern base pattern)).isOk = (Glob.ofText pattern.toList).isOk := by
  rw [Bool.eq_iff_iff, isOk_iff, isOk_iff, exists_ofText_rootedPattern_iff]

theorem isOk_expandPattern (t : FileTree) (base : Path) (pattern : String) :
    (expandPattern t base pattern).isOk = !isMalformed pattern := by
  rw [expandPattern, isMalformed, ← isOk_ofText_rootedPattern base]
  cases hasWildcard pattern with
  | false => rfl
  | true =>
    rw [if_pos rfl]
    cases Glob.ofText (rootedPattern base pattern) <;> rfl

/-- A pattern fails under its own name, for the cause for which its text cannot be read. -/
theorem of_expandPattern_eq_error {e : PatternError} (h : expandPattern t base pattern = .error e) :
    e.pattern = pattern ∧ Glob.ofText (rootedPattern base pattern) = .error e.cause := by
  rw [expandPattern] at h
  split at h
  · split at h
    · next cause hcause =>
      cases h
      exact ⟨rfl, hcause⟩
    · cases h
  · cases h

/-! ### First spellings -/

section
variable {seen : List (List Path.Step)} {p : Path} {ps : List Path}

/-- Whether the normal form of a path at a position has not been seen and does not come up in front
of it. -/
def isFirst (seen : List (List Path.Step)) (ps : List Path) (x : Path × Nat) : Bool :=
  !seen.contains x.1.normal && (ps.take x.2).all (·.normal != x.1.normal)

theorem isFirst_iff {x : Path × Nat} : isFirst seen ps x = true ↔
    x.1.normal ∉ seen ∧ ∀ q ∈ ps.take x.2, q.normal ≠ x.1.normal := by
  simp [isFirst]

/-- The first path is seen by those behind it. -/
theorem isFirst_cons : isFirst seen (p :: ps) ∘ Prod.map id (· + 1) =
    isFirst (p.normal :: seen) ps := by
  funext ⟨q, i⟩
  rw [Bool.eq_iff_iff, Function.comp_apply, Prod.map_apply, isFirst_iff, isFirst_iff, List.mem_cons,
    not_or, List.take_succ_cons, List.forall_mem_cons, ne_comm, id_eq]
  exact and_left_comm.trans and_assoc.symm

theorem isFirst_of_mem (hp : p.normal ∈ seen) :
    isFirst (p.normal :: seen) ps = isFirst seen ps := by
  funext x
  rw [Bool.eq_iff_iff, isFirst_iff, isFirst_iff, List.mem_cons, or_iff_right_of_imp]
  rintro heq
  exact heq ▸ hp

/-- The paths that are kept are those that come first. -/
theorem distinct_eq (seen : List (List Path.Step)) (ps : List Path) :
    distinct seen ps = (ps.zipIdx.filter (isFirst seen ps)).map (·.1) := by
  induction ps generalizing seen with
  | nil => rfl
  | cons p ps ih =>
    have hmore : ((ps.zipIdx.map (Prod.map id (· + 1))).filter (isFirst seen (p :: ps))).map (·.1) =
        distinct (p.normal :: seen) ps := by
      rw [List.filter_map, List.map_map, isFirst_cons, ih]
      rfl
    rw [distinct, List.zipIdx_cons', List.filter_cons]
    split
    · next hp =>
      rw [if_neg (by simp [isFirst, hp]), hmore, ih, ih, isFirst_of_mem hp]
    · next hp =>
      rw [if_pos (by simp [isFirst, hp]), List.map_cons, hmore]

theorem distinct_nil_eq (ps : List Path) : distinct [] ps = firstSpellings ps := by
  have hfirst : isFirst [] ps = fun (p, i) => (ps.take i).all (·.normal != p.normal) := by
    funext ⟨p, i⟩
    simp [isFirst]
  rw [distinct_eq, hfirst, firstSpellings]

theorem normal_not_mem_of_mem_distinct (h : p ∈ distinct seen ps) : p.normal ∉ seen := by
  rw [distinct_eq] at h
  obtain ⟨x, hx, rfl⟩ := List.mem_map.mp h
  exact (isFirst_iff.mp (List.mem_filter.mp hx).2).1

theorem nodup_normal_distinct (seen : List (List Path.Step)) (ps : List Path) :
    ((distinct seen ps).map Path.normal).Nodup := by
  induction ps generalizing seen with
  | nil => exact .nil
  | cons p ps ih =>
    rw [distinct]
    split
    · exact ih seen
    · rw [List.map_cons, List.nodup_cons]
      refine ⟨fun hmem => ?_, ih _⟩
      obtain ⟨q, hq, heq⟩ := List.mem_map.mp hmem
      exact normal_not_mem_of_mem_distinct hq (heq ▸ List.mem_cons_self)

end

/-! ### Inputs -/

/-- **The files that patterns name.** A list of patterns fails just if one of them has wildcards and
cannot be read, under the name of the first such. Otherwise the files are those of the patterns, in
their order, less those whose normal form is that of an excluded path as seen from `base`, and of
several with one normal form the first. So no two have the same, and none is lost that is not
excluded. -/
theorem resolveInputs_eq (t : FileTree) (base : Path) (patterns : List String)
    (exclude : List Path) :
    match patterns.find? isMalformed with
    | some pattern => ∃ cause, Glob.ofText (rootedPattern base pattern) = .error cause ∧
      resolveInputs t base patterns exclude = .error { pattern, cause }
    | none => ∃ found inputs, resolveInputs t base patterns exclude = .ok inputs ∧
      List.Forall₂ (fun pattern ps => expandPattern t base pattern = .ok ps) patterns found ∧
      inputs = firstSpellings
        (found.flatten.filter fun p => ∀ q ∈ exclude, (base.join q).normal ≠ p.normal) ∧
      (inputs.map Path.normal).Nodup ∧
      ∀ p ∈ found.flatten, (∀ q ∈ exclude, (base.join q).normal ≠ p.normal) →
        ∃ q ∈ inputs, q.normal = p.normal := by
  have hfails : (fun pattern => !(expandPattern t base pattern).isOk) = isMalformed :=
    funext fun pattern => by rw [isOk_expandPattern, Bool.not_not]
  split
  · next pattern hfirst =>
    rw [← hfails] at hfirst
    obtain ⟨e, hpattern, hall⟩ := mapM_eq_error_of_find? hfirst
    obtain ⟨rfl, hcause⟩ := of_expandPattern_eq_error hpattern
    refine ⟨e.cause, hcause, ?_⟩
    rw [resolveInputs, hall]
    rfl
  · next hnone =>
    have hreads : ∀ pattern ∈ patterns, ∃ ps, expandPattern t base pattern = .ok ps := by
      intro pattern hpattern
      rw [← isOk_iff, isOk_expandPattern, Bool.not_eq_true', Bool.eq_false_iff]
      exact List.find?_eq_none.mp hnone pattern hpattern
    obtain ⟨found, hfound⟩ := exists_mapM_iff.mpr hreads
    have hexclude : (fun p => !isExcluded base exclude p) =
        fun p => decide (∀ q ∈ exclude, (base.join q).normal ≠ p.normal) := by
      funext p
      rw [Bool.eq_iff_iff]
      simp [isExcluded]
    have hinputs : resolveInputs t base patterns exclude = .ok (distinct [] (found.flatten.filter
        fun p => decide (∀ q ∈ exclude, (base.join q).normal ≠ p.normal))) := by
      rw [resolveInputs, hfound, ← hexclude]
      rfl
    refine ⟨found, _, hinputs, forall₂_of_mapM hfound, distinct_nil_eq _,
      nodup_normal_distinct _ _, fun p hp hkept => ?_⟩
    exact exists_of_mem_of_distinct (List.mem_filter.mpr ⟨hp, decide_eq_true hkept⟩)
      List.not_mem_nil

end Datamodel
