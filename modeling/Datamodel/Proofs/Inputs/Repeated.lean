import Datamodel.Proofs.Inputs.Loaded
import Datamodel.Proofs.Inputs.Rewritten

/-! The inputs of patterns, in a tree where a file was written.

A pattern names the files that it named before, less the one that was written, and less a path that
has become a folder (`FileTree.Rewrites.expandPattern`). So do several patterns
(`FileTree.Rewrites.resolveInputs`), and what is loaded is the same
(`FileTree.Rewrites.loadFragments`). Files that are spelled with steps upwards are set apart. -/

namespace Datamodel

open Datamodel.Path (Straight Step IsName)

/-! ### Patterns -/

/-- Whether a path leads, without going up, to a place that is neither `out` nor a folder. -/
def FileTree.isSettled (t : FileTree) (out : Location) (p : Path) : Bool :=
  decide p.Straight && decide (p.place t.start ≠ out) &&
    decide (t.lookup? (p.place t.start) ≠ some .folder)

theorem FileTree.isSettled_iff {t : FileTree} {out : Location} {p : Path} : t.isSettled out p ↔
    p.Straight ∧ p.place t.start ≠ out ∧ t.lookup? (p.place t.start) ≠ some .folder := by
  rw [isSettled, Bool.and_eq_true, Bool.and_eq_true, decide_eq_true_iff, decide_eq_true_iff,
    decide_eq_true_iff, and_assoc]

section
variable {t t' : FileTree} {out : Location} {base p q : Path} {pattern : String}
  {found : List Path}

/-- A pattern that is seen from `base` starts where `base` does. -/
theorem head?_rootedPattern (hbase : base.text ≠ "")
    (hpattern : Path.isAbsolute ⟨pattern⟩ = false) :
    ((rootedPattern base pattern).head? == some '/') = base.isAbsolute := by
  rw [rootedPattern, hpattern, if_neg (by simp)]
  obtain ⟨c, cs, hcs⟩ := List.exists_cons_of_ne_nil (String.toList_eq_nil_iff.not.mpr hbase)
  rw [Path.isAbsolute, hcs, Glob.escape, List.flatMap_cons]
  split
  · next hspecial =>
    have hne : c ≠ '/' := by
      rintro rfl
      simp at hspecial
    simpa using hne
  · rfl

namespace FileTree

theorem isAbsolute_of_mem_fitting {s : List Char} {g : Glob} (ht : t.WellFormed)
    (hg : Glob.ofText s = .ok g) (hq : q ∈ t.fitting g) :
    q.isAbsolute = (s.head? == some '/') := by
  have hextends := extends_of_mem_expand ht (slashless_of_ofText hg) (steps_origin_ne g)
    (mem_expand_of_mem_glob (mem_fitting.mp hq).1)
  rw [hextends.absolute, isAbsolute_origin, absolute_of_ofText hg]

theorem lookup?_ne_folder_of_isFile (hfile : t.isFile q = true) (hq : q.Straight) :
    t.lookup? (q.place t.start) ≠ some .folder := by
  obtain ⟨loc, c, hfind⟩ := isFile_iff.mp hfile
  obtain ⟨rfl, hlookup⟩ := place_of_find hq hfind
  simp [hlookup]

/-- A path that leads to a folder stands for files in it, and for itself otherwise. -/
theorem lookup?_ne_folder_of_mem_named (ht : t.WellFormed) (hp : p.steps ≠ [])
    (hstraight : p.Straight) (hq : q ∈ t.named p) :
    t.lookup? (q.place t.start) ≠ some .folder := by
  rw [named] at hq
  split at hq
  · obtain ⟨loc, way, c, hfind, hlookup, hspells⟩ := exists_of_mem_scan ht hp hq
    obtain ⟨hloc, -⟩ := place_of_find hstraight hfind
    simp [hspells.place, ← hloc, hlookup]
  · next hfolder =>
    rw [List.mem_singleton] at hq
    subst hq
    refine fun hlookup => hfolder (isFolder_iff.mpr ⟨q.place t.start, ?_⟩)
    exact (find_eq_folder_iff ht hstraight hp).mpr ⟨rfl, hlookup⟩

end FileTree

/-- What a pattern finds starts where `base` does, and what of it is straight leads to no folder. -/
theorem of_mem_expandPattern (ht : t.WellFormed) (hbase : base.steps ≠ []) (hup : base.Straight)
    (hpattern : Path.isAbsolute ⟨pattern⟩ = false) (hpup : Path.Straight ⟨pattern⟩)
    (h : expandPattern t base pattern = .ok found) (hq : q ∈ found) :
    q.isAbsolute = base.isAbsolute ∧
      (q.Straight → t.lookup? (q.place t.start) ≠ some .folder) := by
  have htext := Path.text_ne_of_steps_ne hbase
  rcases expandPattern_eq_ok_iff.mp h with ⟨-, g, hg, rfl⟩ | ⟨-, rfl⟩
  · refine ⟨?_, FileTree.lookup?_ne_folder_of_isFile (FileTree.mem_fitting.mp hq).2⟩
    rw [FileTree.isAbsolute_of_mem_fitting ht hg hq, head?_rootedPattern htext hpattern]
  · have hne := (Path.extends_join hbase hpattern).steps_ne
    have hstraight := hup.join hpup hpattern
    refine ⟨?_, fun _ => FileTree.lookup?_ne_folder_of_mem_named ht hne hstraight hq⟩
    rw [(FileTree.extends_of_mem_named ht hne hq).absolute, Path.isAbsolute_join htext hpattern]

/-- What a pattern finds does not go up if no part of it fits the folder above. -/
theorem straight_of_mem_expandPattern (ht : t.WellFormed) (hbase : base.steps ≠ [])
    (hup : base.Straight) (hpattern : Path.isAbsolute ⟨pattern⟩ = false)
    (hpup : Path.Straight ⟨pattern⟩)
    (hparts : ∀ g, Glob.ofText (rootedPattern base pattern) = .ok g →
      ∀ part ∈ g.parts, FileTree.leadsUp part = false)
    (h : expandPattern t base pattern = .ok found) (hq : q ∈ found) : q.Straight := by
  rcases expandPattern_eq_ok_iff.mp h with ⟨-, g, hg, rfl⟩ | ⟨-, rfl⟩
  · have hexpand := FileTree.mem_expand_of_mem_glob (FileTree.mem_fitting.mp hq).1
    exact FileTree.straight_of_mem_expand ht (FileTree.slashless_of_ofText hg) (hparts g hg)
      (FileTree.steps_origin_ne g) (FileTree.straight_origin g) hexpand
  · have hne := (Path.extends_join hbase hpattern).steps_ne
    exact FileTree.straight_of_mem_named ht hne (hup.join hpup hpattern) hq

namespace FileTree.Rewrites

/-- Among files, what is not at `out` is what was a file before. -/
theorem isSettled_eq (h : t.Rewrites out t') {s : FileTree} (hs : s = t ∨ s = t') {c : Content}
    (hfile : p.Straight → s.lookup? (p.place s.start) = some (.file c)) :
    t'.isSettled out p = t.isOtherFile out p := by
  rw [Bool.eq_iff_iff, isSettled_iff, isOtherFile_iff, h.start]
  refine and_congr_right fun hp => and_congr_right fun hplace => ?_
  have hfile := hfile hp
  have hfile' : t.lookup? (p.place t.start) = some (.file c) := by
    rcases hs with rfl | rfl
    · exact hfile
    · rw [h.start] at hfile
      exact (h.lookup?_file_iff hplace).mp hfile
  rw [(h.lookup?_file_iff hplace).mpr hfile', hfile']
  simp

theorem filter_scan_isSettled (h : t.Rewrites out t') (hp : p.steps ≠ []) (hstraight : p.Straight)
    {s : FileTree} (hs : s = t ∨ s = t') :
    (s.scan p).filter (t'.isSettled out) = (s.scan p).filter (t.isOtherFile out) := by
  have hwf : s.WellFormed := by
    rcases hs with rfl | rfl
    · exact h.wellFormed
    · exact h.wellFormed'
  refine List.filter_congr fun q hq => ?_
  obtain ⟨loc, way, c, hfind, hlookup, hspells⟩ := exists_of_mem_scan hwf hp hq
  obtain ⟨hloc, -⟩ := place_of_find hstraight hfind
  exact h.isSettled_eq hs fun _ => by rw [hspells.place, ← hloc, hlookup]

theorem filter_isFile_isSettled (h : t.Rewrites out t') {s : FileTree} (hs : s = t ∨ s = t')
    (qs : List Path) : (qs.filter s.isFile).filter (t'.isSettled out) =
      (qs.filter (t.isOtherFile out)).filter t.isFile := by
  rw [List.filter_filter, List.filter_filter]
  refine List.filter_congr fun q _ => ?_
  rw [Bool.eq_iff_iff, Bool.and_eq_true, Bool.and_eq_true]
  constructor
  · rintro ⟨hsettled, hfile⟩
    obtain ⟨hstraight, hplace, -⟩ := isSettled_iff.mp hsettled
    obtain ⟨loc, c, hfind⟩ := isFile_iff.mp hfile
    have hlookup (hstraight : q.Straight) : s.lookup? (q.place s.start) = some (.file c) := by
      obtain ⟨rfl, hlookup⟩ := place_of_find hstraight hfind
      exact hlookup
    rw [h.isSettled_eq hs hlookup] at hsettled
    refine ⟨?_, hsettled⟩
    rcases hs with rfl | rfl
    · exact hfile
    · rw [h.find_file_iff hstraight (h.start ▸ hplace)] at hfind
      exact isFile_iff.mpr ⟨loc, c, hfind⟩
  · rintro ⟨hfile, hother⟩
    obtain ⟨-, -, c, hlookup⟩ := isOtherFile_iff.mp hother
    rw [h.isSettled_eq (.inl rfl) fun _ => hlookup]
    refine ⟨hother, ?_⟩
    rcases hs with rfl | rfl
    · exact hfile
    · exact h.isFile hfile

theorem filter_fitting {g : Glob} (h : t.Rewrites out t') (hg : Slashless g.parts) :
    (t'.fitting g).filter (t'.isSettled out) = (t.fitting g).filter (t'.isSettled out) := by
  rw [fitting, fitting, filter_mergeSort Path.le_trans Path.le_total,
    filter_mergeSort Path.le_trans Path.le_total, h.filter_isFile_isSettled (.inl rfl),
    h.filter_isFile_isSettled (.inr rfl), h.filter_glob hg]

theorem mem_fitting {g : Glob} (h : t.Rewrites out t') (hg : Slashless g.parts)
    (hq : q ∈ t.fitting g) : q ∈ t'.fitting g := by
  rw [FileTree.mem_fitting] at hq ⊢
  exact ⟨h.mem_glob hg hq.2 hq.1, h.isFile hq.2⟩

theorem filter_named (h : t.Rewrites out t') (hp : p.steps ≠ []) (hstraight : p.Straight) :
    (t'.named p).filter (t'.isSettled out) = (t.named p).filter (t'.isSettled out) := by
  have hscan : (t'.scan p).filter (t'.isSettled out) = (t.scan p).filter (t'.isSettled out) := by
    rw [h.filter_scan_isSettled hp hstraight (.inl rfl),
      h.filter_scan_isSettled hp hstraight (.inr rfl), h.filter_scan hp]
  rw [named, named]
  cases hfolder : t.isFolder p with
  | true => rw [if_pos (h.isFolder hfolder), if_pos rfl, hscan]
  | false =>
    rw [if_neg Bool.false_ne_true]
    split
    · next hfolder' =>
      -- The path has become a folder, with nothing in it but what was written.
      obtain ⟨loc, hfind⟩ := isFolder_iff.mp hfolder'
      obtain ⟨rfl, hlookup⟩ := place_of_find hstraight hfind
      have hnot : t'.isSettled out p = false := by
        rw [Bool.eq_false_iff, Ne, isSettled_iff]
        exact fun hsettled => hsettled.2.2 hlookup
      have hnil : t.scan p = [] := by
        rw [FileTree.isFolder, Option.isSome_eq_false_iff, Option.isNone_iff_eq_none] at hfolder
        rw [scan, hfolder]
      rw [hscan, hnil, List.filter_nil, List.filter_cons_of_neg (by simp [hnot]), List.filter_nil]
    · rfl

/-- A pattern finds what it found before, but for the file that was written and for a path that
has become a folder. -/
theorem expandPattern (h : t.Rewrites out t') (hbase : base.steps ≠ [])
    (hup : base.Straight) (hpattern : Path.isAbsolute ⟨pattern⟩ = false)
    (hpup : Path.Straight ⟨pattern⟩) (hfound : expandPattern t base pattern = .ok found) :
    ∃ found', Datamodel.expandPattern t' base pattern = .ok found' ∧
      found'.filter (t'.isSettled out) = found.filter (t'.isSettled out) ∧
      ∀ q ∈ found, q.Straight ∨ q ∈ found' := by
  rcases expandPattern_eq_ok_iff.mp hfound with ⟨hwildcard, g, hg, rfl⟩ | ⟨hwildcard, rfl⟩
  · have hslash := slashless_of_ofText hg
    exact ⟨_, expandPattern_eq_ok_iff.mpr (.inl ⟨hwildcard, g, hg, rfl⟩), h.filter_fitting hslash,
      fun q hq => .inr (h.mem_fitting hslash hq)⟩
  · have hne := (Path.extends_join hbase hpattern).steps_ne
    have hstraight := hup.join hpup hpattern
    exact ⟨_, expandPattern_eq_ok_iff.mpr (.inr ⟨hwildcard, rfl⟩), h.filter_named hne hstraight,
      fun q hq => .inl (straight_of_mem_named h.wellFormed hne hstraight hq)⟩

/-- The same is true of several patterns. -/
theorem mapM_expandPattern {patterns : List String} {found : List (List Path)}
    (h : t.Rewrites out t') (hbase : base.steps ≠ []) (hup : base.Straight)
    (hpatterns : ∀ pattern ∈ patterns,
      Path.isAbsolute ⟨pattern⟩ = false ∧ Path.Straight ⟨pattern⟩)
    (hfound : patterns.mapM (Datamodel.expandPattern t base) = .ok found) :
    ∃ found', patterns.mapM (Datamodel.expandPattern t' base) = .ok found' ∧
      found'.flatten.filter (t'.isSettled out) = found.flatten.filter (t'.isSettled out) ∧
      ∀ q ∈ found.flatten, q.Straight ∨ q ∈ found'.flatten := by
  induction patterns generalizing found with
  | nil =>
    cases hfound
    exact ⟨[], rfl, rfl, nofun⟩
  | cons pattern patterns ih =>
    obtain ⟨⟨hrelative, hpup⟩, hpatterns⟩ := List.forall_mem_cons.mp hpatterns
    rw [List.mapM_cons] at hfound ⊢
    obtain ⟨first, hfirst, hfound⟩ := exists_of_bind hfound
    obtain ⟨more, hmore, hfound⟩ := exists_of_bind hfound
    cases hfound
    obtain ⟨first', hfirst', hfilter, hmem⟩ := h.expandPattern hbase hup hrelative hpup hfirst
    obtain ⟨more', hmore', hfilter', hmem'⟩ := ih hpatterns hmore
    refine ⟨first' :: more', ?_, ?_, fun q hq => ?_⟩
    · rw [hfirst', hmore']
      rfl
    · simp only [List.flatten_cons, List.filter_append, hfilter, hfilter']
    · rw [List.flatten_cons, List.mem_append] at hq ⊢
      rcases hq with hq | hq
      · exact (hmem q hq).imp_right .inl
      · exact (hmem' q hq).imp_right .inr

end FileTree.Rewrites

/-! ### Inputs -/

theorem straight_iff_normal : p.Straight ↔ .up ∉ p.normal := by
  rw [Path.Straight, Path.up_mem_normal]

theorem isExcluded_singleton :
    isExcluded base [output] p = true ↔ (base.join output).normal = p.normal := by
  simp only [isExcluded, List.any_cons, List.any_nil, Bool.or_false, beq_iff_eq]

/-- The excluded path is told by its place. -/
theorem isExcluded_iff {output : Path} (start : Location) (hq : q.Straight)
    (hout : (base.join output).Straight) (h : q.isAbsolute = (base.join output).isAbsolute) :
    isExcluded base [output] q = true ↔ q.place start = (base.join output).place start := by
  rw [← hq.normal_eq_iff hout h start, isExcluded_singleton, eq_comm]

/-- Paths are straight if those are that are left of each normal form. -/
theorem straight_of_distinct {ps : List Path} (h : ∀ p ∈ distinct [] ps, p.Straight) :
    ∀ q ∈ ps, q.Straight := by
  intro q hq
  obtain ⟨p, hp, hnormal⟩ := exists_of_mem_of_distinct hq (List.not_mem_nil (a := q.normal))
  rw [straight_iff_normal, ← hnormal, ← straight_iff_normal]
  exact h p hp

section
variable {patterns : List String} {output : Path} {finds : List (List Path)}

/-- Each input is found by a pattern, and is not spelled as the output is. -/
theorem of_mem_resolveInputs {inputs : List Path}
    (h : resolveInputs t base patterns [output] = .ok inputs) (hp : p ∈ inputs) :
    (∃ pattern ∈ patterns, ∃ found, expandPattern t base pattern = .ok found ∧ p ∈ found) ∧
      p.normal ≠ (base.join output).normal := by
  obtain ⟨finds, hfinds, rfl⟩ := resolveInputs_eq_ok_iff.mp h
  obtain ⟨hp, hnot⟩ := List.mem_filter.mp (mem_of_mem_distinct hp)
  obtain ⟨found, hfound, hp⟩ := List.mem_flatten.mp hp
  obtain ⟨pattern, hpattern, hfound⟩ := forall_mem_of_mapM hfinds found hfound
  refine ⟨⟨pattern, hpattern, found, hfound, hp⟩, fun heq => ?_⟩
  rw [isExcluded_singleton.mpr heq.symm] at hnot
  cases hnot

/-- What patterns find starts where `base` does, and what of it is straight leads to no folder. -/
theorem of_mem_mapM_expandPattern (ht : t.WellFormed) (hbase : base.steps ≠ [])
    (hup : base.Straight)
    (hpatterns : ∀ pattern ∈ patterns,
      Path.isAbsolute ⟨pattern⟩ = false ∧ Path.Straight ⟨pattern⟩)
    (h : patterns.mapM (expandPattern t base) = .ok finds) (hq : q ∈ finds.flatten) :
    q.isAbsolute = base.isAbsolute ∧
      (q.Straight → t.lookup? (q.place t.start) ≠ some .folder) := by
  obtain ⟨ps, hps, hq⟩ := List.mem_flatten.mp hq
  obtain ⟨pattern, hpattern, hps⟩ := forall_mem_of_mapM h ps hps
  obtain ⟨hrelative, hpup⟩ := hpatterns pattern hpattern
  exact of_mem_expandPattern ht hbase hup hrelative hpup hps hq

/-- A path that starts where `base` does and is not excluded is not at the excluded place. -/
theorem place_ne_of_not_excluded (hbase : base.steps ≠ []) (hup : base.Straight)
    (houtput : output.isAbsolute = false) (hout : output.Straight) (hq : q.Straight)
    (habsolute : q.isAbsolute = base.isAbsolute) (hnot : (!isExcluded base [output] q) = true)
    (start : Location) : q.place start ≠ (base.join output).place start := by
  have hjoin := Path.isAbsolute_join (Path.text_ne_of_steps_ne hbase) houtput
  intro heq
  rw [(isExcluded_iff start hq (hup.join hout houtput) (habsolute.trans hjoin.symm)).mpr heq]
    at hnot
  cases hnot

namespace FileTree

/-- Spellings of one way are settled both or neither. -/
theorem isSettled_of_normal_eq (hp : p.Straight) (hq : q.Straight)
    (habsolute : p.isAbsolute = q.isAbsolute) (h : p.normal = q.normal) :
    t.isSettled out p = t.isSettled out q := by
  have heq := hp.normal_eq_iff hq habsolute t.start
  rw [isSettled, isSettled, heq.mp h, decide_eq_true hp, decide_eq_true hq]

/-- What patterns find is settled, if it is not excluded and does not go up. -/
theorem isSettled_of_mem_mapM_expandPattern (ht : t.WellFormed) (hbase : base.steps ≠ [])
    (hup : base.Straight)
    (hpatterns : ∀ pattern ∈ patterns,
      Path.isAbsolute ⟨pattern⟩ = false ∧ Path.Straight ⟨pattern⟩)
    (houtput : output.isAbsolute = false) (hout : output.Straight)
    (h : patterns.mapM (expandPattern t base) = .ok finds) (hq : q ∈ finds.flatten)
    (hstraight : q.Straight) (hnot : (!isExcluded base [output] q) = true) :
    t.isSettled ((base.join output).place t.start) q = true := by
  obtain ⟨habsolute, hfolder⟩ := of_mem_mapM_expandPattern ht hbase hup hpatterns h hq
  have hplace := place_ne_of_not_excluded hbase hup houtput hout hstraight habsolute hnot t.start
  exact isSettled_iff.mpr ⟨hstraight, hplace, hfolder hstraight⟩

/-- **The inputs of a second run** are those of the first that have not become folders, if none of
them goes up. -/
theorem Rewrites.resolveInputs {inputs : List Path} (h : t.Rewrites out t')
    (hbase : base.steps ≠ []) (hup : base.Straight)
    (hpatterns : ∀ pattern ∈ patterns,
      Path.isAbsolute ⟨pattern⟩ = false ∧ Path.Straight ⟨pattern⟩)
    (houtput : output.isAbsolute = false) (hout : output.Straight)
    (hplace : (base.join output).place t.start = out)
    (hinputs : Datamodel.resolveInputs t base patterns [output] = .ok inputs)
    (hspelled : ∀ inputs', Datamodel.resolveInputs t' base patterns [output] = .ok inputs' →
      ∀ q ∈ inputs', q.Straight) :
    Datamodel.resolveInputs t' base patterns [output] =
      .ok (inputs.filter (t'.isSettled out)) ∧
    ∀ q ∈ inputs, q.Straight ∧ q.place t.start ≠ out := by
  obtain ⟨found, hfound, rfl⟩ := resolveInputs_eq_ok_iff.mp hinputs
  obtain ⟨found', hfound', hfilter, hmem⟩ := h.mapM_expandPattern hbase hup hpatterns hfound
  have hinputs' : Datamodel.resolveInputs t' base patterns [output] =
      .ok (distinct [] (found'.flatten.filter (!isExcluded base [output] ·))) :=
    resolveInputs_eq_ok_iff.mpr ⟨found', hfound', rfl⟩
  have hstraight' := straight_of_distinct (hspelled _ hinputs')
  have hstraight : ∀ q ∈ found.flatten.filter (!isExcluded base [output] ·), q.Straight := by
    intro q hq
    obtain ⟨hq, hnot⟩ := List.mem_filter.mp hq
    rcases hmem q hq with hstraight | hq'
    · exact hstraight
    · exact hstraight' q (List.mem_filter.mpr ⟨hq', hnot⟩)
  have habsolute (q : Path) (hq : q ∈ found.flatten) : q.isAbsolute = base.isAbsolute :=
    (of_mem_mapM_expandPattern h.wellFormed hbase hup hpatterns hfound hq).1
  have hall : ∀ q ∈ found'.flatten.filter (!isExcluded base [output] ·),
      t'.isSettled out q = true := by
    intro q hq
    have hq' := hstraight' q hq
    obtain ⟨hq, hnot⟩ := List.mem_filter.mp hq
    rw [← hplace, ← h.start]
    exact isSettled_of_mem_mapM_expandPattern h.wellFormed' hbase hup hpatterns houtput hout
      hfound' hq hq' hnot
  have hsettled : found'.flatten.filter (!isExcluded base [output] ·) =
      (found.flatten.filter (!isExcluded base [output] ·)).filter (t'.isSettled out) := by
    rw [← List.filter_eq_self.mpr hall, List.filter_comm, hfilter, List.filter_comm]
  constructor
  · rw [hinputs', hsettled, distinct_filter ?_ fun _ _ _ => Iff.rfl]
    intro p hp q hq hnormal
    have hsame := (habsolute p (List.mem_of_mem_filter hp)).trans
      (habsolute q (List.mem_of_mem_filter hq)).symm
    exact isSettled_of_normal_eq (hstraight p hp) (hstraight q hq) hsame hnormal
  · intro q hq
    have hq' := hstraight q (mem_of_mem_distinct hq)
    obtain ⟨hq, hnot⟩ := List.mem_filter.mp (mem_of_mem_distinct hq)
    rw [← hplace]
    exact ⟨hq', place_ne_of_not_excluded hbase hup houtput hout hq' (habsolute q hq) hnot _⟩

end FileTree

end

/-- **What is loaded in a second run** is what was loaded in the first. -/
theorem FileTree.Rewrites.loadFragments {inputs : List Path} (h : t.Rewrites out t')
    (hinputs : ∀ q ∈ inputs, q.Straight ∧ q.place t.start ≠ out) :
    Datamodel.loadFragments t' (inputs.filter (t'.isSettled out)) =
      Datamodel.loadFragments t inputs := by
  have hread : ∀ q ∈ inputs, ∀ text, t'.read q = .ok text ↔ t.read q = .ok text := by
    intro q hq text
    obtain ⟨hstraight, hplace⟩ := hinputs q hq
    rw [read_eq_ok_iff, read_eq_ok_iff]
    exact exists_congr fun loc => h.find_file_iff hstraight hplace
  -- A path that is not settled leads to a folder now, which cannot be read.
  have hsettled : ∀ q ∈ inputs, ∀ text, t'.read q = .ok text → t'.isSettled out q = true := by
    intro q hq text hread
    obtain ⟨hstraight, hplace⟩ := hinputs q hq
    obtain ⟨loc, hfind⟩ := read_eq_ok_iff.mp hread
    obtain ⟨rfl, hlookup⟩ := place_of_find hstraight hfind
    refine isSettled_iff.mpr ⟨hstraight, h.start ▸ hplace, ?_⟩
    rw [hlookup]
    exact nofun
  rw [loadFragments_filter hsettled, loadFragments_congr hread]

end

end Datamodel
