import Datamodel.Proofs.Files.Spelled

/-! What a scan finds.

A scan reads a folder, scans each folder in it by itself, and puts what is found there to the files
as a sorted set. By induction on what is below the folder, it finds the schema files at any depth
(`FileTree.WellFormed.mem_scanFolder`). A sorted set has its paths in the order of their components,
so they come in the order of the ways to them (`FileTree.WellFormed.scan_eq`). -/

namespace Datamodel

open Datamodel.Path (IsName Step)

/-! ### Sorted sets of paths -/

/-- A path comes before another one in the order of their components. -/
def Path.Before (p q : Path) : Prop := List.lex p.components q.components Step.before = true

namespace Path.Before

variable {p q r : Path}

theorem irrefl (p : Path) : ¬p.Before p := by
  intro h
  rw [Before, List.lex_eq_true_iff_lex] at h
  exact (List.Lex.asymm fun a b => Step.before a b = true).asymm _ _ h h

theorem trans (hpq : p.Before q) (hqr : q.Before r) : p.Before r := by
  rw [Before, List.lex_eq_true_iff_lex] at hpq hqr ⊢
  have hconnected := List.Lex.isOrderConnected fun a b => Step.before a b = true
  rcases hconnected.conn _ r.components _ hpq with h | h
  · exact h
  · exact absurd hqr ((List.Lex.asymm fun a b => Step.before a b = true).asymm _ _ h)

theorem of_not (h : ¬p.Before q) (hne : p.components ≠ q.components) : q.Before p := by
  rw [Before, List.lex_eq_true_iff_lex] at h ⊢
  by_contra hnot
  exact hne ((List.Lex.trichotomous fun a b => Step.before a b = true).trichotomous _ _ h hnot)

end Path.Before

section
variable {p q : Path} {paths more : List Path}

theorem mem_of_mem_insertPath (h : q ∈ insertPath paths p) : q = p ∨ q ∈ paths := by
  induction paths with
  | nil => exact .inl (List.mem_singleton.mp h)
  | cons r rs ih =>
    rw [insertPath] at h
    split at h
    · exact List.mem_cons.mp h
    · split at h
      · exact .inr h
      · rcases List.mem_cons.mp h with rfl | h
        · exact .inr List.mem_cons_self
        · exact (ih h).imp_right (List.mem_cons_of_mem _)

/-- A path is put to a set unless one with its components is there. -/
theorem mem_insertPath (h : ∀ r ∈ paths, p.components = r.components → p = r) :
    q ∈ insertPath paths p ↔ q = p ∨ q ∈ paths := by
  refine ⟨mem_of_mem_insertPath, ?_⟩
  induction paths with
  | nil =>
    rintro (rfl | hq)
    · exact List.mem_cons_self
    · cases hq
  | cons r rs ih =>
    obtain ⟨hr, hrs⟩ := List.forall_mem_cons.mp h
    rw [insertPath]
    split
    · exact List.mem_cons.mpr
    · split
      · next heq =>
        rintro (rfl | hq)
        · rw [hr heq]
          exact List.mem_cons_self
        · exact hq
      · rintro (rfl | hq)
        · exact List.mem_cons_of_mem _ (ih hrs (.inl rfl))
        · rcases List.mem_cons.mp hq with rfl | hq
          · exact List.mem_cons_self
          · exact List.mem_cons_of_mem _ (ih hrs (.inr hq))

theorem sorted_insertPath (h : paths.Pairwise Path.Before) :
    (insertPath paths p).Pairwise Path.Before := by
  induction paths with
  | nil => exact List.pairwise_singleton _ _
  | cons r rs ih =>
    obtain ⟨hr, hrs⟩ := List.pairwise_cons.mp h
    rw [insertPath]
    split
    · next hbefore =>
      refine List.pairwise_cons.mpr ⟨List.forall_mem_cons.mpr ⟨hbefore, fun q hq => ?_⟩, h⟩
      exact Path.Before.trans hbefore (hr q hq)
    · next hnot =>
      split
      · exact h
      · next hne =>
        refine List.pairwise_cons.mpr ⟨fun q hq => ?_, ih hrs⟩
        rcases mem_of_mem_insertPath hq with rfl | hq
        · exact Path.Before.of_not hnot hne
        · exact hr q hq

theorem sorted_foldl_insertPath (h : paths.Pairwise Path.Before) :
    (more.foldl insertPath paths).Pairwise Path.Before := by
  induction more generalizing paths with
  | nil => exact h
  | cons p more ih => exact ih (sorted_insertPath h)

/-- Paths are put to a set one after another. Among those with the property `S`, the components
tell which path it is, so none is left out. -/
theorem mem_foldl_insertPath {S : Path → Prop}
    (hS : ∀ p q, S p → S q → p.components = q.components → p = q) (hpaths : ∀ q ∈ paths, S q)
    (hmore : ∀ q ∈ more, S q) : q ∈ more.foldl insertPath paths ↔ q ∈ paths ∨ q ∈ more := by
  induction more generalizing paths with
  | nil => simp
  | cons p more ih =>
    obtain ⟨hp, hmore⟩ := List.forall_mem_cons.mp hmore
    have hput : ∀ r ∈ insertPath paths p, S r := by
      intro r hr
      rcases mem_of_mem_insertPath hr with rfl | hr
      · exact hp
      · exact hpaths r hr
    rw [List.foldl_cons, ih hput hmore, mem_insertPath fun r hr => hS p r hp (hpaths r hr),
      List.mem_cons, or_comm (a := q = p), or_assoc]

end

/-! ### Folder by folder -/

namespace FileTree

variable {t : FileTree} {loc way : Location} {dir q : Path} {name : String}

theorem scanFolder_eq (t : FileTree) (loc : Location) (dir : Path) : t.scanFolder loc dir =
    ((t.foldersIn loc).flatMap fun name =>
      t.scanFolder (loc ++ [name]) (dir.join ⟨name⟩)).foldl insertPath
        ((t.filesIn loc dir).foldl insertPath []) := by
  rw [scanFolder, List.flatMap_def]
  simp only [List.attach_map_val (f := fun name => t.scanFolder (loc ++ [name]) (dir.join ⟨name⟩))]

theorem sorted_scanFolder (t : FileTree) (loc : Location) (dir : Path) :
    (t.scanFolder loc dir).Pairwise Path.Before := by
  rw [scanFolder_eq]
  exact sorted_foldl_insertPath (sorted_foldl_insertPath .nil)

theorem isSchemaFile_join (h : IsName name) (dir : Path) :
    (dir.join ⟨name⟩).isSchemaFile = isSchemaName name := by
  rw [Path.isSchemaFile, Path.fileName?, Path.components_join h, List.getLast?_concat]
  rfl

/-- A path that names are joined to, one after another. -/
def SpelledFrom (dir q : Path) : Prop := ∃ way, (∀ name ∈ way, IsName name) ∧ spell dir way = q

/-- What is spelled from one folder is told apart by its components. -/
theorem SpelledFrom.eq_of_components {p : Path} (hp : SpelledFrom dir p) (hq : SpelledFrom dir q)
    (h : p.components = q.components) : p = q := by
  obtain ⟨way, hway, rfl⟩ := hp
  obtain ⟨way', hway', rfl⟩ := hq
  rw [components_spell hway, components_spell hway', List.append_cancel_left_eq] at h
  rw [List.map_injective_iff.mpr (fun _ _ => Step.down.inj) h]

namespace WellFormed

theorem mem_foldersIn (h : t.WellFormed) :
    name ∈ t.foldersIn loc ↔ t.lookup? (loc ++ [name]) = some .folder := by
  rw [FileTree.mem_foldersIn, h.mem_below, and_iff_right (List.cons_ne_nil _ _)]

theorem mem_filesIn (h : t.WellFormed) : q ∈ t.filesIn loc dir ↔
    ∃ name c, t.lookup? (loc ++ [name]) = some (.file c) ∧ isSchemaName name = true ∧
      q = dir.join ⟨name⟩ := by
  rw [filesIn, List.mem_filterMap]
  constructor
  · rintro ⟨⟨name, e⟩, hmem, hsome⟩
    have hlookup := (h.mem_below.mp (mem_entriesIn.mp hmem)).2
    split at hsome
    · next c heq =>
      cases heq
      rw [isSchemaFile_join (h.isName hlookup name (by simp))] at hsome
      split at hsome
      · next hschema =>
        cases hsome
        exact ⟨name, c, hlookup, hschema, rfl⟩
      · cases hsome
    · cases hsome
  · rintro ⟨name, c, hlookup, hschema, rfl⟩
    refine ⟨(name, .file c), mem_entriesIn.mpr (h.mem_below.mpr ⟨by simp, hlookup⟩), ?_⟩
    simp only [isSchemaFile_join (h.isName hlookup name (by simp)), hschema, if_true]

/-- A schema file is in the folder, or below a folder in it. -/
theorem mem_schemaFiles_iff (h : t.WellFormed) : way ∈ t.schemaFiles loc ↔
    (∃ name c, way = [name] ∧ t.lookup? (loc ++ [name]) = some (.file c) ∧
      isSchemaName name = true) ∨
    ∃ name more, way = name :: more ∧ name ∈ t.foldersIn loc ∧
      more ∈ t.schemaFiles (loc ++ [name]) := by
  rw [h.mem_schemaFiles]
  constructor
  · rintro ⟨hname, c, hc⟩
    match way, hname, hc with
    | [name], hname, hc => exact .inl ⟨name, c, rfl, hc, hname⟩
    | name :: name' :: more, hname, hc =>
      rw [List.append_cons] at hc
      refine .inr ⟨name, name' :: more, rfl, h.mem_foldersIn.mpr ?_, ?_⟩
      · exact h.lookup?_of_append (List.cons_ne_nil _ _) hc
      · exact h.mem_schemaFiles.mpr ⟨hname, c, hc⟩
  · rintro (⟨name, c, rfl, hc, hname⟩ | ⟨name, more, rfl, -, hmore⟩)
    · exact ⟨hname, c, hc⟩
    · obtain ⟨hname, c, hc⟩ := h.mem_schemaFiles.mp hmore
      refine ⟨?_, c, by rwa [List.append_cons]⟩
      cases more with
      | nil => cases hname
      | cons name' more => exact hname

theorem isName_of_mem_schemaFiles (h : t.WellFormed) (hway : way ∈ t.schemaFiles loc) :
    ∀ name ∈ way, IsName name := by
  obtain ⟨-, c, hc⟩ := h.mem_schemaFiles.mp hway
  exact fun name hname => h.isName hc name (List.mem_append_right _ hname)

theorem spelledFrom_of_mem_filesIn (h : t.WellFormed) (hq : q ∈ t.filesIn loc dir) :
    SpelledFrom dir q := by
  obtain ⟨name, c, hc, -, rfl⟩ := h.mem_filesIn.mp hq
  exact ⟨[name], List.forall_mem_singleton.mpr (h.isName hc name (by simp)), rfl⟩

/-- **A scan finds what is below.** It finds the files in a folder, and what is found in the folders
in it, which have less below them. -/
theorem mem_scanFolder (h : t.WellFormed) (loc : Location) (dir : Path) :
    q ∈ t.scanFolder loc dir ↔ ∃ way ∈ t.schemaFiles loc, spell dir way = q := by
  induction loc, dir using scanFolder.induct t generalizing q with
  | case1 loc dir ih =>
    have hnested (p : Path) (hp : p ∈ (t.foldersIn loc).flatMap fun name =>
        t.scanFolder (loc ++ [name]) (dir.join ⟨name⟩)) : SpelledFrom dir p := by
      obtain ⟨name, hname, hp⟩ := List.mem_flatMap.mp hp
      obtain ⟨way, hway, rfl⟩ := (ih name hname).mp hp
      have hfolder := h.isName (h.mem_foldersIn.mp hname) name (by simp)
      exact ⟨name :: way, List.forall_mem_cons.mpr ⟨hfolder, h.isName_of_mem_schemaFiles hway⟩, rfl⟩
    have hmem (p : Path) : p ∈ (t.filesIn loc dir).foldl insertPath [] ↔ p ∈ t.filesIn loc dir := by
      rw [mem_foldl_insertPath (fun _ _ => SpelledFrom.eq_of_components) (List.forall_mem_nil _)
        fun p => h.spelledFrom_of_mem_filesIn]
      simp
    rw [scanFolder_eq, mem_foldl_insertPath (fun _ _ => SpelledFrom.eq_of_components)
      (fun p hp => h.spelledFrom_of_mem_filesIn ((hmem p).mp hp)) hnested, hmem, h.mem_filesIn,
      List.mem_flatMap]
    constructor
    · rintro (⟨name, c, hc, hname, rfl⟩ | ⟨name, hname, hq⟩)
      · exact ⟨[name], h.mem_schemaFiles_iff.mpr (.inl ⟨name, c, rfl, hc, hname⟩), rfl⟩
      · obtain ⟨way, hway, rfl⟩ := (ih name hname).mp hq
        exact ⟨name :: way, h.mem_schemaFiles_iff.mpr (.inr ⟨name, way, rfl, hname, hway⟩), rfl⟩
    · rintro ⟨way, hway, rfl⟩
      rcases h.mem_schemaFiles_iff.mp hway with
        ⟨name, c, rfl, hc, hname⟩ | ⟨name, way, rfl, hname, hway⟩
      · exact .inl ⟨name, c, hc, hname, rfl⟩
      · exact .inr ⟨name, hname, (ih name hname).mpr ⟨way, hway, rfl⟩⟩

/-- The schema files below a folder, spelled in the order of the ways to them. -/
theorem sorted_map_spell (h : t.WellFormed) (loc : Location) (dir : Path) :
    ((t.schemaFiles loc).map (spell dir)).Pairwise Path.Before := by
  have hstrict : (t.schemaFiles loc).Pairwise fun a b => a.le b = true ∧ a ≠ b :=
    (t.sorted_schemaFiles loc).and (h.nodup_schemaFiles loc)
  rw [List.pairwise_map]
  refine hstrict.imp_of_mem fun ha hb hab => ?_
  exact lex_components_spell (h.isName_of_mem_schemaFiles ha) (h.isName_of_mem_schemaFiles hb)
    hab.1 hab.2 dir

/-- **A scan lists what is below a folder** in the order of the ways to it. -/
theorem scan_eq (h : t.WellFormed) (dir : Path) : t.scan dir =
    match t.folder? dir with
    | none => []
    | some loc => (t.schemaFiles loc).map (spell dir) := by
  rw [scan]
  cases t.folder? dir with
  | none => rfl
  | some loc =>
    have hscan := t.sorted_scanFolder loc dir
    have hspell := h.sorted_map_spell loc dir
    have hne {p q : Path} (hpq : p.Before q) : p ≠ q := by
      rintro rfl
      exact Path.Before.irrefl p hpq
    refine List.Perm.eq_of_pairwise (fun p q _ _ hpq hqp => ?_) hscan hspell
      ((List.perm_ext_iff_of_nodup (hscan.imp hne) (hspell.imp hne)).mpr fun q => ?_)
    · exact absurd (hpq.trans hqp) (Path.Before.irrefl p)
    · rw [h.mem_scanFolder, List.mem_map]

end WellFormed

end FileTree

end Datamodel
