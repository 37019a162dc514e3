import Datamodel.Proofs.Files.Resolved
import Datamodel.Proofs.Inputs.Expansion

/-! Patterns in a tree where files were written.

Between a tree and the tree after files were written lie these files, and new folders. A path is
known if its way was there before, up to steps that stay where they are. Known paths lead to what
they led to before, but for the texts that were written, and a pattern finds the same of them in
the same order (`FileTree.Written.filter_glob`). What else it finds now is new: it is a
file that was written, or is reached through a folder that was made. -/

namespace Datamodel

open Datamodel.Path (Straight Step IsName)

namespace FileTree

/-- `t'` is `t` after files were written at `outs`, with folders where nothing was. -/
structure Written (outs : List Location) (t t' : FileTree) : Prop where
  wellFormed : t.WellFormed
  wellFormed' : t'.WellFormed
  start : t'.start = t.start
  kept : ∀ loc ∉ outs, ∀ e, t.lookup? loc = some e → t'.lookup? loc = some e
  made : ∀ loc ∉ outs, ∀ e, t.lookup? loc = none → t'.lookup? loc = some e → e = .folder
  place : ∀ loc ∈ outs, t.lookup? loc ≠ some .folder
  file : ∀ loc ∈ outs, ∃ c, t'.lookup? loc = some (.file c)

variable {t t' t'' : FileTree} {outs outs' : List Location} {loc l l' way : Location}
  {e e' : Entry} {p q base : Path} {name : String} {steps more : List Step} {part : Glob.Part}
  {parts : List Glob.Part}

/-! ### Ways -/

theorem exists_of_walk_append (h : t.walk loc (steps ++ more) = .ok l) :
    ∃ m, t.walk loc steps = .ok m ∧ t.walk m more = .ok l := by
  induction steps generalizing loc with
  | nil => exact ⟨loc, rfl, h⟩
  | cons s steps ih =>
    rw [List.cons_append, walk] at h
    split at h
    · cases h
    · cases h
    · next hfolder =>
      rw [walk_cons_of_folder hfolder]
      exact ih h

theorem eq_nil_or_folder_of_walk (h : t.walk loc steps = .ok l) :
    steps = [] ∨ t.lookup? loc = some .folder := by
  cases steps with
  | nil => exact .inl rfl
  | cons s steps =>
    rw [walk] at h
    split at h
    · cases h
    · cases h
    · next hfolder => exact .inr hfolder

/-- Something is where a way begins that leads to something. -/
theorem lookup?_ne_of_walk (h : t.walk loc steps = .ok l) (he : t.lookup? l ≠ none) :
    t.lookup? loc ≠ none := by
  rcases eq_nil_or_folder_of_walk h with rfl | hfolder
  · cases h
    exact he
  · rw [hfolder]
    exact nofun

/-- Steps that stay where they are can be left out. -/
theorem walk_filter (h : t.walk loc steps = .ok l) :
    t.walk loc (steps.filter (· != .here)) = .ok l := by
  induction steps generalizing loc with
  | nil => exact h
  | cons s steps ih =>
    have hfolder := (eq_nil_or_folder_of_walk h).resolve_left (List.cons_ne_nil s steps)
    rw [walk_cons_of_folder hfolder] at h
    rw [List.filter_cons]
    split
    · rw [walk_cons_of_folder hfolder]
      exact ih h
    · next hhere =>
      have hhere : s = .here := by simpa using hhere
      rw [hhere] at h
      exact ih h

theorem lookup?_of_find (h : t.find p = .ok (loc, e)) : t.lookup? loc = some e :=
  (exists_walk_of_findSteps (find_eq_ok_iff.mp h).1).2.2

/-! ### Known paths -/

/-- Whether the way that a path describes leads to something. -/
def known (t : FileTree) (p : Path) : Bool :=
  match t.walk t.start p.normal with
  | .error _ => false
  | .ok loc => (t.lookup? loc).isSome

theorem known_iff : t.known p ↔ ∃ loc, t.walk t.start p.normal = .ok loc ∧ t.lookup? loc ≠ none := by
  rw [known]
  split
  · next hwalk => simp [hwalk]
  · next hwalk => simp [hwalk, Option.isSome_iff_ne_none]

theorem known_congr (h : p.normal = q.normal) : t.known p = t.known q := by rw [known, known, h]

theorem known_of_find (h : t.find p = .ok (loc, e)) : t.known p := by
  obtain ⟨-, hwalk, he⟩ := exists_walk_of_findSteps (find_eq_ok_iff.mp h).1
  exact known_iff.mpr ⟨loc, walk_filter hwalk, by simp [he]⟩

/-- The way of a path is known if it goes on to something. -/
theorem known_of_extends (hpq : p.Extends q) (hq : t.known q) : t.known p := by
  obtain ⟨l, hwalk, hl⟩ := known_iff.mp hq
  obtain ⟨steps, hsteps⟩ := hpq.normal
  rw [← hsteps] at hwalk
  obtain ⟨loc, hfirst, hmore⟩ := exists_of_walk_append hwalk
  exact known_iff.mpr ⟨loc, hfirst, lookup?_ne_of_walk hmore hl⟩

/-- A known spelling of a way leads to something at the end of it. -/
theorem lookup?_of_spells (hfind : t.find p = .ok (loc, e)) (hpq : Spells p way q)
    (hq : t.known q) : t.lookup? (loc ++ way) ≠ none := by
  obtain ⟨-, hwalk, -⟩ := exists_walk_of_findSteps (find_eq_ok_iff.mp hfind).1
  obtain ⟨l, hwalk', hl⟩ := known_iff.mp hq
  rw [hpq.normal] at hwalk'
  obtain ⟨loc', hfirst, hmore⟩ := exists_of_walk_append hwalk'
  cases hfirst.symm.trans (walk_filter hwalk)
  rw [foldl_of_walk hmore, Path.foldl_down] at hl
  exact hl

theorem WellFormed.walk_down (ht : t.WellFormed) (h : t.lookup? (loc ++ way) ≠ none) :
    t.walk loc (way.map .down) = .ok (loc ++ way) := by
  induction way generalizing loc with
  | nil => exact congrArg Except.ok (List.append_nil loc).symm
  | cons name way ih =>
    obtain ⟨e, he⟩ := Option.ne_none_iff_exists'.mp h
    have hfolder := ht.lookup?_of_append (List.cons_ne_nil name way) he
    have hmore : t.lookup? ((loc ++ [name]) ++ way) ≠ none := by
      rwa [List.append_assoc]
    rw [List.map_cons, walk_cons_of_folder hfolder]
    exact (ih hmore).trans (congrArg Except.ok (List.append_assoc loc [name] way))

/-- A straight path is known if something is at its place. -/
theorem WellFormed.known_of_straight (ht : t.WellFormed) (hp : p.Straight)
    (he : t.lookup? (p.place t.start) ≠ none) : t.known p := by
  refine known_iff.mpr ⟨p.place t.start, ?_, he⟩
  rw [Path.place] at he ⊢
  rw [hp.normal_eq]
  cases habsolute : p.isAbsolute with
  | false =>
    rw [habsolute] at he
    exact ht.walk_down he
  | true =>
    rw [habsolute] at he
    rw [if_pos rfl, List.singleton_append, walk_cons_of_folder ht.start]
    exact ht.walk_down he

namespace Written

theorem refl (ht : t.WellFormed) : t.Written [] t where
  wellFormed := ht
  wellFormed' := ht
  start := rfl
  kept _ _ _ h := h
  made _ _ _ hnone hsome := absurd (hnone.symm.trans hsome) nofun
  place := nofun
  file := nofun

/-! ### Finding -/

/-- What is there stays a file or a folder, as it was. -/
theorem exists_of_lookup? (h : t.Written outs t') (he : t.lookup? loc = some e) :
    ∃ e', t'.lookup? loc = some e' ∧ (e = .folder ↔ e' = .folder) := by
  by_cases hloc : loc ∈ outs
  · obtain ⟨c, hc⟩ := h.file loc hloc
    refine ⟨_, hc, fun hfolder => ?_, nofun⟩
    exact absurd (hfolder ▸ he) (h.place loc hloc)
  · exact ⟨e, h.kept loc hloc e he, Iff.rfl⟩

theorem folders (h : t.Written outs t') (loc : Location) (hloc : t.lookup? loc = some .folder) :
    t'.lookup? loc = some .folder := by
  obtain ⟨e', he', hkind⟩ := h.exists_of_lookup? hloc
  rw [he', hkind.mp rfl]

theorem trans (h : t.Written outs t') (h' : t'.Written outs' t'') :
    t.Written (outs ++ outs') t'' where
  wellFormed := h.wellFormed
  wellFormed' := h'.wellFormed'
  start := h'.start.trans h.start
  kept loc hloc e he := by
    rw [List.mem_append, not_or] at hloc
    exact h'.kept loc hloc.2 e (h.kept loc hloc.1 e he)
  made loc hloc e hnone hsome := by
    rw [List.mem_append, not_or] at hloc
    cases hmiddle : t'.lookup? loc with
    | none => exact h'.made loc hloc.2 e hmiddle hsome
    | some e' =>
      have hkept := h'.kept loc hloc.2 e' hmiddle
      cases hsome.symm.trans hkept
      exact h.made loc hloc.1 e hnone hmiddle
  place loc hloc hfolder := by
    rcases List.mem_append.mp hloc with hloc | hloc
    · exact h.place loc hloc hfolder
    · exact h'.place loc hloc (h.folders loc hfolder)
  file loc hloc := by
    by_cases hloc' : loc ∈ outs'
    · exact h'.file loc hloc'
    · obtain ⟨c, hc⟩ := h.file loc ((List.mem_append.mp hloc).resolve_right hloc')
      exact ⟨c, h'.kept loc hloc' _ hc⟩

theorem folder_of_folder (h : t.Written outs t') (hloc : t'.lookup? loc = some .folder)
    (hold : t.lookup? loc ≠ none) : t.lookup? loc = some .folder := by
  obtain ⟨e, he⟩ := Option.ne_none_iff_exists'.mp hold
  obtain ⟨e', he', hkind⟩ := h.exists_of_lookup? he
  rw [hloc] at he'
  cases he'
  rw [he, hkind.mpr rfl]

/-- A way whose steps to other places were there was there with all its steps. -/
theorem walk_of_walk (h : t.Written outs t') (hwalk' : t'.walk loc steps = .ok l')
    (hwalk : t.walk loc (steps.filter (· != .here)) = .ok l) (hl : t.lookup? l ≠ none) :
    t.walk loc steps = .ok l := by
  induction steps generalizing loc with
  | nil => exact hwalk
  | cons s steps ih =>
    have hfolder' := (eq_nil_or_folder_of_walk hwalk').resolve_left (List.cons_ne_nil s steps)
    have hfolder := h.folder_of_folder hfolder' (lookup?_ne_of_walk hwalk hl)
    rw [walk_cons_of_folder hfolder'] at hwalk'
    rw [walk_cons_of_folder hfolder]
    rw [List.filter_cons] at hwalk
    split at hwalk
    · rw [walk_cons_of_folder hfolder] at hwalk
      exact ih hwalk' hwalk
    · next hhere =>
      have hhere : s = .here := by simpa using hhere
      rw [hhere] at hwalk' ⊢
      exact ih hwalk' hwalk

/-- What a path leads to stays a file or a folder, as it was. -/
theorem exists_of_find (h : t.Written outs t') (hfind : t.find p = .ok (loc, e)) :
    ∃ e', t'.find p = .ok (loc, e') ∧ (e = .folder ↔ e' = .folder) := by
  obtain ⟨hsteps, hslash⟩ := find_eq_ok_iff.mp hfind
  obtain ⟨hne, hwalk, he⟩ := exists_walk_of_findSteps hsteps
  obtain ⟨e', he', hkind⟩ := h.exists_of_lookup? he
  have hwalk' := walk_of_folders h.folders hwalk
  rw [← h.start] at hwalk'
  have hsteps' := findSteps_of_walk hne hwalk' he'
  exact ⟨e', find_eq_ok_iff.mpr ⟨hsteps', fun hs => hkind.mp (hslash hs)⟩, hkind⟩

/-- **A known path** leads nowhere else than before. -/
theorem exists_of_known (h : t.Written outs t') (hp : t.known p)
    (hfind : t'.find p = .ok (loc, e')) :
    ∃ e, t.find p = .ok (loc, e) ∧ (e = .folder ↔ e' = .folder) := by
  obtain ⟨hsteps, hslash⟩ := find_eq_ok_iff.mp hfind
  obtain ⟨hne, hwalk', he'⟩ := exists_walk_of_findSteps hsteps
  obtain ⟨l, hwalk, hl⟩ := known_iff.mp hp
  rw [h.start] at hwalk'
  have hwalk := h.walk_of_walk hwalk' hwalk hl
  cases (walk_of_folders h.folders hwalk).symm.trans hwalk'
  obtain ⟨e, he⟩ := Option.ne_none_iff_exists'.mp hl
  obtain ⟨e'', he'', hkind⟩ := h.exists_of_lookup? he
  cases he'.symm.trans he''
  have hsteps := findSteps_of_walk hne hwalk he
  exact ⟨e, find_eq_ok_iff.mpr ⟨hsteps, fun hs => hkind.mpr (hslash hs)⟩, hkind⟩

theorem folder?_eq (h : t.Written outs t') (hp : t.known p) : t'.folder? p = t.folder? p := by
  refine Option.ext fun loc => ?_
  rw [folder?_eq_some_iff, folder?_eq_some_iff]
  constructor
  · intro hfind
    obtain ⟨e, hfind', hkind⟩ := h.exists_of_known hp hfind
    rwa [hkind.mpr rfl] at hfind'
  · intro hfind
    obtain ⟨e', hfind', hkind⟩ := h.exists_of_find hfind
    rwa [hkind.mp rfl] at hfind'

theorem isFolder_eq (h : t.Written outs t') (hp : t.known p) : t'.isFolder p = t.isFolder p := by
  rw [isFolder, isFolder, h.folder?_eq hp]

theorem has_eq (h : t.Written outs t') (hp : t.known p) : t'.has p = t.has p := by
  rw [Bool.eq_iff_iff, has_iff, has_iff]
  constructor
  · rintro ⟨loc, e', hfind⟩
    obtain ⟨e, hfind', -⟩ := h.exists_of_known hp hfind
    exact ⟨loc, e, hfind'⟩
  · rintro ⟨loc, e, hfind⟩
    obtain ⟨e', hfind', -⟩ := h.exists_of_find hfind
    exact ⟨loc, e', hfind'⟩

theorem isFile_eq (h : t.Written outs t') (hp : t.known p) : t'.isFile p = t.isFile p := by
  rw [Bool.eq_iff_iff, isFile_iff, isFile_iff]
  constructor
  · rintro ⟨loc, c', hfind⟩
    obtain ⟨e, hfind', hkind⟩ := h.exists_of_known hp hfind
    cases e with
    | folder => exact absurd (hkind.mp rfl) nofun
    | file c => exact ⟨loc, c, hfind'⟩
  · rintro ⟨loc, c, hfind⟩
    obtain ⟨e', hfind', hkind⟩ := h.exists_of_find hfind
    cases e' with
    | folder => exact absurd (hkind.mpr rfl) nofun
    | file c' => exact ⟨loc, c', hfind'⟩

/-- A known path leads to what it led to before, unless that was written. -/
theorem find_iff (h : t.Written outs t') (hp : t.known p) (hout : p.resolve t.start ∉ outs) :
    t'.find p = .ok (loc, e) ↔ t.find p = .ok (loc, e) := by
  have hsame {e e' : Entry} (hfind : t.find p = .ok (loc, e)) (hfind' : t'.find p = .ok (loc, e')) :
      e = e' := by
    have hkept := h.kept loc (resolve_of_find hfind ▸ hout) e (lookup?_of_find hfind)
    exact Option.some.inj (hkept.symm.trans (lookup?_of_find hfind'))
  constructor
  · intro hfind'
    obtain ⟨e₀, hfind, -⟩ := h.exists_of_known hp hfind'
    rwa [hsame hfind hfind'] at hfind
  · intro hfind
    obtain ⟨e', hfind', -⟩ := h.exists_of_find hfind
    rwa [← hsame hfind hfind'] at hfind'

/-- A file that was not written was there before. -/
theorem lookup?_of_file (h : t.Written outs t') (hout : loc ∉ outs) {c : Content}
    (hfile : t'.lookup? loc = some (.file c)) : t.lookup? loc = some (.file c) := by
  cases hlookup : t.lookup? loc with
  | none => exact absurd (h.made loc hout _ hlookup hfile) nofun
  | some e => exact (h.kept loc hout e hlookup).symm.trans hfile

/-! ### Expanding -/

/-- What was below a folder is listed as before. -/
theorem ways_eq (h : t.Written outs t') (loc : Location) :
    t.ways loc = (t'.ways loc).filter fun way => (t.lookup? (loc ++ way)).isSome := by
  refine eq_of_sorted Location.le_antisymm (sorted_ways t loc) ((sorted_ways t' loc).filter _)
    (h.wellFormed.nodup_ways loc) ((h.wellFormed'.nodup_ways loc).filter _) fun way => ?_
  rw [List.mem_filter, h.wellFormed.mem_ways, h.wellFormed'.mem_ways, Option.isSome_iff_exists]
  constructor
  · rintro ⟨hne, e, he⟩
    obtain ⟨e', he', -⟩ := h.exists_of_lookup? he
    exact ⟨⟨hne, e', he'⟩, e, he⟩
  · rintro ⟨⟨hne, -⟩, he⟩
    exact ⟨hne, he⟩

theorem reach_eq (h : t.Written outs t') (hold : t.lookup? (loc ++ way) ≠ none) :
    t'.reach part parts p loc way = t.reach part parts p loc way := by
  obtain ⟨e, he⟩ := Option.ne_none_iff_exists'.mp hold
  obtain ⟨e', he', hkind⟩ := h.exists_of_lookup? he
  have hfolder : t'.lookup? (loc ++ way) = some .folder ↔
      t.lookup? (loc ++ way) = some .folder := by
    rw [he, he', Option.some.injEq, Option.some.injEq, hkind]
  unfold reach
  simp only [hfolder]

/-- The known next paths are those that were found before. -/
theorem filter_nexts (h : t.Written outs t') (hp : p.steps ≠ []) (hknown : t.known p) :
    (t'.nexts part parts p).filter t.known = (t.nexts part parts p).filter t.known := by
  rw [nexts, nexts]
  cases hliteral : part.literal? with
  | some name =>
    simp only
    by_cases hnext : t.known (spellEntry p name)
    · rw [leadsOn, leadsOn, h.isFolder_eq hknown, h.has_eq hnext]
    · split <;> split <;> simp [hnext]
  | none =>
    simp only [h.folder?_eq hknown]
    cases hfolder : t.folder? p with
    | none => rfl
    | some loc =>
      simp only
      rw [List.filter_append, List.filter_append, h.ways_eq loc, List.filter_filterMap,
        List.filter_filterMap, List.filterMap_filter]
      congr 1
      refine List.filterMap_congr fun way hway => ?_
      cases hold : t.lookup? (loc ++ way) with
      | some e => rw [h.reach_eq (by simp [hold]), if_pos (by simp)]
      | none =>
        rw [if_neg (by simp), Option.filter_eq_none_iff]
        intro next hreach hnext
        have hspells := spells_of_reach hp (isName_of_mem_ways h.wellFormed' hway) hreach
        exact lookup?_of_spells (folder?_eq_some_iff.mp hfolder) hspells hnext hold

theorem flatMap_filter_of_nil {α β : Type} {f : α → List β} {keep : α → Bool} {xs : List α}
    (h : ∀ x ∈ xs, keep x = false → f x = []) : xs.flatMap f = (xs.filter keep).flatMap f := by
  induction xs with
  | nil => rfl
  | cons x xs ih =>
    obtain ⟨hx, hxs⟩ := List.forall_mem_cons.mp h
    rw [List.flatMap_cons, ih hxs, List.filter_cons]
    split
    · rw [List.flatMap_cons]
    · next hkeep => rw [hx (by simpa using hkeep), List.nil_append]

/-- No path that goes on from an unknown one is known. -/
theorem filter_eq_nil {ps : List Path} (hp : t.known p = false) (hps : ∀ q ∈ ps, p.Extends q) :
    ps.filter t.known = [] := by
  rw [List.filter_eq_nil_iff]
  intro q hq hknown
  rw [known_of_extends (hps q hq) hknown] at hp
  cases hp

/-- **The known paths that fit a pattern** are those that were found before. -/
theorem filter_expand {parts : List Glob.Part} {p : Path} (h : t.Written outs t')
    (hslash : Slashless parts) (hp : p.steps ≠ []) :
    (t'.expand parts p).filter t.known = (t.expand parts p).filter t.known := by
  have hnil {s : FileTree} (hs : s.WellFormed) {parts : List Glob.Part} (hslash : Slashless parts)
      {p : Path} (hp : p.steps ≠ []) (hknown : t.known p = false) :
      (s.expand parts p).filter t.known = [] :=
    filter_eq_nil hknown fun q hq => extends_of_mem_expand hs hslash hp hq
  cases hknown : t.known p with
  | false => rw [hnil h.wellFormed hslash hp hknown, hnil h.wellFormed' hslash hp hknown]
  | true =>
    match parts with
    | [] => rw [expand_nil, expand_nil]
    | part :: more =>
      have hrest := slashless_rest hslash
      have hnexts {s : FileTree} (hs : s.WellFormed) : ((s.nexts part more p).flatMap
          fun next => (s.expand (rest part more) next).filter t.known) =
          ((s.nexts part more p).filter t.known).flatMap
            fun next => (s.expand (rest part more) next).filter t.known :=
        flatMap_filter_of_nil fun next hnext hknown =>
          hnil hs hrest (extends_of_mem_nexts hs hslash hp hnext).steps_ne hknown
      rw [expand_cons h.wellFormed, expand_cons h.wellFormed', List.filter_flatMap,
        List.filter_flatMap, hnexts h.wellFormed, hnexts h.wellFormed', h.filter_nexts hp hknown]
      refine List.flatMap_congr fun next hnext => ?_
      have hnext := List.mem_of_mem_filter hnext
      have hne := (extends_of_mem_nexts h.wellFormed hslash hp hnext).steps_ne
      exact filter_expand h hrest hne
termination_by parts.length
decreasing_by exact Nat.lt_succ_of_le (length_rest_le _ _)

/-! ### Globs and folders -/

/-- A test that has not changed on known paths can be made before or after. -/
theorem filter_filter_known {test test' : Path → Bool} {ps ps' : List Path}
    (htest : ∀ p, t.known p = true → test' p = test p)
    (hps : ps'.filter t.known = ps.filter t.known) :
    (ps'.filter test').filter t.known = (ps.filter test).filter t.known := by
  rw [List.filter_comm t.known, hps, List.filter_comm t.known]
  exact List.filter_congr fun p hp => htest p (List.mem_filter.mp hp).2

theorem filter_glob {g : Glob} (h : t.Written outs t') (hslash : Slashless g.parts) :
    (t'.glob g).filter t.known = (t.glob g).filter t.known := by
  have hexpand := h.filter_expand hslash (steps_origin_ne g)
  rw [glob, glob]
  split
  · exact filter_filter_known (fun p hp => h.isFolder_eq hp) hexpand
  · exact hexpand

theorem filter_scan (h : t.Written outs t') (hp : p.steps ≠ []) :
    (t'.scan p).filter t.known = (t.scan p).filter t.known := by
  cases hknown : t.known p with
  | false =>
    rw [filter_eq_nil hknown fun q => extends_of_mem_scan h.wellFormed hp,
      filter_eq_nil hknown fun q => extends_of_mem_scan h.wellFormed' hp]
  | true =>
    rw [h.wellFormed'.scan_eq, h.wellFormed.scan_eq, h.folder?_eq hknown]
    cases hfolder : t.folder? p with
    | none => rfl
    | some loc =>
      -- Both folders hold the same known schema files, and list them in the same order.
      simp only [List.filter_map]
      congr 1
      refine eq_of_sorted Location.le_antisymm ((sorted_schemaFiles t' loc).filter _)
        ((sorted_schemaFiles t loc).filter _) ((h.wellFormed'.nodup_schemaFiles loc).filter _)
        ((h.wellFormed.nodup_schemaFiles loc).filter _) fun way => ?_
      rw [List.mem_filter, List.mem_filter, h.wellFormed.mem_schemaFiles,
        h.wellFormed'.mem_schemaFiles]
      constructor
      · rintro ⟨⟨hname, c', hc'⟩, hway⟩
        have hnames := fun name hmem => h.wellFormed'.isName hc' name (List.mem_append_right _ hmem)
        have hspells := spells_foldl spells_join hp hnames
        have hold := lookup?_of_spells (folder?_eq_some_iff.mp hfolder) hspells hway
        obtain ⟨e, he⟩ := Option.ne_none_iff_exists'.mp hold
        obtain ⟨e', he', hkind⟩ := h.exists_of_lookup? he
        cases hc'.symm.trans he'
        cases e with
        | folder => cases hkind.mp rfl
        | file c => exact ⟨⟨hname, c, he⟩, hway⟩
      · rintro ⟨⟨hname, c, hc⟩, hway⟩
        obtain ⟨e', he', hkind⟩ := h.exists_of_lookup? hc
        cases e' with
        | folder => cases hkind.mpr rfl
        | file c' => exact ⟨⟨hname, c', he'⟩, hway⟩

end Written

end FileTree

end Datamodel
