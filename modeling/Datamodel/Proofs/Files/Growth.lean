import Datamodel.FileTree
import Datamodel.Proofs.Except

/-! What making folders and writing a file leave as it was.

Making folders takes nothing away and makes nothing but folders, each on the way asked for, whether
or not it succeeds in the end (`FileTree.grows_makeFolders`). Writing a file then replaces what is
at one location, where no folder was (`FileTree.writable_eq_ok_iff`). -/

namespace Datamodel

namespace FileTree

/-- `t'` is `t` with folders made on a way. What is at the locations of `but` is left open. -/
structure Grows (way : List Path.Step) (but : List Location) (t t' : FileTree) : Prop where
  start : t'.start = t.start
  kept : ∀ loc ∉ but, ∀ e, t.lookup? loc = some e → t'.lookup? loc = some e
  made : ∀ loc ∉ but, ∀ e, t.lookup? loc = none → t'.lookup? loc = some e →
    e = .folder ∧ ∃ steps, steps <+: way ∧ t'.walk t'.start steps = .ok loc

variable {t t' t'' : FileTree} {loc l : Location} {steps more way : List Path.Step}

/-! ### Ways -/

theorem walk_cons_of_folder {s : Path.Step} (h : t.lookup? loc = some .folder) :
    t.walk loc (s :: more) = t.walk (loc.follow s) more := by
  rw [walk, h]

theorem walk_append (h : t.walk loc steps = .ok l) :
    t.walk loc (steps ++ more) = t.walk l more := by
  induction steps generalizing loc with
  | nil =>
    cases h
    rfl
  | cons s steps ih =>
    rw [walk] at h
    split at h
    · cases h
    · cases h
    · next hfolder =>
      rw [List.cons_append, walk_cons_of_folder hfolder]
      exact ih h

/-- A way stays as long as folders do. -/
theorem walk_of_folders (hfolders : ∀ l, t.lookup? l = some .folder → t'.lookup? l = some .folder)
    (h : t.walk loc steps = .ok l) : t'.walk loc steps = .ok l := by
  induction steps generalizing loc with
  | nil => exact h
  | cons s steps ih =>
    rw [walk] at h
    split at h
    · cases h
    · cases h
    · next hfolder =>
      rw [walk_cons_of_folder (hfolders loc hfolder)]
      exact ih h

theorem findSteps_of_walk {e : Entry} (hne : steps ≠ []) (hwalk : t.walk t.start steps = .ok loc)
    (he : t.lookup? loc = some e) : t.findSteps steps = .ok (loc, e) := by
  rw [findSteps, if_neg (by simpa using hne), hwalk]
  simp only [he]

theorem find_of_file {p : Path} {c : Content} (hslash : p.endsInSlash = false)
    (h : t.findSteps p.steps = .ok (loc, .file c)) : t.find p = .ok (loc, .file c) := by
  simp only [find, h, hslash, Bool.false_eq_true, if_false]

theorem lastFolder_eq_ok_iff : t.lastFolder steps = .ok loc ↔
    t.walk t.start steps.dropLast = .ok loc ∧ t.lookup? loc = some .folder := by
  constructor
  · intro h
    simp only [lastFolder] at h
    split at h
    · cases h
    · next hwalk =>
      split at h
      · cases h
      · cases h
      · next hfolder =>
        cases h
        exact ⟨hwalk, hfolder⟩
  · rintro ⟨hwalk, hfolder⟩
    simp only [lastFolder, hwalk, hfolder]

/-- The last step leads from the folder in which it is taken to the place of its name. -/
theorem walk_of_lastFolder_down {name : String} (hlast : steps.getLast? = some (.down name))
    (h : t.lastFolder steps = .ok loc) : t.walk t.start steps = .ok (loc ++ [name]) := by
  obtain ⟨hwalk, hfolder⟩ := lastFolder_eq_ok_iff.mp h
  obtain ⟨init, rfl⟩ := List.getLast?_eq_some_iff.mp hlast
  rw [List.dropLast_concat] at hwalk
  rw [walk_append hwalk, walk_cons_of_folder hfolder]
  rfl

/-- Putting something where no folder is leaves the folders. -/
theorem folders_put {e : Entry} (hne : loc ≠ []) (hloc : t.lookup? loc ≠ some .folder)
    (l : Location) (hl : t.lookup? l = some .folder) : (t.put loc e).lookup? l = some .folder := by
  have hother : l ≠ loc := by
    rintro rfl
    exact hloc hl
  rw [lookup?_put hne, if_neg hother, hl]

/-! ### Growing -/

namespace Grows

theorem refl (way : List Path.Step) (but : List Location) (t : FileTree) : Grows way but t t where
  start := rfl
  kept _ _ _ h := h
  made _ _ _ hnone hsome := absurd (hnone.symm.trans hsome) nofun

theorem folders (h : Grows way [] t t') (l : Location) (hl : t.lookup? l = some .folder) :
    t'.lookup? l = some .folder :=
  h.kept l List.not_mem_nil _ hl

theorem trans (h : Grows way [] t t') (h' : Grows way [] t' t'') : Grows way [] t t'' where
  start := h'.start.trans h.start
  kept l hl e he := h'.kept l hl e (h.kept l hl e he)
  made l hl e hnone hsome := by
    cases hmiddle : t'.lookup? l with
    | none => exact h'.made l hl e hmiddle hsome
    | some e' =>
      obtain ⟨rfl, steps, hsteps, hwalk⟩ := h.made l hl e' hnone hmiddle
      have hfolder := h'.folders l hmiddle
      rw [hfolder] at hsome
      cases hsome
      rw [← h'.start] at hwalk
      exact ⟨rfl, steps, hsteps, walk_of_folders h'.folders hwalk⟩

theorem mono {longer : List Path.Step} (h : Grows way [] t t') (hway : way <+: longer) :
    Grows longer [] t t' where
  start := h.start
  kept := h.kept
  made l hl e hnone hsome := by
    obtain ⟨he, steps, hsteps, hwalk⟩ := h.made l hl e hnone hsome
    exact ⟨he, steps, hsteps.trans hway, hwalk⟩

/-- A file that is written where no folder is stays the only other change. -/
theorem put {c : Content} (h : Grows way [] t t') (hne : loc ≠ [])
    (hloc : t'.lookup? loc ≠ some .folder) : Grows way [loc] t (t'.put loc (.file c)) where
  start := h.start
  kept l hl e he := by
    rw [lookup?_put hne, if_neg (by simpa using hl)]
    exact h.kept l List.not_mem_nil e he
  made l hl e hnone hsome := by
    rw [lookup?_put hne, if_neg (by simpa using hl)] at hsome
    obtain ⟨he, steps, hsteps, hwalk⟩ := h.made l List.not_mem_nil e hnone hsome
    exact ⟨he, steps, hsteps, walk_of_folders (folders_put hne hloc) hwalk⟩

end Grows

/-! ### Making folders -/

/-- A folder is made in a folder, where nothing is yet. -/
theorem makeFolder_eq_ok_iff : t.makeFolder steps = .ok t' ↔ ∃ loc name,
    steps.getLast? = some (.down name) ∧ t.lastFolder steps = .ok loc ∧
      t.lookup? (loc ++ [name]) = none ∧ t' = t.put (loc ++ [name]) .folder := by
  constructor
  · intro h
    simp only [makeFolder] at h
    split at h
    · cases h
    · next last hlast =>
      split at h
      · cases h
      · next loc hfolder =>
        split at h
        · next name =>
          split at h
          · cases h
          · next hnone =>
            cases h
            exact ⟨loc, name, hlast, hfolder, hnone, rfl⟩
        · cases h
  · rintro ⟨loc, name, hlast, hfolder, hnone, rfl⟩
    simp only [makeFolder, hlast, hfolder, hnone]

theorem grows_of_makeFolder (h : t.makeFolder steps = .ok t') : Grows steps [] t t' := by
  obtain ⟨loc, name, hlast, hfolder, hnone, rfl⟩ := makeFolder_eq_ok_iff.mp h
  have hne : loc ++ [name] ≠ [] := by simp
  have hkept : ∀ l e, t.lookup? l = some e →
      (t.put (loc ++ [name]) .folder).lookup? l = some e := by
    intro l e hl
    have hother : l ≠ loc ++ [name] := by
      rintro rfl
      rw [hnone] at hl
      cases hl
    rw [lookup?_put hne, if_neg hother, hl]
  refine ⟨rfl, fun l _ => hkept l, fun l _ e hl hsome => ?_⟩
  rw [lookup?_put hne] at hsome
  split at hsome
  · next heq =>
    cases hsome
    subst heq
    have hwalk := walk_of_lastFolder_down hlast hfolder
    exact ⟨rfl, steps, List.prefix_rfl, walk_of_folders (fun l => hkept l .folder) hwalk⟩
  · rw [hl] at hsome
    cases hsome

theorem grows_of_ensureFolder (h : t.ensureFolder steps = .ok t') : Grows steps [] t t' := by
  rw [ensureFolder] at h
  split at h
  · next hmade =>
    cases h
    exact grows_of_makeFolder hmade
  · split at h
    · cases h
      exact .refl steps [] t
    · cases h

/-- **Making folders takes nothing away** and makes nothing but folders on the way to the last of
them, also if it stops half-way. -/
theorem grows_makeFolders (t : FileTree) (steps : List Path.Step) :
    Grows steps [] t (t.makeFolders steps).1 := by
  fun_induction makeFolders t steps with
  | case1 => exact .refl [] [] t
  | case2 steps hne t' hmade => exact grows_of_ensureFolder hmade
  | case3 steps hne hmissing t' e hfailed ih =>
    rw [hfailed] at ih
    exact ih.mono (List.dropLast_prefix steps)
  | case4 steps hne hmissing t' hmade t'' hlast ih =>
    rw [hmade] at ih
    exact (ih.mono (List.dropLast_prefix steps)).trans (grows_of_ensureFolder hlast)
  | case5 steps hne hmissing t' hmade e hlast ih =>
    rw [hmade] at ih
    exact ih.mono (List.dropLast_prefix steps)
  | case6 steps hne e => exact .refl steps [] t

/-! ### Writing -/

/-- A file is written in a folder, where no folder is. -/
theorem writable_eq_ok_iff {p : Path} : t.writable p = .ok l ↔ ∃ loc name,
    p.steps.getLast? = some (.down name) ∧ t.lastFolder p.steps = .ok loc ∧
      p.endsInSlash = false ∧ t.lookup? (loc ++ [name]) ≠ some .folder ∧ l = loc ++ [name] := by
  constructor
  · intro h
    simp only [writable] at h
    split at h
    · cases h
    · next last hlast =>
      split at h
      · cases h
      · next loc hfolder =>
        split at h
        · next name =>
          split at h
          · cases h
          · next hplace =>
            cases h
            obtain ⟨hslash, hplace⟩ : p.endsInSlash = false ∧
                t.lookup? (loc ++ [name]) ≠ some .folder := by simpa using hplace
            exact ⟨loc, name, hlast, hfolder, hslash, hplace, rfl⟩
        · cases h
  · rintro ⟨loc, name, hlast, hfolder, hslash, hplace, rfl⟩
    simp only [writable, hlast, hfolder, hslash, Bool.false_or]
    rw [if_neg (by simpa using hplace)]

/-- What is written is at the end of the path. -/
theorem find_put_of_writable {p : Path} {c : Content} (h : t.writable p = .ok loc) :
    (t.put loc (.file c)).find p = .ok (loc, .file c) := by
  obtain ⟨folder, name, hlast, hfolder, hslash, hplace, rfl⟩ := writable_eq_ok_iff.mp h
  have hne : folder ++ [name] ≠ [] := by simp
  have hwalk := walk_of_folders (folders_put (e := .file c) hne hplace)
    (walk_of_lastFolder_down hlast hfolder)
  refine find_of_file hslash (findSteps_of_walk ?_ hwalk ?_)
  · rintro hnil
    rw [hnil] at hlast
    cases hlast
  · rw [lookup?_put hne, if_pos rfl]

end FileTree

end Datamodel
