import Datamodel.Proofs.Inputs.Repeated
import Datamodel.Proofs.Mixing.Frame

/-! Running a mixer twice.

What was saved is saved again without a change (`FileTree.save_of_save`), and the inputs of a
second run load what those of the first did (`FileTree.Rewrites.loadFragments`). So a second run of
a mixer gives what the first gave and leaves the tree as it is (`Mixer.run_of_run`), unless it takes
a file by a way upwards. There the output may be taken for an input, and a file twice, since paths
are told apart by their spelling. No file is taken so if no part of a pattern that begins with a dot
fits the folder above (`Mixer.straight_of_mem_inputs`). -/

namespace Datamodel

open Datamodel.Path (IsName)

namespace FileTree

variable {t t' : FileTree} {loc : Location} {e : Entry} {p : Path} {steps : List Path.Step}
  {text : String}

/-! ### Saving again -/

theorem leadsToFolder_iff :
    t.leadsToFolder steps = true ↔ ∃ loc, t.findSteps steps = .ok (loc, .folder) := by
  rw [leadsToFolder]
  split <;> grind

theorem leadsToFolder_of_makeFolder (h : t.makeFolder steps = .ok t') :
    t'.leadsToFolder steps = true := by
  obtain ⟨loc, name, hlast, hfolder, hnone, rfl⟩ := makeFolder_eq_ok_iff.mp h
  have hne : loc ++ [name] ≠ [] := by simp
  have hplace : t.lookup? (loc ++ [name]) ≠ some .folder := by simp [hnone]
  have hwalk := walk_of_folders (folders_put (e := .folder) hne hplace)
    (walk_of_lastFolder_down hlast hfolder)
  refine leadsToFolder_iff.mpr ⟨loc ++ [name], findSteps_of_walk ?_ hwalk ?_⟩
  · rintro rfl
    cases hlast
  · rw [lookup?_put hne, if_pos rfl]

theorem leadsToFolder_of_ensureFolder (h : t.ensureFolder steps = .ok t') :
    t'.leadsToFolder steps = true := by
  rw [ensureFolder] at h
  split at h
  · next hmade =>
    cases h
    exact leadsToFolder_of_makeFolder hmade
  · split at h
    · cases h
      assumption
    · cases h

theorem leadsToFolder_of_makeFolders (hne : steps ≠ [])
    (h : t.makeFolders steps = (t', .ok ())) : t'.leadsToFolder steps = true := by
  rw [makeFolders] at h
  rw [dif_neg hne] at h
  split at h
  · next hmade =>
    cases h
    exact leadsToFolder_of_ensureFolder hmade
  · split at h
    · cases h
    · split at h
      · next hmade =>
        cases h
        exact leadsToFolder_of_ensureFolder hmade
      · cases h
  · cases h

/-- A folder that is there is not made again. -/
theorem makeFolders_of_leadsToFolder (h : steps = [] ∨ t.leadsToFolder steps = true) :
    t.makeFolders steps = (t, .ok ()) := by
  rw [makeFolders]
  split
  · rfl
  · next hne =>
    have hleads := h.resolve_left hne
    have hensure : t.ensureFolder steps = .ok t := by
      rw [ensureFolder]
      split
      · next t' hmade =>
        obtain ⟨loc, name, hlast, hfolder, hnone, -⟩ := makeFolder_eq_ok_iff.mp hmade
        obtain ⟨loc', hfind⟩ := leadsToFolder_iff.mp hleads
        obtain ⟨-, hwalk, hthere⟩ := exists_walk_of_findSteps hfind
        rw [walk_of_lastFolder_down hlast hfolder] at hwalk
        cases hwalk
        rw [hnone] at hthere
        cases hthere
      · rw [if_pos hleads]
    rw [hensure]

theorem putEntry_putEntry (loc : Location) (e : Entry) (entries : List (Location × Entry)) :
    putEntry loc e (putEntry loc e entries) = putEntry loc e entries := by
  induction entries with
  | nil => simp [putEntry]
  | cons x entries ih =>
    obtain ⟨l, e'⟩ := x
    rw [putEntry]
    split
    · rw [putEntry, if_pos rfl]
    · next hne => rw [putEntry, if_neg hne, ih]

theorem write_of_write (h : t.write p text = .ok t') : t'.write p text = .ok t' := by
  obtain ⟨loc, hloc, rfl⟩ := exists_of_map h
  obtain ⟨folder, name, hlast, hfolder, hslash, hplace, rfl⟩ := writable_eq_ok_iff.mp hloc
  have hne : folder ++ [name] ≠ [] := by simp
  have hkept := folders_put (e := .file (.text text)) hne hplace
  obtain ⟨hwalk, hthere⟩ := lastFolder_eq_ok_iff.mp hfolder
  have hwritable : (t.put (folder ++ [name]) (.file (.text text))).writable p =
      .ok (folder ++ [name]) := by
    refine writable_eq_ok_iff.mpr ⟨folder, name, hlast, ?_, hslash, ?_, rfl⟩
    · exact lastFolder_eq_ok_iff.mpr ⟨walk_of_folders hkept hwalk, hkept folder hthere⟩
    · rw [lookup?_put hne, if_pos rfl]
      exact nofun
  rw [write, hwritable, Except.map, put, put, putEntry_putEntry]

/-- **What was saved is saved again** without a change. -/
theorem save_of_save (h : t.save p text = (t', .ok ())) : t'.save p text = (t', .ok ()) := by
  rw [save] at h
  split at h
  · cases h
  · next t₁ hmade =>
    split at h
    · cases h
    · next t₂ hwrite =>
      cases h
      have hfolders : p.parent?.getD [] = [] ∨ t'.leadsToFolder (p.parent?.getD []) = true := by
        by_cases hne : p.parent?.getD [] = []
        · exact .inl hne
        · obtain ⟨loc, hfind⟩ := leadsToFolder_iff.mp (leadsToFolder_of_makeFolders hne hmade)
          obtain ⟨-, hwalk, hthere⟩ := exists_walk_of_findSteps hfind
          obtain ⟨l, hl, rfl⟩ := exists_of_map hwrite
          obtain ⟨folder, name, -, -, -, hplace, rfl⟩ := writable_eq_ok_iff.mp hl
          have hkept := folders_put (e := .file (.text text)) (by simp) hplace
          have hfind' := findSteps_of_walk hne (walk_of_folders hkept hwalk) (hkept loc hthere)
          exact .inr (leadsToFolder_iff.mpr ⟨loc, hfind'⟩)
      rw [save, makeFolders_of_leadsToFolder hfolders]
      simp only [write_of_write hwrite]

/-! ### The tree after saving -/

theorem mem_steps_of_mem_parent {s : Path.Step} (h : s ∈ p.parent?.getD []) : s ∈ p.steps := by
  have hmem : s ∈ p.components := (List.dropLast_sublist _).mem (p.parent_isPrefix.mem h)
  rw [Path.components] at hmem
  split at hmem
  · next ss hsteps =>
    rw [hsteps]
    rcases List.mem_cons.mp hmem with rfl | hmem
    · exact List.mem_cons_self
    · exact List.mem_cons_of_mem _ (List.mem_of_mem_filter hmem)
  · exact List.mem_of_mem_filter hmem

theorem WellFormed.of_save (h : t.WellFormed) (p : Path) (text : String) :
    (t.save p text).1.WellFormed := by
  have hmade : (t.makeFolders (p.parent?.getD [])).1.WellFormed :=
    h.makeFolders fun name hname => Path.isName_of_down_mem (mem_steps_of_mem_parent hname)
  rw [FileTree.save]
  split
  · next heq => rwa [heq] at hmade
  · next heq =>
    rw [heq] at hmade
    split
    · exact hmade
    · next hwrite => exact hmade.write hwrite

theorem WellFormed.save (h : t.WellFormed) (hsaved : t.save p text = (t', .ok ())) :
    t'.WellFormed := by
  have := h.of_save p text
  rwa [hsaved] at this

/-- A tree that grows but for files at `outs` is one where they were written. -/
theorem Grows.written {way : List Path.Step} {outs : List Location} (hgrows : Grows way outs t t')
    (h : t.WellFormed) (h' : t'.WellFormed)
    (hplace : ∀ loc ∈ outs, t.lookup? loc ≠ some .folder)
    (hfile : ∀ loc ∈ outs, ∃ c, t'.lookup? loc = some (.file c)) : t.Written outs t' where
  wellFormed := h
  wellFormed' := h'
  start := hgrows.start
  kept := hgrows.kept
  made loc hloc e hnone hsome := (hgrows.made loc hloc e hnone hsome).1
  place := hplace
  file := hfile

/-- Saving writes the file that the path leads to, or none. -/
theorem written_of_save (h : t.WellFormed) (p : Path) (text : String) :
    match t.save p text with
    | (t', .error _) => t.Written [] t'
    | (t', .ok ()) => t.Written [p.resolve t.start] t' := by
  have hgrows := t.grows_save p text
  have h' := h.of_save p text
  cases hsaved : t.save p text with
  | mk t' result =>
    rw [hsaved] at hgrows h'
    cases result with
    | error reason => exact hgrows.written h h' nofun nofun
    | ok _ =>
      obtain ⟨loc, hfind, hplace, hgrows⟩ := hgrows
      have hloc : p.resolve t.start = loc := (hgrows.start ▸ resolve_of_find hfind).symm
      simp only [hloc]
      exact hgrows.written h h' (List.forall_mem_singleton.mpr hplace)
        (List.forall_mem_singleton.mpr ⟨_, lookup?_of_find hfind⟩)

/-- Saving through a straight path writes the file at its place. -/
theorem rewrites_of_save (h : t.WellFormed) (hp : p.Straight)
    (hsaved : t.save p text = (t', .ok ())) : t.Rewrites (p.place t.start) t' := by
  have hwritten := written_of_save h p text
  simp only [hsaved, hp.resolve_eq] at hwritten
  exact hwritten.rewrites

end FileTree

/-! ### Mixing again -/

namespace Mixer

variable {m : Mixer} {t t' : FileTree} {root : Path} {made : Mix}

theorem mix_eq_ok_iff : m.mix t root = .ok made ↔ ∃ inputs rendered,
    m.inputs t root = .ok inputs ∧
    (merge (loadFragments t inputs) m.datasource).toText = .ok rendered ∧
    made = {
      label := m.label, output := root.join ⟨m.output⟩, inputs
      fragments := (loadFragments t inputs).length
      schema := merge (loadFragments t inputs) m.datasource, rendered } := by
  constructor
  · intro h
    simp only [mix] at h
    split at h
    · cases h
    · next inputs hinputs =>
      split at h
      · cases h
      · next rendered hrendered =>
        cases h
        exact ⟨inputs, rendered, hinputs, hrendered, rfl⟩
  · rintro ⟨inputs, rendered, hinputs, hrendered, rfl⟩
    simp only [mix, hinputs, hrendered]

theorem run_eq_ok_iff : m.run t root = (t', .ok made) ↔
    m.mix t root = .ok made ∧ t.save made.output made.rendered = (t', .ok ()) := by
  rw [run]
  cases m.mix t root with
  | error e => simp
  | ok made' =>
    simp only
    constructor
    · intro h
      split at h <;> cases h
      exact ⟨rfl, ‹_›⟩
    · rintro ⟨heq, hsaved⟩
      cases heq
      rw [hsaved]

/-- The files that a mixer takes do not go up if no part of a pattern fits the folder above. -/
theorem straight_of_mem_inputs {inputs : List Path} (ht : t.WellFormed) (hroot : root.text ≠ "")
    (hup : root.Straight)
    (hinput : ∀ pattern ∈ m.input, Path.isAbsolute ⟨pattern⟩ = false ∧ Path.Straight ⟨pattern⟩)
    (hparts : ∀ pattern ∈ m.input, ∀ g, Glob.ofText (rootedPattern root pattern) = .ok g →
      ∀ part ∈ g.parts, FileTree.leadsUp part = false)
    (h : m.inputs t root = .ok inputs) : ∀ p ∈ inputs, p.Straight := by
  intro p hp
  obtain ⟨⟨pattern, hpattern, found, hfound, hmem⟩, -⟩ := of_mem_resolveInputs h hp
  obtain ⟨hrelative, hpup⟩ := hinput pattern hpattern
  exact straight_of_mem_expandPattern ht (Path.steps_ne_of_text_ne hroot) hup hrelative hpup
    (hparts pattern hpattern) hfound hmem

/-- **A second run changes nothing.** If root, patterns and output do not go up, and neither does
the spelling of a file that a second run takes, a mixer that succeeded succeeds again with the same
text, and leaves the tree as it is. -/
theorem run_of_run (ht : t.WellFormed) (hroot : root.text ≠ "") (hup : root.Straight)
    (hinput : ∀ pattern ∈ m.input, Path.isAbsolute ⟨pattern⟩ = false ∧ Path.Straight ⟨pattern⟩)
    (houtput : Path.isAbsolute ⟨m.output⟩ = false ∧ Path.Straight ⟨m.output⟩)
    (hrun : m.run t root = (t', .ok made))
    (hspelled : ∀ inputs, m.inputs t' root = .ok inputs → ∀ p ∈ inputs, p.Straight) :
    ∃ again, m.run t' root = (t', .ok again) ∧ again.rendered = made.rendered := by
  obtain ⟨hmix, hsaved⟩ := run_eq_ok_iff.mp hrun
  obtain ⟨inputs, rendered, hinputs, hrendered, rfl⟩ := mix_eq_ok_iff.mp hmix
  have hsteps := Path.steps_ne_of_text_ne hroot
  have hrewrites := FileTree.rewrites_of_save ht (hup.join houtput.2 houtput.1) hsaved
  obtain ⟨hinputs', hthere⟩ := hrewrites.resolveInputs hsteps hup hinput houtput.1 houtput.2 rfl
    hinputs hspelled
  have hloaded := hrewrites.loadFragments hthere
  have hmix' := mix_eq_ok_iff.mpr ⟨_, rendered, hinputs', hloaded ▸ hrendered, rfl⟩
  exact ⟨_, run_eq_ok_iff.mpr ⟨hmix', FileTree.save_of_save hsaved⟩, rfl⟩

/-- A second run finds the output in a folder that the first run made, and leaves it out. -/
theorem run_of_run_blog :
    let user := "model User \x7b\n  id Int @id\n  @@index([id])\n\x7d\n"
    let t : FileTree := { entries := [
      (["blog"], .folder), (["blog", "models"], .folder),
      (["blog", "models", "user.prisma"], .file (.text user))] }
    let m : Mixer := {
      input := ["*/*.prisma", "build", "missing.prisma"], output := "build/all.prisma" }
    let rendered := "// *** GENERATED BY SCHEMA MIXER :: DO NOT EDIT ***\n\n" ++ user
    let t' := (t.put ["blog", "build"] .folder).put ["blog", "build", "all.prisma"]
      (.file (.text rendered))
    ∃ again, m.run t' ⟨"blog"⟩ = (t', .ok again) ∧ again.rendered = rendered := by
  intro user t m rendered t'
  have ht : t.WellFormed := ⟨by decide, by decide, by decide +kernel, by decide, by decide⟩
  let inputs : List Path := [⟨"blog/models/user.prisma"⟩, ⟨"blog/build"⟩, ⟨"blog/missing.prisma"⟩]
  have hinput : ∀ pattern ∈ m.input,
      Path.isAbsolute ⟨pattern⟩ = false ∧ Path.Straight ⟨pattern⟩ := by decide
  let blog : Glob.Part := "blog".toList.map .char
  let anyName : Glob.Part := [.anyText]
  let ending : Glob.Part := .anyText :: ".prisma".toList.map .char
  have hways : t.ways ["blog"] = [["models"], ["models", "user.prisma"]] := by
    rw [FileTree.ways, FileTree.sortedBelow, List.mergeSort_of_pairwise (by decide +kernel)]
    decide +kernel
  have hways' : t.ways ["blog", "models"] = [["user.prisma"]] := by
    rw [FileTree.ways, FileTree.sortedBelow, List.mergeSort_of_pairwise (by decide +kernel)]
    decide +kernel
  have hblog : t.nexts blog [anyName, ending] ⟨"."⟩ = [⟨"blog"⟩] := by decide +kernel
  have hmodels : t.nexts anyName [ending] ⟨"blog"⟩ = [⟨"blog/models"⟩] := by
    have hfolder : t.folder? ⟨"blog"⟩ = some ["blog"] := by decide +kernel
    have hspelled : FileTree.spellEntry ⟨"blog"⟩ "models" = ⟨"blog/models"⟩ := by decide +kernel
    rw [FileTree.nexts_of_folder? rfl hfolder, hways]
    simp [anyName, FileTree.specials, FileTree.reach, Glob.fits, Glob.Part.isFolders, hspelled]
  have huser : t.nexts ending [] ⟨"blog/models"⟩ = [⟨"blog/models/user.prisma"⟩] := by
    have hfolder : t.folder? ⟨"blog/models"⟩ = some ["blog", "models"] := by decide +kernel
    have hspelled : FileTree.spellEntry ⟨"blog/models"⟩ "user.prisma" =
        ⟨"blog/models/user.prisma"⟩ := by decide +kernel
    rw [FileTree.nexts_of_folder? rfl hfolder, hways']
    simp [ending, FileTree.specials, FileTree.reach, Glob.fits, Glob.Part.isFolders, hspelled]
  have hexpand : t.expand [blog, anyName, ending] ⟨"."⟩ = [⟨"blog/models/user.prisma"⟩] :=
    calc t.expand [blog, anyName, ending] ⟨"."⟩
      _ = t.expand [anyName, ending] ⟨"blog"⟩ := by
        rw [FileTree.expand_cons ht, hblog, List.flatMap_singleton]
        rfl
      _ = t.expand [ending] ⟨"blog/models"⟩ := by
        rw [FileTree.expand_cons ht, hmodels, List.flatMap_singleton]
        rfl
      _ = [⟨"blog/models/user.prisma"⟩] := by
        rw [FileTree.expand_cons ht, huser, List.flatMap_singleton]
        rfl
  have hfound : expandPattern t ⟨"blog"⟩ "*/*.prisma" = .ok [⟨"blog/models/user.prisma"⟩] := by
    have hglob : Glob.ofText (rootedPattern ⟨"blog"⟩ "*/*.prisma") =
        .ok ⟨false, [blog, anyName, ending], false⟩ := eq_ok_of_toOption (by decide +kernel)
    have hfile : t.isFile ⟨"blog/models/user.prisma"⟩ := by decide +kernel
    rw [expandPattern, if_pos (by decide), hglob]
    simp only [FileTree.glob, Bool.false_eq_true, if_false, hexpand, List.filter_cons_of_pos hfile,
      List.filter_nil, List.mergeSort_singleton]
  have hinputs : m.inputs t ⟨"blog"⟩ = .ok inputs := by
    have hbuild : expandPattern t ⟨"blog"⟩ "build" = .ok [⟨"blog/build"⟩] :=
      eq_ok_of_toOption (by decide +kernel)
    have hmissing : expandPattern t ⟨"blog"⟩ "missing.prisma" = .ok [⟨"blog/missing.prisma"⟩] :=
      eq_ok_of_toOption (by decide +kernel)
    have hall : m.input.mapM (expandPattern t ⟨"blog"⟩) = .ok (inputs.map ([·])) := by
      rw [List.mapM_cons, hfound, List.mapM_cons, hbuild, List.mapM_cons, hmissing]
      rfl
    rw [Mixer.inputs, resolveInputs, hall]
    exact eq_ok_of_toOption (by decide +kernel)
  have hparts : ∀ pattern ∈ m.input, ∀ g, Glob.ofText (rootedPattern ⟨"blog"⟩ pattern) = .ok g →
      ∀ part ∈ g.parts, FileTree.leadsUp part = false := by
    have hall : ∀ pattern ∈ m.input,
      (Glob.ofText (rootedPattern ⟨"blog"⟩ pattern)).toOption.all
        fun g => g.parts.all fun part => !FileTree.leadsUp part := by decide +kernel
    intro pattern hpattern g hg part hpart
    have := hall pattern hpattern
    rw [hg] at this
    simpa using List.all_eq_true.mp this part hpart
  have hrendered : (merge (loadFragments t inputs) m.datasource).toText = .ok rendered :=
    eq_ok_of_toOption (by decide +kernel)
  have hsaved : t.save (Path.join ⟨"blog"⟩ ⟨m.output⟩) rendered = (t', .ok ()) := by decide +kernel
  have hmix := mix_eq_ok_iff.mpr ⟨_, _, hinputs, hrendered, rfl⟩
  have hrun := run_eq_ok_iff.mpr ⟨hmix, hsaved⟩
  exact run_of_run ht (by decide) (by decide) hinput (by decide) hrun fun again hagain =>
    straight_of_mem_inputs (ht.save hsaved) (by decide) (by decide) hinput hparts hagain

end Mixer

end Datamodel
