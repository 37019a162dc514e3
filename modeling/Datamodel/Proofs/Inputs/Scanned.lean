import Datamodel.Proofs.Inputs.Written
import Datamodel.Proofs.Text.Search
import Mathlib.Data.List.TakeDrop
import Mathlib.Data.List.TakeWhile

/-! The schema files below a folder.

A scan lists each file below a folder whose name is that of a schema file, at any depth and once,
by the path of the folder with the way from there behind it (`FileTree.WellFormed.scan_exact`). The
components of such a path are those of the folder and then the names on the way, so the paths are
in the order in which the ways are sorted. -/

namespace Datamodel

open Datamodel.Path (IsName Step)

/-! ### Names -/

/-- An extension stands behind the last dot of a name, and something stands in front of it. -/
theorem Path.nameExtension?_eq_some_iff {name ext : String} :
    nameExtension? name = some ext ↔
      '.' ∉ ext.toList ∧ ∃ stem, stem ≠ "" ∧ name = stem ++ "." ++ ext := by
  -- The name is read from its end.
  rw [nameExtension?, List.span_eq_takeWhile_dropWhile]
  constructor
  · intro h
    split at h
    · next last d front heq =>
      cases h
      obtain ⟨htake, hdrop⟩ := Prod.mk.inj heq
      have hname : name.toList = (d :: front).reverse ++ '.' :: last.reverse := by
        have hwhole := List.takeWhile_append_dropWhile (p := (· != '.')) (l := name.toList.reverse)
        rw [htake, hdrop] at hwhole
        rw [← List.reverse_reverse name.toList, ← hwhole]
        simp
      refine ⟨?_, String.ofList (d :: front).reverse, ?_, String.ext ?_⟩
      · rw [String.toList_ofList, List.mem_reverse, ← htake]
        intro hdot
        simpa using List.mem_takeWhile_imp hdot
      · exact fun hempty => by simpa using congrArg String.toList hempty
      · simp [hname]
    · cases h
  · rintro ⟨hext, stem, hstem, rfl⟩
    obtain ⟨front, d, hfront⟩ := List.eq_nil_or_concat' stem.toList |>.resolve_left
      (String.toList_eq_nil_iff.not.mpr hstem)
    have hreverse : (stem ++ "." ++ ext).toList.reverse =
        ext.toList.reverse ++ '.' :: d :: front.reverse := by
      simp [hfront]
    have hspan := Text.span_append (p := (· != '.')) (s := ext.toList.reverse)
      (t := '.' :: d :: front.reverse)
      (Text.bne_of_not_mem (by rwa [List.mem_reverse])) (by rintro _ ⟨⟩; decide)
    rw [Text.span] at hspan
    rw [hreverse, hspan]
    simp

/-- A schema file has the extension, and neither the name that is written to nor the ending of a
file that is left out. -/
theorem isSchemaName_iff {name : String} : isSchemaName name = true ↔
    (∃ stem, stem ≠ "" ∧ name = stem ++ ".prisma") ∧ name ≠ "schema.prisma" ∧
      ¬∃ stem, name = stem ++ ".ignore.prisma" := by
  have hending : ignoredEnding.toList.isSuffixOf name.toList = true ↔
      ∃ stem, name = stem ++ ".ignore.prisma" := by
    rw [List.isSuffixOf_iff_suffix]
    constructor
    · rintro ⟨front, hfront⟩
      exact ⟨String.ofList front, String.ext (by simp [← hfront, ignoredEnding])⟩
    · rintro ⟨stem, rfl⟩
      exact ⟨stem.toList, by simp [ignoredEnding]⟩
  have hextension : Path.nameExtension? name = some "prisma" ↔
      ∃ stem, stem ≠ "" ∧ name = stem ++ ".prisma" := by
    rw [Path.nameExtension?_eq_some_iff, and_iff_right (by decide)]
    refine exists_congr fun stem => and_congr_right fun _ => ?_
    rw [String.append_assoc]
    rfl
  rw [isSchemaName, Bool.and_eq_true, Bool.and_eq_true, beq_iff_eq, bne_iff_ne, Bool.not_eq_true',
    Bool.eq_false_iff, Ne, Ne, hending, hextension, and_assoc]
  rfl

/-! ### Scanning -/

namespace FileTree

variable {t : FileTree} {p dir : Path} {loc way : Location} {c : Content}

namespace WellFormed

/-- The file at the end of a way from a folder is found by the path of the folder with the way
behind it. -/
theorem find_spell (ht : t.WellFormed) (hfolder : t.find dir = .ok (loc, .folder)) (hne : way ≠ [])
    (hfile : t.lookup? (loc ++ way) = some (.file c)) :
    t.find (spell dir way) = .ok (loc ++ way, .file c) := by
  have hway : ∀ name ∈ way, IsName name := fun name hname =>
    ht.isName hfile name (List.mem_append_right _ hname)
  obtain ⟨hsteps, hwalk, -⟩ := exists_walk_of_findSteps (find_eq_ok_iff.mp hfolder).1
  have hwhole : t.walk t.start (spell dir way).steps = .ok (loc ++ way) := by
    rw [steps_spell hway, walk_append hwalk]
    exact ht.walk_down (by rw [hfile]; exact nofun)
  have hsteps' : (spell dir way).steps ≠ [] := by simp [steps_spell hway, hsteps]
  refine find_eq_ok_iff.mpr ⟨findSteps_of_walk hsteps' hwhole hfile, fun hslash => ?_⟩
  rw [(spell_eq_join hne hway dir).2] at hslash
  cases hslash

theorem mem_scan_iff (ht : t.WellFormed) : p ∈ t.scan dir ↔ ∃ loc way name c,
    t.find dir = .ok (loc, .folder) ∧ t.lookup? (loc ++ way ++ [name]) = some (.file c) ∧
      isSchemaName name = true ∧ p = spell dir (way ++ [name]) := by
  rw [ht.scan_eq]
  constructor
  · intro hp
    split at hp
    · cases hp
    · next loc hfolder =>
      obtain ⟨whole, hwhole, rfl⟩ := List.mem_map.mp hp
      obtain ⟨hname, c, hc⟩ := ht.mem_schemaFiles.mp hwhole
      rcases List.eq_nil_or_concat' whole with rfl | ⟨way, name, rfl⟩
      · cases hname
      · rw [List.getLast?_concat] at hname
        rw [← List.append_assoc] at hc
        exact ⟨loc, way, name, c, folder?_eq_some_iff.mp hfolder, hc, hname, rfl⟩
  · rintro ⟨loc, way, name, c, hfolder, hfile, hname, rfl⟩
    rw [folder?_eq_some_iff.mpr hfolder]
    refine List.mem_map_of_mem (ht.mem_schemaFiles.mpr ⟨?_, c, ?_⟩)
    · simpa using hname
    · rwa [← List.append_assoc]

/-- **A scan is exact.** The paths are in the order of their components, and none comes twice. They
are those of the files below the folder, at any depth, with the name of a schema file, and each is
spelled as `dir` is, with the relative path of the file behind it. A folder is never listed, also if
its name is that of a schema file, and what is no folder has nothing to list. -/
theorem scan_exact (ht : t.WellFormed) (dir : Path) :
    ((t.scan dir).Pairwise fun p q => List.lex p.components q.components Step.before = true) ∧
    (∀ p, p ∈ t.scan dir ↔ ∃ loc way name c,
      t.find dir = .ok (loc, .folder) ∧ t.lookup? (loc ++ way ++ [name]) = some (.file c) ∧
      ((∃ stem, stem ≠ "" ∧ name = stem ++ ".prisma") ∧ name ≠ "schema.prisma" ∧
        ¬∃ stem, name = stem ++ ".ignore.prisma") ∧
      p = dir.join ⟨"/".intercalate (way ++ [name])⟩) ∧
    (∀ p ∈ t.scan dir, t.isFile p) ∧ (¬t.isFolder dir → t.scan dir = []) := by
  refine ⟨?_, fun p => ?_, fun p hp => ?_, fun hfolder => ?_⟩
  · rw [scan]
    split
    · exact .nil
    · next loc _ => exact t.sorted_scanFolder loc dir
  · rw [ht.mem_scan_iff]
    refine exists_congr fun loc => exists_congr fun way => exists_congr fun name =>
      exists_congr fun c => and_congr_right fun _ => and_congr_right fun hfile => ?_
    have hway : ∀ name' ∈ way ++ [name], IsName name' := fun name' hname' =>
      ht.isName hfile name' (by
        rw [List.append_assoc]
        exact List.mem_append_right loc hname')
    rw [isSchemaName_iff, (spell_eq_join (by simp) hway dir).1]
  · obtain ⟨loc, way, name, c, hfolder, hfile, -, rfl⟩ := ht.mem_scan_iff.mp hp
    rw [List.append_assoc] at hfile
    exact isFile_iff.mpr ⟨_, c, ht.find_spell hfolder (by simp) hfile⟩
  · rw [isFolder, Option.not_isSome_iff_eq_none] at hfolder
    rw [scan, hfolder]

/-- A folder that is named like a schema file is gone through, and what is in a folder comes before
what has a longer name. -/
theorem scan_exact_db :
    let t : FileTree := { entries := [
      (["db"], .folder), (["db", "a-b.prisma"], .file (.text "")), (["db", "a"], .folder),
      (["db", "a", "z.prisma"], .file (.text "")), (["db", "x.prisma"], .folder),
      (["db", "x.prisma", "c.prisma"], .file (.text "")),
      (["db", "x.prisma", "schema.prisma"], .file (.text "")),
      (["db", "x.prisma", "old.ignore.prisma"], .file (.text ""))] }
    let found := t.scan ⟨"./db/"⟩
    t.WellFormed ∧ (found.Pairwise fun p q =>
      List.lex p.components q.components Step.before = true) ∧
    ⟨"./db/a-b.prisma"⟩ ∈ found ∧ ⟨"./db/a/z.prisma"⟩ ∈ found ∧
    ⟨"./db/x.prisma/c.prisma"⟩ ∈ found ∧ ⟨"./db/x.prisma"⟩ ∉ found ∧
    t.scan ⟨"db/a-b.prisma"⟩ = [] := by
  intro t found
  have ht : t.WellFormed :=
    ⟨by decide, by decide, by decide +kernel, by decide +kernel, by decide⟩
  obtain ⟨hsorted, hmem, hfile, -⟩ := ht.scan_exact ⟨"./db/"⟩
  refine ⟨ht, hsorted, ?_, ?_, ?_, fun hx => ?_, ?_⟩
  · exact (hmem _).mpr ⟨["db"], [], "a-b.prisma", .text "", by decide +kernel, by decide +kernel,
      isSchemaName_iff.mp (by decide +kernel), by decide +kernel⟩
  · exact (hmem _).mpr ⟨["db"], ["a"], "z.prisma", .text "", by decide +kernel, by decide +kernel,
      isSchemaName_iff.mp (by decide +kernel), by decide +kernel⟩
  · exact (hmem _).mpr ⟨["db"], ["x.prisma"], "c.prisma", .text "", by decide +kernel,
      by decide +kernel, isSchemaName_iff.mp (by decide +kernel), by decide +kernel⟩
  · exact absurd (hfile _ hx) (by decide +kernel)
  · exact (ht.scan_exact ⟨"db/a-b.prisma"⟩).2.2.2 (by decide +kernel)

end WellFormed

end FileTree

end Datamodel
