import Datamodel.Mixing
import Datamodel.Proofs.Files.Growth

/-! What a mixer changes in the tree it works on.

A mixer that fails before it writes leaves the tree as it is. One that cannot write its output may
have made folders on the way there, and has touched no file. One that succeeds has changed its
output alone, but for such folders (`Mixer.run_frame`). -/

namespace Datamodel

theorem Path.parent_isPrefix (p : Path) : p.parent?.getD [] <+: p.components.dropLast := by
  rw [Path.parent?]
  split
  · exact List.nil_prefix
  · exact List.nil_prefix
  · exact List.prefix_rfl

namespace FileTree

/-- Saving makes folders on the way to the file, and writes it or fails. -/
theorem grows_save (t : FileTree) (p : Path) (text : String) :
    match t.save p text with
    | (t', .error _) => t.Grows p.components.dropLast [] t'
    | (t', .ok ()) => ∃ loc, t'.find p = .ok (loc, .file (.text text)) ∧
        t.lookup? loc ≠ some .folder ∧ t.Grows p.components.dropLast [loc] t' := by
  have hgrows := (t.grows_makeFolders (p.parent?.getD [])).mono p.parent_isPrefix
  rw [save]
  cases hmade : t.makeFolders (p.parent?.getD []) with
  | mk t₁ result =>
    rw [hmade] at hgrows
    cases result with
    | error reason => exact hgrows
    | ok _ =>
      simp only
      cases hwrite : t₁.write p text with
      | error reason => exact hgrows
      | ok t₂ =>
        obtain ⟨loc, hloc, rfl⟩ := exists_of_map hwrite
        have hfind := find_put_of_writable (c := .text text) hloc
        obtain ⟨folder, name, -, -, -, hplace, rfl⟩ := writable_eq_ok_iff.mp hloc
        exact ⟨_, hfind, fun h => hplace (hgrows.folders _ h), hgrows.put (by simp) hplace⟩

end FileTree

theorem Mixer.output_of_mix {m : Mixer} {t : FileTree} {root : Path} {made : Mix}
    (h : m.mix t root = .ok made) : made.output = root.join ⟨m.output⟩ := by
  simp only [mix] at h
  split at h
  · cases h
  · split at h
    · cases h
    · cases h
      rfl

/-- Mixing does not write. -/
theorem Mixer.mix_ne_notWritten {m : Mixer} {t : FileTree} {root path : Path} {reason : FileError} :
    m.mix t root ≠ .error (.notWritten path reason) := by
  simp only [mix]
  split
  · exact nofun
  · split <;> exact nofun

/-- **The frame of a mixer.** A bad pattern or a merge that cannot be written down leaves the tree
as it is. If the output cannot be written, folders on the way to it may be new, and every file and
folder that was there is there unchanged. If the mixer succeeds, its output holds the merge, and
the same is true of everything else. -/
theorem Mixer.run_frame (m : Mixer) (t : FileTree) (root : Path) :
    let output := root.join ⟨m.output⟩
    match m.run t root with
    | (t', .error (.badPattern e)) => m.mix t root = .error (.badPattern e) ∧ t' = t
    | (t', .error (.notRendered label e)) =>
      m.mix t root = .error (.notRendered label e) ∧ t' = t
    | (t', .error (.notWritten path _)) =>
      path = output ∧ t.Grows output.components.dropLast [] t'
    | (t', .ok made) => m.mix t root = .ok made ∧
      ∃ loc, t'.find output = .ok (loc, .file (.text made.rendered)) ∧
        t.lookup? loc ≠ some .folder ∧ t.Grows output.components.dropLast [loc] t' := by
  intro output
  rw [run]
  cases hmix : m.mix t root with
  | error e =>
    cases e with
    | badPattern e => exact ⟨rfl, rfl⟩
    | notRendered label e => exact ⟨rfl, rfl⟩
    | notWritten path reason => exact absurd hmix mix_ne_notWritten
  | ok made =>
    have hsave := t.grows_save (root.join ⟨m.output⟩) made.rendered
    simp only [output_of_mix hmix]
    cases hsaved : t.save (root.join ⟨m.output⟩) made.rendered with
    | mk t' result =>
      rw [hsaved] at hsave
      cases result with
      | error reason => exact ⟨rfl, hsave⟩
      | ok _ => exact ⟨rfl, hsave⟩

/-- A folder made on the way to an output stays, although the way goes on through a file. -/
example :
    let t : FileTree := { entries := [(["a.prisma"], .file (.text ""))] }
    let m : Mixer := { input := ["a.prisma"], output := "new/../a.prisma/out.prisma" }
    m.run t ⟨"."⟩ = (t.put ["new"] .folder,
      .error (.notWritten ⟨"./new/../a.prisma/out.prisma"⟩ .taken)) := by decide +kernel

end Datamodel
