import Datamodel.Proofs.Inputs.Written

/-! Straight paths in a tree where one file was written.

Where a path leads that does not go up is told by its place. Among such paths the files that a
pattern finds are those that it found before, but for the file that was written
(`FileTree.Rewrites.filter_glob`, `FileTree.Rewrites.filter_scan`). -/

namespace Datamodel

open Datamodel.Path (Straight)

namespace FileTree

/-- `t'` is `t` with a file at `out`, and with folders where nothing was. -/
structure Rewrites (out : Location) (t t' : FileTree) : Prop where
  wellFormed : t.WellFormed
  wellFormed' : t'.WellFormed
  start : t'.start = t.start
  kept : ∀ loc ≠ out, ∀ e, t.lookup? loc = some e → t'.lookup? loc = some e
  made : ∀ loc ≠ out, ∀ e, t.lookup? loc = none → t'.lookup? loc = some e → e = .folder
  place : t.lookup? out ≠ some .folder
  file : ∃ c, t'.lookup? out = some (.file c)

variable {t t' : FileTree} {out loc : Location} {p q : Path}

theorem Written.rewrites (h : t.Written [out] t') : t.Rewrites out t' where
  wellFormed := h.wellFormed
  wellFormed' := h.wellFormed'
  start := h.start
  kept loc hloc := h.kept loc (by simpa using hloc)
  made loc hloc := h.made loc (by simpa using hloc)
  place := h.place out List.mem_cons_self
  file := h.file out List.mem_cons_self

/-- Whether the place of a path, without going up, is that of a file and is not `out`. -/
def isOtherFile (t : FileTree) (out : Location) (p : Path) : Bool :=
  decide p.Straight && decide (p.place t.start ≠ out) &&
    match t.lookup? (p.place t.start) with
    | some (.file _) => true
    | _ => false

theorem isOtherFile_iff : t.isOtherFile out p ↔ p.Straight ∧ p.place t.start ≠ out ∧
    ∃ c, t.lookup? (p.place t.start) = some (.file c) := by
  rw [isOtherFile, Bool.and_eq_true, Bool.and_eq_true, decide_eq_true_iff, decide_eq_true_iff,
    and_assoc]
  refine and_congr_right fun _ => and_congr_right fun _ => ?_
  split <;> simp_all

/-- Where a file is, a path is known. -/
theorem WellFormed.filter_isOtherFile (ht : t.WellFormed) (out : Location) (ps : List Path) :
    (ps.filter t.known).filter (t.isOtherFile out) = ps.filter (t.isOtherFile out) := by
  rw [List.filter_filter]
  refine List.filter_congr fun p _ => ?_
  cases hother : t.isOtherFile out p with
  | false => rfl
  | true =>
    obtain ⟨hstraight, -, c, hlookup⟩ := isOtherFile_iff.mp hother
    exact ht.known_of_straight hstraight (by simp [hlookup])

namespace Rewrites

theorem written (h : t.Rewrites out t') : t.Written [out] t' where
  wellFormed := h.wellFormed
  wellFormed' := h.wellFormed'
  start := h.start
  kept loc hloc := h.kept loc (by simpa using hloc)
  made loc hloc := h.made loc (by simpa using hloc)
  place := List.forall_mem_singleton.mpr h.place
  file := List.forall_mem_singleton.mpr h.file

theorem isFolder (h : t.Rewrites out t') (hp : t.isFolder p) : t'.isFolder p := by
  obtain ⟨loc, hfind⟩ := isFolder_iff.mp hp
  rwa [h.written.isFolder_eq (known_of_find hfind)]

theorem isFile (h : t.Rewrites out t') (hp : t.isFile p) : t'.isFile p := by
  obtain ⟨loc, c, hfind⟩ := isFile_iff.mp hp
  rwa [h.written.isFile_eq (known_of_find hfind)]

/-- What was somewhere else than at `out` is all there is there, folders apart. -/
theorem lookup?_file_iff (h : t.Rewrites out t') (hloc : loc ≠ out) {c : Content} :
    t'.lookup? loc = some (.file c) ↔ t.lookup? loc = some (.file c) :=
  ⟨h.written.lookup?_of_file (by simpa using hloc), h.kept loc hloc _⟩

theorem find_file_iff (h : t.Rewrites out t') (hp : p.Straight) (hplace : p.place t.start ≠ out)
    {c : Content} : t'.find p = .ok (loc, .file c) ↔ t.find p = .ok (loc, .file c) := by
  have hout : p.resolve t.start ∉ [out] := by
    rw [hp.resolve_eq]
    simpa using hplace
  constructor
  · intro hfind
    obtain ⟨hloc, hfile⟩ := place_of_find hp hfind
    rw [h.start] at hloc
    have hfile' := (h.lookup?_file_iff (hloc ▸ hplace)).mp hfile
    have hknown := h.wellFormed.known_of_straight hp (by simp [← hloc, hfile'])
    exact (h.written.find_iff hknown hout).mp hfind
  · intro hfind
    exact (h.written.find_iff (known_of_find hfind) hout).mpr hfind

theorem filter_scan (h : t.Rewrites out t') (hp : p.steps ≠ []) :
    (t'.scan p).filter (t.isOtherFile out) = (t.scan p).filter (t.isOtherFile out) := by
  rw [← h.wellFormed.filter_isOtherFile, h.written.filter_scan hp, h.wellFormed.filter_isOtherFile]

theorem filter_glob {g : Glob} (h : t.Rewrites out t') (hslash : Slashless g.parts) :
    (t'.glob g).filter (t.isOtherFile out) = (t.glob g).filter (t.isOtherFile out) := by
  rw [← h.wellFormed.filter_isOtherFile, h.written.filter_glob hslash,
    h.wellFormed.filter_isOtherFile]

/-- No file is lost, whether its path goes up or not. -/
theorem mem_glob {g : Glob} (h : t.Rewrites out t') (hslash : Slashless g.parts)
    (hfile : t.isFile q) (hq : q ∈ t.glob g) : q ∈ t'.glob g := by
  obtain ⟨loc, c, hfind⟩ := isFile_iff.mp hfile
  have hmem : q ∈ (t.glob g).filter t.known := List.mem_filter.mpr ⟨hq, known_of_find hfind⟩
  rw [← h.written.filter_glob hslash] at hmem
  exact List.mem_of_mem_filter hmem

end Rewrites

end FileTree

end Datamodel
