import Datamodel.Proofs.Files.Listing

/-! How what is below a folder is spelled.

Names are joined to the path of a folder one after another, which is the same as joining the
relative path of the way at once (`FileTree.spell_eq_join`). The components of such a path are those
of the folder and then the names on the way, so the paths are in the order in which the ways are
(`FileTree.lex_components_spell`). -/

namespace Datamodel

open Datamodel.Path (IsName Step)

/-! ### Spelling -/

namespace Path

variable {p q : Path} {name : String} {way : Location}

theorem endsInSlash_append {s : String} (h : s ≠ "") (x : String) :
    endsInSlash ⟨x ++ s⟩ = endsInSlash ⟨s⟩ := by
  have hne : s.toList ≠ [] := String.toList_eq_nil_iff.not.mpr h
  rw [endsInSlash, endsInSlash, String.toList_append, List.getLast?_append_of_ne_nil _ hne]

theorem endsInSlash_of_isName (h : IsName name) : endsInSlash ⟨name⟩ = false := by
  rw [endsInSlash, beq_eq_false_iff_ne]
  exact fun hlast => h.2.2.2 (List.mem_of_getLast? hlast)

/-- A joined path ends as what is joined to it. -/
theorem exists_text_join (p q : Path) : ∃ x, (p.join q).text = x ++ q.text := by
  rw [join]
  split
  · exact ⟨"", String.empty_append.symm⟩
  · split
    · exact ⟨p.text, rfl⟩
    · exact ⟨p.text ++ "/", rfl⟩

theorem endsInSlash_join (h : IsName name) (p : Path) : (p.join ⟨name⟩).endsInSlash = false := by
  obtain ⟨x, hx⟩ := exists_text_join p ⟨name⟩
  rw [← endsInSlash_of_isName h, ← endsInSlash_append h.1 x, ← hx]

/-- Going down name by name is going down at once. -/
theorem join_join (h : IsName name) (hq : q.isAbsolute = false) :
    (p.join ⟨name⟩).join q = p.join ⟨name ++ "/" ++ q.text⟩ := by
  have hname : isAbsolute ⟨name⟩ = false := isAbsolute_of_not_mem h.2.2.2
  have hboth : isAbsolute ⟨name ++ "/" ++ q.text⟩ = false := by
    rw [String.append_assoc]
    exact (isAbsolute_append (p := ⟨name⟩) h.1 _).trans hname
  have htext : (p.join ⟨name⟩).text.isEmpty = false := by
    obtain ⟨x, hx⟩ := exists_text_join p ⟨name⟩
    simp [hx, h.1]
  have hleft : (p.join ⟨name⟩).join q = ⟨(p.join ⟨name⟩).text ++ "/" ++ q.text⟩ := by
    rw [join, hq, htext, endsInSlash_join h]
    rfl
  rw [hleft, join, join, hname, hboth]
  cases p.text.isEmpty <;> cases p.endsInSlash <;> simp [String.append_assoc]

theorem components_join (h : IsName name) (p : Path) :
    (p.join ⟨name⟩).components = p.components ++ [.down name] := by
  have hsteps := steps_join (p := p) (isAbsolute_of_not_mem (p := ⟨name⟩) h.2.2.2)
  rw [steps_of_isName h] at hsteps
  have hdown : [Step.down name].filter (· != .here) = [.down name] := rfl
  rw [components, components, hsteps]
  -- At the start of a path also a step that stays where it is counts.
  cases p.steps with
  | nil => rfl
  | cons s ss =>
    cases s with
    | here =>
      show Step.here :: (ss ++ [Step.down name]).filter (· != .here) = _
      rw [List.filter_append, hdown]
      rfl
    | root | up | down _ =>
      show ((_ :: ss) ++ [Step.down name]).filter (· != .here) = _
      rw [List.filter_append, hdown]

end Path

namespace FileTree

variable {p : Path} {way way' : Location}

/-- The path of what a way leads to from `p`. -/
def spell (p : Path) (way : Location) : Path := way.foldl (fun q name => q.join ⟨name⟩) p

theorem spell_cons (p : Path) (name : String) (way : Location) :
    spell p (name :: way) = spell (p.join ⟨name⟩) way := rfl

theorem steps_spell (hway : ∀ name ∈ way, IsName name) (p : Path) :
    (spell p way).steps = p.steps ++ way.map .down := by
  induction way generalizing p with
  | nil => exact (List.append_nil _).symm
  | cons name way ih =>
    obtain ⟨hname, hway⟩ := List.forall_mem_cons.mp hway
    rw [spell_cons, ih hway, Path.steps_join (Path.isAbsolute_of_not_mem hname.2.2.2),
      Path.steps_of_isName hname, List.append_assoc]
    rfl

theorem components_spell (hway : ∀ name ∈ way, IsName name) (p : Path) :
    (spell p way).components = p.components ++ way.map .down := by
  induction way generalizing p with
  | nil => exact (List.append_nil _).symm
  | cons name way ih =>
    obtain ⟨hname, hway⟩ := List.forall_mem_cons.mp hway
    rw [spell_cons, ih hway, Path.components_join hname, List.append_assoc]
    rfl

theorem isAbsolute_intercalate {name : String} (h : IsName name) (way : Location) :
    Path.isAbsolute ⟨"/".intercalate (name :: way)⟩ = false := by
  have hname : Path.isAbsolute ⟨name⟩ = false := Path.isAbsolute_of_not_mem h.2.2.2
  cases way with
  | nil => exact hname
  | cons name' way =>
    rw [String.intercalate_cons_cons, String.append_assoc]
    exact (Path.isAbsolute_append (p := ⟨name⟩) h.1 _).trans hname

/-- What a way leads to is spelled as the path with the relative path of the way behind it. -/
theorem spell_eq_join (hne : way ≠ []) (hway : ∀ name ∈ way, IsName name) (p : Path) :
    spell p way = p.join ⟨"/".intercalate way⟩ ∧ (spell p way).endsInSlash = false := by
  induction way generalizing p with
  | nil => exact absurd rfl hne
  | cons name way ih =>
    obtain ⟨hname, hway⟩ := List.forall_mem_cons.mp hway
    cases way with
    | nil => exact ⟨rfl, Path.endsInSlash_join hname p⟩
    | cons name' way =>
      obtain ⟨hspell, hslash⟩ := ih (List.cons_ne_nil _ _) hway (p.join ⟨name⟩)
      have hrelative := isAbsolute_intercalate (hway name' List.mem_cons_self) way
      refine ⟨?_, hslash⟩
      rw [spell_cons, hspell, Path.join_join hname hrelative, String.intercalate_cons_cons]

/-! ### Order -/

theorem lex_map_down (h : List.Lex (fun a b : String => decide (a < b) = true) way way') :
    List.Lex (fun a b => Step.before a b = true) (way.map .down) (way'.map .down) := by
  induction h with
  | nil => exact .nil
  | cons _ ih => exact .cons ih
  | rel hab => exact .rel (Step.before_iff.mpr (.inr ⟨rfl, of_decide_eq_true hab⟩))

/-- Paths from one folder are in the order of the ways. -/
theorem lex_components_spell (hway : ∀ name ∈ way, IsName name)
    (hway' : ∀ name ∈ way', IsName name) (hle : way.le way' = true) (hne : way ≠ way') (p : Path) :
    List.lex (spell p way).components (spell p way').components Step.before = true := by
  have hlex : List.lex way way' (fun a b => decide (a < b)) = true := by
    rw [← Bool.not_eq_false]
    intro hfalse
    exact hne (Location.le_antisymm way way' hle (by rw [Location.le, hfalse]; rfl))
  rw [List.lex_eq_true_iff_lex] at hlex ⊢
  rw [components_spell hway, components_spell hway']
  exact (lex_map_down hlex).append_left _ _

end FileTree

end Datamodel
