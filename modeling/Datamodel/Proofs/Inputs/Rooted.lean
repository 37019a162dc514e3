import Datamodel.Proofs.Inputs.Expansion

/-! Patterns as seen from a folder.

A relative pattern is read behind the path of a folder, in which the special characters are put in
classes of their own. Such a path is read without a fault, whatever its characters, and the pattern
behind it as if it stood alone. So whether a pattern can be read does not depend on the folder
(`exists_ofText_rootedPattern_iff`). -/

namespace Datamodel

namespace Glob

/-- A text can be read as the items of a name. -/
def Readable (s : List Char) : Prop := ∃ items, readItems 0 none s = .ok items

/-- A name may begin behind the character. -/
def StartsName (before : Option Char) : Prop := before = none ∨ before = some '/'

variable {position position' : Nat} {before before' : Option Char} {c : Char} {s cs : List Char}

/-! ### Items -/

theorem readable_iff : Readable s ↔ (readItems 0 none s).isOk = true := isOk_iff.symm

/-- Where a text stands matters to its faults only as far as a name may begin there. -/
theorem isOk_readItems_congr (h : StartsName before ↔ StartsName before') :
    (readItems position before s).isOk = (readItems position' before' s).isOk := by
  induction hlength : s.length using Nat.strong_induction_on generalizing position position' before
    before' s with
  | _ n ih =>
    subst hlength
    -- The rest of a text stands behind the same character on both sides.
    have hmore {s' : List Char} (hs' : s'.length < s.length) (p p' : Nat) (c : Option Char) :
        (readItems p c s').isOk = (readItems p' c s').isOk := ih _ hs' Iff.rfl rfl
    rw [StartsName, StartsName] at h
    rw [readItems.eq_def, readItems.eq_def position' before' s]
    split
    · rfl
    · rw [isOk_map, isOk_map]
      exact hmore (by simp) _ _ _
    · rfl
    · simp only [h]
      split
      · split
        · rfl
        · rw [isOk_map, isOk_map]
          exact hmore (by simp; omega) _ _ _
        · rfl
      · rfl
    · rw [isOk_map, isOk_map]
      exact hmore (by simp) _ _ _
    · split
      · next hclass =>
        rw [isOk_map, isOk_map]
        exact hmore (by have := length_of_class? hclass; simp; omega) _ _ _
      · rfl
    · rw [isOk_map, isOk_map]
      exact hmore (by simp) _ _ _

/-- A character in a class of its own. -/
theorem readItems_single (hc : c ≠ '!') : readItems position before ('[' :: c :: ']' :: s) =
    (readItems (position + 3) (some ']') s).map (.within [.one c] :: ·) := by
  have hbody : classBody? (c :: ']' :: s) = some ([c], s) := by simp [classBody?, Text.span]
  have hclass : class? (c :: ']' :: s) = some (.within [.one c], s) := by
    unfold class?
    split
    · next heq => exact absurd (List.cons.inj heq).1 hc
    · rw [hbody]
      rfl
  rw [readItems]
  split
  · next item rest heq =>
    obtain ⟨rfl, rfl⟩ := Prod.mk.inj (Option.some.inj (hclass.symm.trans heq))
    simp [Nat.add_assoc]
  · next heq => exact nomatch hclass.symm.trans heq

theorem readItems_char (hc : c ∉ ['?', '*', '[', ']']) : readItems position before (c :: s) =
    (readItems (position + 1) (some c) s).map (.char c :: ·) := by
  simp only [List.mem_cons, List.not_mem_nil, or_false, not_or] at hc
  obtain ⟨hany, hstar, hopen, -⟩ := hc
  rw [readItems]
  all_goals simp_all

theorem escape_cons : escape (c :: cs) =
    (if c ∈ ['?', '*', '[', ']'] then ['[', c, ']'] else [c]) ++ escape cs := rfl

/-- What stands for itself has no faults. -/
theorem isOk_readItems_escape (position : Nat) (before : Option Char) (cs s : List Char) :
    ∃ position' before',
      (readItems position before (escape cs ++ s)).isOk = (readItems position' before' s).isOk := by
  induction cs generalizing position before with
  | nil => exact ⟨position, before, rfl⟩
  | cons c cs ih =>
    rw [escape_cons]
    split
    · next hspecial =>
      have hne : c ≠ '!' := by
        rintro rfl
        simp at hspecial
      rw [List.append_assoc]
      simp only [List.cons_append, List.nil_append]
      rw [readItems_single hne, isOk_map]
      exact ih _ _
    · next hplain =>
      rw [List.append_assoc, List.singleton_append, readItems_char hplain, isOk_map]
      exact ih _ _

theorem readable_escape (cs : List Char) : Readable (escape cs) := by
  obtain ⟨position, before, h⟩ := isOk_readItems_escape 0 none cs []
  rw [readable_iff, ← List.append_nil (escape cs), h, readItems]
  rfl

/-- Behind the escaped path of a folder a text is read as if it stood alone. -/
theorem readable_escape_append (cs s : List Char) :
    Readable (escape cs ++ '/' :: s) ↔ Readable s := by
  obtain ⟨position, before, h⟩ := isOk_readItems_escape 0 none cs ('/' :: s)
  have hname : StartsName (some '/') ↔ StartsName none := by simp [StartsName]
  rw [readable_iff, readable_iff, h, readItems_char (by decide), isOk_map,
    isOk_readItems_congr hname]

/-! ### Names -/

theorem splitOn_escape (cs : List Char) :
    (escape cs).splitOn '/' = (cs.splitOn '/').map escape := by
  induction cs with
  | nil => rfl
  | cons c cs ih =>
    obtain ⟨name, names, hnames⟩ := List.exists_cons_of_ne_nil (List.splitOn_ne_nil '/' cs)
    rw [hnames] at ih
    by_cases hslash : c = '/'
    · subst hslash
      have hplain : escape ('/' :: cs) = '/' :: escape cs := rfl
      rw [hplain, List.splitOn_cons_eq_if_modifyHead, List.splitOn_cons_eq_if_modifyHead, hnames,
        ih]
      rfl
    · have hc : (c == '/') = false := by simpa using hslash
      have hsplit : (c :: cs).splitOn '/' = (c :: name) :: names := by
        rw [List.splitOn_cons_eq_if_modifyHead, hc, hnames]
        rfl
      rw [escape_cons, hsplit]
      split
      · next hspecial =>
        simp [List.splitOn_cons_eq_if_modifyHead, hc, ih, escape_cons, hspecial]
      · next hplain =>
        simp [List.splitOn_cons_eq_if_modifyHead, hc, ih, escape_cons, hplain]

theorem names_append_slash (x s : List Char) :
    names (x ++ '/' :: s) = x.splitOn '/' ++ names s := by
  have hne := List.splitOn_ne_nil '/' s
  rw [names, names, List.splitOn_append_cons_self, List.getLast?_append_of_ne_nil _ hne,
    List.dropLast_append_of_ne_nil hne]
  split <;> rfl

/-- A pattern can be read if it can as a whole, and name by name. -/
theorem exists_ofText_iff : (∃ g, ofText s = .ok g) ↔
    Readable s ∧ ∀ name ∈ names (if s.head? == some '/' then s.drop 1 else s), Readable name := by
  rw [ofText, exists_bind_iff]
  constructor
  · rintro ⟨items, hitems, h⟩
    obtain ⟨parts, hparts, -⟩ := exists_bind_iff.mp h
    exact ⟨⟨items, hitems⟩, exists_mapM_iff.mp ⟨parts, hparts⟩⟩
  · rintro ⟨⟨items, hitems⟩, hnames⟩
    obtain ⟨parts, hparts⟩ := exists_mapM_iff.mpr hnames
    exact ⟨items, hitems, exists_bind_iff.mpr ⟨parts, hparts, _, rfl⟩⟩

/-- The names of a pattern behind the escaped path of a folder. -/
theorem exists_names_escape (cs s : List Char) :
    let whole := escape cs ++ '/' :: s
    ∃ names' : List (List Char), names (if whole.head? == some '/' then whole.drop 1 else whole) =
      names'.map escape ++ names s := by
  intro whole
  cases cs with
  | nil => exact ⟨[], rfl⟩
  | cons c cs =>
    by_cases hslash : c = '/'
    · subst hslash
      refine ⟨cs.splitOn '/', ?_⟩
      rw [← splitOn_escape]
      exact names_append_slash (escape cs) s
    · have hhead : (whole.head? == some '/') = false := by
        show ((escape (c :: cs) ++ '/' :: s).head? == some '/') = false
        rw [escape_cons]
        split <;> simp [hslash]
      refine ⟨(c :: cs).splitOn '/', ?_⟩
      rw [hhead, if_neg Bool.false_ne_true, ← splitOn_escape]
      exact names_append_slash (escape (c :: cs)) s

end Glob

open Glob in
/-- **Whether a pattern can be read** does not depend on the folder that it is seen from. -/
theorem exists_ofText_rootedPattern_iff (base : Path) (pattern : String) :
    (∃ g, Glob.ofText (rootedPattern base pattern) = .ok g) ↔
      ∃ g, Glob.ofText pattern.toList = .ok g := by
  rw [rootedPattern]
  split
  · rfl
  · next habsolute =>
    have hhead : (pattern.toList.head? == some '/') = false := by
      simpa [Path.isAbsolute] using habsolute
    obtain ⟨names', hnames⟩ := exists_names_escape base.text.toList pattern.toList
    rw [exists_ofText_iff, exists_ofText_iff, hnames, readable_escape_append, hhead,
      List.forall_mem_append, List.forall_mem_map]
    simp [readable_escape]

end Datamodel
