import Datamodel.FileTree
import Datamodel.Proofs.Text.Lines
import Mathlib.Data.List.Basic

/-! Paths without steps upwards.

The steps of a joined path are those of its parts (`Path.steps_join`). A path that never goes up is
a list of names, seen from the root or from the folder where one is, and so its normal form says
where it leads: of two such paths that start at the same place, the normal forms are equal exactly
if the places are (`Path.Straight.normal_eq_iff`). -/

namespace Datamodel

namespace Path

/-! ### Steps -/

/-- A name that an entry of a folder can have. -/
def IsName (name : String) : Prop :=
  name ≠ "" ∧ name ≠ "." ∧ name ≠ ".." ∧ '/' ∉ name.toList

namespace Step

theorem isName_of_ofPiece? {piece : List Char} {name : String} (hslash : '/' ∉ piece)
    (h : ofPiece? piece = some (down name)) : IsName name := by
  unfold ofPiece? at h
  split at h
  · cases h
  · cases h
  · cases h
  · next hempty hhere hup =>
    cases h
    refine ⟨?_, ?_, ?_, ?_⟩
    · exact fun he => hempty (String.ofList_injective he)
    · exact fun he => hhere (String.ofList_injective he)
    · exact fun he => hup (String.ofList_injective he)
    · rwa [String.toList_ofList]

theorem ofPiece?_ne_root (piece : List Char) : ofPiece? piece ≠ some root := by
  unfold ofPiece?
  split <;> exact nofun

theorem ofPiece?_of_isName {name : String} (h : IsName name) :
    ofPiece? name.toList = some (down name) := by
  obtain ⟨hempty, hhere, hup, -⟩ := h
  unfold ofPiece?
  split
  · next he => exact absurd (String.toList_eq_nil_iff.mp he) hempty
  · next he => exact absurd (String.ext he) hhere
  · next he => exact absurd (String.ext he) hup
  · rw [String.ofList_toList]

end Step

variable {p q : Path} {name : String}

theorem isName_of_down_mem (h : .down name ∈ p.steps) : IsName name := by
  rw [steps, List.mem_append] at h
  rcases h with h | h
  · split at h <;> simp at h
  · obtain ⟨piece, hpiece, h⟩ := List.mem_filterMap.mp h
    exact Step.isName_of_ofPiece? (Text.not_mem_of_mem_splitOn hpiece) h

theorem isAbsolute_of_not_mem (h : '/' ∉ p.text.toList) : p.isAbsolute = false := by
  rw [isAbsolute, beq_eq_false_iff_ne]
  exact fun hhead => h (List.mem_of_mem_head? hhead)

theorem steps_of_isName (h : IsName name) : steps ⟨name⟩ = [.down name] := by
  have hpieces : pieces ⟨name⟩ = [name.toList] := List.splitOn_eq_singleton h.2.2.2
  rw [steps, isAbsolute_of_not_mem h.2.2.2, hpieces]
  simp [Step.ofPiece?_of_isName h]

theorem pieces_append (s t : String) :
    pieces ⟨s ++ "/" ++ t⟩ = pieces ⟨s⟩ ++ pieces ⟨t⟩ := by
  have htext : (s ++ "/" ++ t).toList = s.toList ++ '/' :: t.toList := by simp
  rw [pieces, htext, List.splitOn_append_cons_self]
  rfl

theorem isAbsolute_append (hp : p.text ≠ "") (s : String) :
    isAbsolute ⟨p.text ++ s⟩ = p.isAbsolute := by
  obtain ⟨c, cs, hcs⟩ := List.exists_cons_of_ne_nil (String.toList_eq_nil_iff.not.mpr hp)
  rw [isAbsolute, isAbsolute, String.toList_append, hcs]
  rfl

theorem isAbsolute_join (hp : p.text ≠ "") (h : q.isAbsolute = false) :
    (p.join q).isAbsolute = p.isAbsolute := by
  have hempty : p.text.isEmpty = false := by simpa using hp
  rw [join, h, hempty]
  cases p.endsInSlash with
  | true => exact isAbsolute_append hp q.text
  | false =>
    rw [if_neg (by simp), if_neg (by simp), String.append_assoc]
    exact isAbsolute_append hp ("/" ++ q.text)

/-- **The steps of a joined path** are those of its parts. -/
theorem steps_join (h : q.isAbsolute = false) : (p.join q).steps = p.steps ++ q.steps := by
  by_cases hp : p.text = ""
  · have hjoin : p.join q = q := by simp [join, hp]
    have hsteps : p.steps = [] := by
      rw [steps, isAbsolute, pieces, hp]
      rfl
    rw [hjoin, hsteps, List.nil_append]
  · have hpieces : (p.join q).pieces.filterMap Step.ofPiece? =
        p.pieces.filterMap Step.ofPiece? ++ q.pieces.filterMap Step.ofPiece? := by
      rw [← List.filterMap_append]
      have hempty : p.text.isEmpty = false := by simpa using hp
      rw [join, h, hempty]
      cases hslash : p.endsInSlash with
      | true =>
        -- The slash that is there already ends the last piece, which is followed by an empty one.
        obtain ⟨init, hinit⟩ := List.getLast?_eq_some_iff.mp (beq_iff_eq.mp hslash)
        have htext : p.text = String.ofList init ++ "/" ++ "" :=
          String.ext (by simp [hinit])
        have hlast : p.pieces = pieces ⟨String.ofList init⟩ ++ pieces ⟨""⟩ := by
          rw [← pieces_append, ← htext]
        have hnone : (pieces ⟨""⟩).filterMap Step.ofPiece? = [] := rfl
        have happ : p.text ++ q.text = String.ofList init ++ "/" ++ q.text := by
          rw [htext, String.append_empty]
        rw [if_neg (by simp), if_pos rfl, happ, pieces_append, hlast, List.filterMap_append,
          List.filterMap_append, List.filterMap_append, hnone, List.append_nil]
      | false =>
        rw [if_neg (by simp), if_neg (by simp), pieces_append]
    have hq : q.steps = q.pieces.filterMap Step.ofPiece? := by
      rw [steps, h]
      rfl
    rw [hq, steps, steps, isAbsolute_join hp h, hpieces, List.append_assoc]

/-- A path with a text has a step. -/
theorem steps_ne_of_text_ne (h : p.text ≠ "") : p.steps ≠ [] := by
  obtain ⟨c, cs, hcs⟩ := List.exists_cons_of_ne_nil (String.toList_eq_nil_iff.not.mpr h)
  rw [steps, isAbsolute, pieces, hcs]
  by_cases hc : c = '/'
  · subst hc
    simp
  · obtain ⟨first, more, hmore⟩ := List.exists_cons_of_ne_nil (List.splitOn_ne_nil '/' cs)
    have hstep : Step.ofPiece? (c :: first) ≠ none := by
      unfold Step.ofPiece?
      split <;> simp_all
    obtain ⟨s, hs⟩ := Option.ne_none_iff_exists'.mp hstep
    have hsplit : (c :: cs).splitOn '/' = (c :: first) :: more := by
      rw [List.splitOn_cons_eq_if_modifyHead, hmore]
      simp [hc]
    rw [hsplit, List.filterMap_cons_some hs]
    simp

/-! ### Straight paths -/

/-- The name that a step goes down to. -/
def Step.name? : Step → Option String
  | down name => some name
  | _ => none

/-- The names that a path goes down to, in order. -/
def names (p : Path) : List String := p.steps.filterMap Step.name?

/-- A path that never goes up. -/
def Straight (p : Path) : Prop := .up ∉ p.steps

instance (p : Path) : Decidable p.Straight := inferInstanceAs (Decidable (.up ∉ p.steps))

/-- Where the names of a path lead, if its relative steps start at `start`. -/
def place (start : Location) (p : Path) : Location :=
  (if p.isAbsolute then [] else start) ++ p.names

theorem names_eq (p : Path) :
    p.names = (p.pieces.filterMap Step.ofPiece?).filterMap Step.name? := by
  rw [names, steps, List.filterMap_append]
  split <;> rfl

theorem filter_ne_here {steps : List Step} (hup : .up ∉ steps) (hroot : .root ∉ steps) :
    steps.filter (· != .here) = (steps.filterMap Step.name?).map .down := by
  induction steps with
  | nil => rfl
  | cons s steps ih =>
    have ih := ih (fun h => hup (List.mem_cons_of_mem _ h)) fun h =>
      hroot (List.mem_cons_of_mem _ h)
    cases s with
    | root => exact absurd List.mem_cons_self hroot
    | up => exact absurd List.mem_cons_self hup
    | here => exact ih
    | down name => exact congrArg (Step.down name :: ·) ih

theorem root_not_mem_pieces : .root ∉ p.pieces.filterMap Step.ofPiece? := by
  intro h
  obtain ⟨piece, -, h⟩ := List.mem_filterMap.mp h
  exact Step.ofPiece?_ne_root piece h

namespace Straight

theorem normal_eq (h : p.Straight) :
    p.normal = (if p.isAbsolute then [.root] else []) ++ p.names.map .down := by
  have hup : .up ∉ p.pieces.filterMap Step.ofPiece? := fun hmem =>
    h (List.mem_append_right _ hmem)
  rw [normal, steps, List.filter_append, filter_ne_here hup root_not_mem_pieces, names_eq]
  congr 1
  split <;> rfl

/-- **Normal forms tell places apart**, and nothing else. -/
theorem normal_eq_iff (hp : p.Straight) (hq : q.Straight) (h : p.isAbsolute = q.isAbsolute)
    (start : Location) : p.normal = q.normal ↔ p.place start = q.place start := by
  have hdown : Function.Injective Step.down := fun _ _ h => by cases h; rfl
  rw [hp.normal_eq, hq.normal_eq, place, place, h, List.append_cancel_left_eq,
    List.append_cancel_left_eq, (List.map_injective_iff.mpr hdown).eq_iff]

theorem join (hp : p.Straight) (hq : q.Straight) (h : q.isAbsolute = false) :
    (p.join q).Straight := by
  rw [Straight, steps_join h, List.mem_append, not_or]
  exact ⟨hp, hq⟩

end Straight

/-! ### Normal forms -/

theorem normal_join (h : q.isAbsolute = false) : (p.join q).normal = p.normal ++ q.normal := by
  rw [normal, steps_join h, List.filter_append]
  rfl

theorem names_eq_filterMap_normal (p : Path) : p.names = p.normal.filterMap Step.name? := by
  rw [names, normal, List.filterMap_filter]
  refine List.filterMap_congr fun s _ => ?_
  cases s <;> rfl

theorem up_mem_normal : .up ∈ p.normal ↔ .up ∈ p.steps := by simp [normal]

end Path

end Datamodel
