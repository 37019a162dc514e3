import Datamodel.Proofs.Notes.Models
import Datamodel.Proofs.Notes.Pieces
import Datamodel.Proofs.Spacing.Tokens

/-! The storage notes of a text do not depend on its spacing.

A blank line and a comment say nothing wherever they are put in (`Notes.extract_insert`,
`Notes.extract_of_isSpacing`). -/

namespace Datamodel

open Text (allBlank isBlank joinLines joinLines_append)

namespace Notes

variable {line : List Char}

/-! ### Lines that say nothing -/

/-- A line that says nothing and opens no model does not matter among others. -/
theorem ofLines?_insert (hmodel : openedModel? line = none) (hnote : ofLine? line = none)
    (above below : List (List Char)) :
    ofLines? (above ++ line :: below) = ofLines? (above ++ below) := by
  induction above with
  | nil => rw [List.nil_append, List.nil_append, ofLines?, hmodel]
  | cons l above ih =>
    rw [List.cons_append, List.cons_append, ofLines?, ofLines?, ih, List.filterMap_append,
      List.filterMap_append, List.filterMap_cons_none hnote]

/-- A line that says nothing does not matter in the piece that starts with `first`. -/
theorem extract_insert_of_within {first : List Char} {more below : List (List Char)}
    (hwithin : isWithin line = true) (hmodel : openedModel? line = none)
    (hnote : ofLine? line = none) (hn : ∀ l ∈ first :: more ++ line :: below, '\n' ∉ l)
    (hmore : ∀ l ∈ more, isWithin l = true) :
    extract (joinLines (first :: more ++ line :: below)) =
      extract (joinLines (first :: more ++ below)) := by
  simp only [List.forall_mem_append, List.forall_mem_cons] at hn
  obtain ⟨⟨hfirst, hmoreLines⟩, hline, hbelow⟩ := hn
  have hpiece (lines : List (List Char)) (h : ∀ l ∈ lines, '\n' ∉ l ∧ isWithin l = true) :
      extract (joinLines (first :: more ++ lines)) = (ofLines? (first :: more ++ lines)).toList :=
    extract_cons hfirst (List.forall_mem_append.mpr
      ⟨fun l hl => ⟨hmoreLines l hl, hmore l hl⟩, h⟩)
  have htaken : ∀ l ∈ below.takeWhile isWithin, '\n' ∉ l ∧ isWithin l = true := fun l hl =>
    ⟨hbelow l ((List.takeWhile_sublist _).mem hl), List.mem_takeWhile_imp hl⟩
  rw [extract_joinLines_takeWhile (List.cons_ne_nil _ _),
    extract_joinLines_takeWhile (List.cons_ne_nil _ _) below,
    List.takeWhile_cons_of_pos hwithin, List.dropWhile_cons_of_pos hwithin, hpiece _ htaken,
    hpiece _ (List.forall_mem_cons.mpr ⟨⟨hline, hwithin⟩, htaken⟩), ofLines?_insert hmodel hnote]

/-- **A line that says nothing** does not matter in a text, if it starts no piece and is not the
first line. -/
theorem extract_insert {first : List Char} {more below : List (List Char)}
    (hwithin : isWithin line = true) (hmodel : openedModel? line = none)
    (hnote : ofLine? line = none) (hn : ∀ l ∈ first :: more ++ line :: below, '\n' ∉ l) :
    extract (joinLines (first :: more ++ line :: below)) =
      extract (joinLines (first :: more ++ below)) := by
  have hmore : more.takeWhile isWithin ++ more.dropWhile isWithin = more :=
    List.takeWhile_append_dropWhile
  cases hdrop : more.dropWhile isWithin with
  | nil =>
    rw [hdrop, List.append_nil] at hmore
    refine extract_insert_of_within hwithin hmodel hnote hn fun l hl => ?_
    rw [← hmore] at hl
    exact List.mem_takeWhile_imp hl
  | cons closing rest =>
    -- The text is cut at `closing`, and the line stands behind it.
    have hclosing : closing.head? = some '}' := by
      simpa [isWithin] using Text.head?_dropWhile isWithin more closing (by rw [hdrop]; rfl)
    rw [hdrop, eq_cons_of_head hclosing] at hmore
    generalize pastClosing closing = r at hmore
    have hshorter : rest.length < more.length := by
      have hlength := congrArg List.length hmore
      rw [List.length_append, List.length_cons] at hlength
      omega
    have hsplit (tail : List (List Char)) : extract (joinLines (first :: more ++ tail)) =
        extract (joinLines (first :: more.takeWhile isWithin)) ++
          extract (joinLines (r :: rest ++ tail)) := by
      have hcut : extract (joinLines (first :: more.takeWhile isWithin ++
          ('}' :: r) :: (rest ++ tail))) = extract (joinLines (first :: more.takeWhile isWithin)) ++
            extract (joinLines (r :: (rest ++ tail))) :=
        extract_joinLines_append (List.cons_ne_nil _ _)
      rwa [← List.cons_append (a := '}' :: r), ← List.append_assoc,
        List.cons_append (a := first), hmore] at hcut
    have hbehind : ∀ l ∈ r :: rest ++ line :: below, '\n' ∉ l := by
      rw [← hmore] at hn
      simp only [List.forall_mem_append, List.forall_mem_cons] at hn ⊢
      obtain ⟨⟨-, -, hclosingLine, hrest⟩, htail⟩ := hn
      exact ⟨⟨fun hmem => hclosingLine (List.mem_cons_of_mem _ hmem), hrest⟩, htail⟩
    rw [hsplit, hsplit, extract_insert hwithin hmodel hnote hbehind]
termination_by more.length

/-! ### Spacing -/

theorem isSpacing_head? {c : Char} (h : Token.IsSpacing line) (hc : isBlank c = false)
    (hslash : c ≠ '/') : line.head? ≠ some c := by
  intro hhead
  obtain ⟨s, rfl⟩ := List.head?_eq_some_iff.mp hhead
  obtain ⟨-, hblank | ⟨blanks, text, hline, hblanks, -⟩⟩ := h
  · simp [allBlank, hc] at hblank
  · cases blanks with
    | nil => exact hslash (List.cons_eq_cons.mp hline).1
    | cons d blanks =>
      obtain ⟨rfl, -⟩ := List.cons_eq_cons.mp hline
      simp [allBlank, hc] at hblanks

theorem openedModel?_of_isSpacing (h : Token.IsSpacing line) : openedModel? line = none := by
  obtain ⟨-, hblank | ⟨blanks, text, rfl, hblanks, -⟩⟩ := h
  · rw [Option.eq_none_iff_forall_ne_some]
    intro n hn
    obtain ⟨keyword, b, c, s, hkeyword, htrim, -⟩ := exists_of_openedModel? hn
    rw [Text.trimLeft_eq_nil_iff.mpr hblank] at htrim
    rcases hkeyword with rfl | rfl <;> simp at htrim
  · exact (isSilent_of_head hblanks (by decide) (by decide) (by decide) _).1

theorem ofLine?_of_isSpacing (h : Token.IsSpacing line) : ofLine? line = none := by
  obtain ⟨-, hblank | ⟨blanks, text, rfl, hblanks, -⟩⟩ := h
  · exact ofLine?_of_allBlank hblank
  · exact ofLine?_comment hblanks text

/-- **A line without tokens** that is put in behind a line break of a text leaves its notes as they
are. -/
theorem extract_of_isSpacing (h : Token.IsSpacing line) (a b : List Char) :
    extract (a ++ '\n' :: (line ++ '\n' :: b)) = extract (a ++ '\n' :: b) := by
  obtain ⟨first, more, habove⟩ := List.exists_cons_of_ne_nil (List.splitOn_ne_nil '\n' a)
  have ha : joinLines (first :: more) = a := by
    rw [← habove]
    exact List.intercalate_splitOn '\n'
  have hb : joinLines (b.splitOn '\n') = b := List.intercalate_splitOn '\n'
  have hne := List.splitOn_ne_nil '\n' b
  have hn : ∀ l ∈ first :: more ++ line :: b.splitOn '\n', '\n' ∉ l := by
    rw [List.forall_mem_append, List.forall_mem_cons (a := line), ← habove]
    exact ⟨fun _ => Text.not_mem_of_mem_splitOn, h.1, fun _ => Text.not_mem_of_mem_splitOn⟩
  have hwithin : isWithin line = true :=
    isWithin_iff.mpr (isSpacing_head? h (by decide) (by decide))
  have hinsert :=
    extract_insert hwithin (openedModel?_of_isSpacing h) (ofLine?_of_isSpacing h) hn
  rwa [joinLines_append (List.cons_ne_nil _ _) (List.cons_ne_nil _ _),
    joinLines_append (List.cons_ne_nil _ _) hne, Text.joinLines_cons line hne, ha, hb] at hinsert

end Notes

end Datamodel
