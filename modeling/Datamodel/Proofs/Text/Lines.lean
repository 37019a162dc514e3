import Datamodel.Text.Pattern

/-! Cutting a text into pieces and lines.

The lines of a text are those that were joined (`lines_joinLines`), but for a carriage return at
the end of a line. A closing brace at the head of a line ends a piece
(`splitAtClosings_append_closing`), and nothing else does (`splitAtClosings_joinLines`). -/

namespace Datamodel.Text

/-- Lines with a line feed between any two. -/
def joinLines (ls : List (List Char)) : List Char := ['\n'].intercalate ls

section
variable {line : List Char} {ls ls' : List (List Char)}

@[simp] theorem joinLines_singleton (line : List Char) : joinLines [line] = line :=
  List.intercalate_singleton

theorem joinLines_cons (line : List Char) (h : ls ≠ []) :
    joinLines (line :: ls) = line ++ '\n' :: joinLines ls := by
  rw [joinLines, List.intercalate_cons_of_ne_nil h, List.append_assoc]
  rfl

theorem joinLines_append (h : ls ≠ []) (h' : ls' ≠ []) :
    joinLines (ls ++ ls') = joinLines ls ++ '\n' :: joinLines ls' := by
  induction ls with
  | nil => exact absurd rfl h
  | cons line ls ih =>
    cases ls with
    | nil => rw [joinLines_singleton, List.singleton_append, joinLines_cons line h']
    | cons line' ls =>
      rw [List.cons_append, joinLines_cons line (by simp), ih (List.cons_ne_nil _ _),
        joinLines_cons line (List.cons_ne_nil _ _), List.append_assoc]
      rfl

theorem joinLines_concat_append (ls : List (List Char)) (line x : List Char) :
    joinLines (ls ++ [line ++ x]) = joinLines (ls ++ [line]) ++ x := by
  cases ls with
  | nil => rw [List.nil_append, List.nil_append, joinLines_singleton, joinLines_singleton]
  | cons line' ls =>
    rw [joinLines_append (List.cons_ne_nil _ _) (List.cons_ne_nil _ _),
      joinLines_append (List.cons_ne_nil _ _) (List.cons_ne_nil _ _), joinLines_singleton,
      joinLines_singleton, List.append_assoc, List.cons_append]

theorem flatMap_newline (ls : List (List Char)) :
    ls.flatMap (· ++ ['\n']) = joinLines (ls ++ [[]]) := by
  induction ls with
  | nil => rfl
  | cons line ls ih =>
    rw [List.flatMap_cons, ih, List.cons_append, joinLines_cons line (by simp), List.append_assoc]
    rfl

theorem joinLines_cons_cons (c : Char) (line : List Char) (ls : List (List Char)) :
    joinLines ((c :: line) :: ls) = c :: joinLines (line :: ls) := by
  cases ls with
  | nil => rfl
  | cons line' ls =>
    rw [joinLines_cons _ (List.cons_ne_nil _ _), joinLines_cons _ (List.cons_ne_nil _ _)]
    rfl

end

/-- A text between separators holds none. -/
theorem not_mem_of_mem_splitOn {c : Char} {s line : List Char} (h : line ∈ s.splitOn c) :
    c ∉ line := by
  induction s generalizing line with
  | nil =>
    rw [List.splitOn_nil, List.mem_singleton] at h
    rw [h]
    exact List.not_mem_nil
  | cons d s ih =>
    rw [List.splitOn_cons_eq_if_modifyHead] at h
    split at h
    · rcases List.mem_cons.mp h with rfl | h
      · exact List.not_mem_nil
      · exact ih h
    · next hd =>
      obtain ⟨first, more, hs⟩ := List.exists_cons_of_ne_nil (List.splitOn_ne_nil c s)
      rw [hs, List.modifyHead_cons] at h
      rcases List.mem_cons.mp h with rfl | h
      · have hfirst : c ∉ first := ih (hs ▸ List.mem_cons_self)
        exact List.not_mem_cons_of_ne_of_not_mem (fun e => hd (beq_iff_eq.mpr e.symm)) hfirst
      · exact ih (hs ▸ List.mem_cons_of_mem _ h)

/-- The text behind the last line feed. -/
def lastLine (s : List Char) : List Char :=
  (s.splitOn '\n').getLast (List.splitOn_ne_nil '\n' s)

theorem exists_splitOn_eq_concat (s : List Char) : ∃ front,
    s.splitOn '\n' = front ++ [lastLine s] ∧ joinLines (front ++ [lastLine s]) = s := by
  have hsplit := List.dropLast_concat_getLast (List.splitOn_ne_nil '\n' s)
  refine ⟨(s.splitOn '\n').dropLast, hsplit.symm, ?_⟩
  rw [lastLine, hsplit]
  exact List.intercalate_splitOn '\n'

theorem not_mem_lastLine (s : List Char) : '\n' ∉ lastLine s := by
  obtain ⟨front, hsplit, -⟩ := exists_splitOn_eq_concat s
  exact not_mem_of_mem_splitOn (hsplit ▸ List.mem_append_right front List.mem_cons_self)

theorem lastLine_suffix (s : List Char) : lastLine s <:+ s := by
  obtain ⟨front, -, hjoin⟩ := exists_splitOn_eq_concat s
  have hlast := joinLines_concat_append front [] (lastLine s)
  rw [List.nil_append, hjoin] at hlast
  exact ⟨_, hlast.symm⟩

/-- What stands at the end of a text without a line feed stands at the end of its last line. -/
theorem suffix_lastLine {s t : List Char} (h : t <:+ s) (ht : '\n' ∉ t) : t <:+ lastLine s := by
  obtain ⟨front, -, hjoin⟩ := exists_splitOn_eq_concat s
  cases front with
  | nil => rwa [← hjoin, List.nil_append, joinLines_singleton] at h
  | cons line front =>
    rw [joinLines_append (List.cons_ne_nil _ _) (List.cons_ne_nil _ _),
      joinLines_singleton] at hjoin
    have hlast : '\n' :: lastLine s <:+ s := ⟨joinLines (line :: front), hjoin⟩
    rcases List.suffix_or_suffix_of_suffix h hlast with h | h
    · rcases List.suffix_cons_iff.mp h with rfl | h
      · exact absurd List.mem_cons_self ht
      · exact h
    · exact absurd (h.subset List.mem_cons_self) ht

/-! ### Pieces -/

section
variable {line : List Char} {ls ls' : List (List Char)}

theorem splitAtClosings_ne_nil (s : List Char) : splitAtClosings s ≠ [] := by
  fun_cases splitAtClosings s <;> simp_all

theorem splitAtClosings_cons {c : Char} {s : List Char} (h : c = '\n' → s.head? ≠ some '}') :
    splitAtClosings (c :: s) = (splitAtClosings s).modifyHead (c :: ·) := by
  have hne := splitAtClosings_ne_nil s
  rw [splitAtClosings]
  · cases hs : splitAtClosings s with
    | nil => exact absurd hs hne
    | cons piece pieces => rfl
  · rintro s' rfl rfl
    exact h rfl rfl

theorem splitAtClosings_append (hline : '\n' ∉ line) (s : List Char) :
    splitAtClosings (line ++ s) = (splitAtClosings s).modifyHead (line ++ ·) := by
  induction line with
  | nil =>
    obtain ⟨piece, pieces, h⟩ := List.exists_cons_of_ne_nil (splitAtClosings_ne_nil s)
    rw [List.nil_append, h]
    rfl
  | cons c line ih =>
    have hc : c ≠ '\n' := fun h => hline (h ▸ List.mem_cons_self)
    rw [List.cons_append, splitAtClosings_cons (fun h => absurd h hc),
      ih fun h => hline (List.mem_cons_of_mem c h), List.modifyHead_modifyHead]
    rfl

theorem head?_joinLines {c : Char} (hline : line.head? ≠ some c) (hc : c ≠ '\n') :
    (joinLines (line :: ls)).head? ≠ some c := by
  cases line with
  | cons d line =>
    rw [joinLines_cons_cons]
    exact hline
  | nil =>
    cases ls with
    | nil => nofun
    | cons line' ls =>
      rw [joinLines_cons _ (List.cons_ne_nil _ _)]
      rintro ⟨⟩
      exact hc rfl

/-- Lines of which none starts with a closing brace, the first apart, belong to one piece. -/
theorem splitAtClosings_joinLines (hne : ls ≠ []) (hline : ∀ l ∈ ls, '\n' ∉ l)
    (htail : ∀ l ∈ ls.tail, l.head? ≠ some '}') :
    splitAtClosings (joinLines ls) = [joinLines ls] := by
  induction ls with
  | nil => exact absurd rfl hne
  | cons line ls ih =>
    have hline' : '\n' ∉ line := hline line List.mem_cons_self
    cases ls with
    | nil =>
      have hsplit := splitAtClosings_append hline' []
      rw [List.append_nil] at hsplit
      rw [joinLines_singleton, hsplit, splitAtClosings]
      simp
    | cons line' ls =>
      have ih := ih (List.cons_ne_nil _ _) (fun l hl => hline l (List.mem_cons_of_mem _ hl))
        fun l hl => htail l (List.mem_cons_of_mem _ hl)
      have hopen : (joinLines (line' :: ls)).head? ≠ some '}' :=
        head?_joinLines (htail line' List.mem_cons_self) (by decide)
      rw [joinLines_cons line (List.cons_ne_nil _ _), splitAtClosings_append hline',
        splitAtClosings_cons fun _ => hopen, ih]
      rfl

/-- **A line feed with a closing brace behind it cuts a text**, whatever stands on both sides. -/
theorem splitAtClosings_append_closing (s r : List Char) :
    splitAtClosings (s ++ '\n' :: '}' :: r) = splitAtClosings s ++ splitAtClosings r := by
  fun_induction splitAtClosings s with
  | case1 => rfl
  | case2 s ih =>
    rw [List.cons_append, List.cons_append, splitAtClosings, ih]
    rfl
  | case3 c s _ hnil => exact absurd hnil (splitAtClosings_ne_nil s)
  | case4 c s hnot piece pieces hpieces ih =>
    have hhead : c = '\n' → (s ++ '\n' :: '}' :: r).head? ≠ some '}' := by
      intro hc
      cases s with
      | nil => nofun
      | cons d s =>
        rintro ⟨⟩
        exact hnot s hc rfl
    rw [List.cons_append, splitAtClosings_cons hhead, ih, hpieces]
    rfl

/-- A line that is a closing brace ends a piece. The next piece starts with an empty line. -/
theorem splitAtClosings_joinLines_closing (hne : ls ≠ []) (hline : ∀ l ∈ ls, '\n' ∉ l)
    (htail : ∀ l ∈ ls.tail, l.head? ≠ some '}') (ls' : List (List Char)) :
    splitAtClosings (joinLines (ls ++ ['}'] :: ls')) =
      joinLines ls :: splitAtClosings (joinLines ([] :: ls')) := by
  rw [joinLines_append hne (List.cons_ne_nil _ _), joinLines_cons_cons,
    splitAtClosings_append_closing, splitAtClosings_joinLines hne hline htail]
  rfl

/-! ### Lines -/

theorem lines_joinLines (hline : ∀ l ∈ ls ++ [line], '\n' ∉ l) :
    lines (joinLines (ls ++ [line])) = ls.map dropReturn ++ if line.isEmpty then [] else [line] := by
  rw [lines, joinLines, List.splitOn_intercalate '\n' hline (by simp)]
  cases line <;> simp

theorem dropReturn_of_not_mem (h : '\r' ∉ line) : dropReturn line = line :=
  if_neg fun hlast => h (List.mem_of_getLast? hlast)

/-- Only the end of a line is dropped. -/
theorem exists_dropReturn_append {front : List Char} (h : front.getLast? ≠ some '\r')
    (s : List Char) : ∃ s', dropReturn (front ++ s) = front ++ s' := by
  rw [dropReturn]
  split
  · next hlast =>
    cases s with
    | nil => exact absurd (List.append_nil front ▸ hlast) h
    | cons c s => exact ⟨(c :: s).dropLast, List.dropLast_append_of_ne_nil nofun⟩
  · exact ⟨s, rfl⟩

end

end Datamodel.Text
