import Datamodel.Proofs.Notes.Fields

/-! The storage notes of the lines of a text.

A carriage return at the end of a line changes nothing (`Notes.ofLine?_dropReturn`,
`Notes.openedModel?_dropReturn`), so the notes of a piece are those of its lines as they were
joined (`Notes.ofLines?_lines`). -/

namespace Datamodel

open Text (after? allBlank dropReturn isBlank joinLines trimLeft)

/-! ### Trimmed lines -/

namespace Text
variable {c : Char} {s : List Char}

theorem trim_concat (h : isBlank c = true) (s : List Char) : trim (s ++ [c]) = trim s := by
  rw [trim, trim, trimLeft, trimLeft, List.dropWhile_append]
  split
  · next hempty =>
    rw [List.isEmpty_iff.mp hempty, List.dropWhile_cons_of_pos h]
    rfl
  · simp [trimRight, h]

theorem trimLeft_append_right (h : allBlank s = false) (x : List Char) :
    trimLeft (s ++ x) = trimLeft s ++ x := by
  have hne : (s.dropWhile isBlank).isEmpty = false := by
    rw [Bool.eq_false_iff, Ne, List.isEmpty_iff, ← trimLeft, trimLeft_eq_nil_iff, h]
    exact Bool.false_ne_true
  rw [trimLeft, List.dropWhile_append, hne]
  rfl

theorem trim_infix (s : List Char) : trim s <:+: s := by
  obtain ⟨b, -, hleft⟩ := exists_trimLeft s
  obtain ⟨b', -, hright⟩ := exists_trimRight (trimLeft s)
  rw [hright] at hleft
  exact ⟨b, b', by rw [trim, List.append_assoc, ← hleft]⟩

theorem trim_ne_nil (h : allBlank s = false) : trim s ≠ [] := by
  intro hnil
  obtain ⟨b, hb, hright⟩ := exists_trimRight (trimLeft s)
  rw [show trimRight (trimLeft s) = [] from hnil, List.nil_append] at hright
  obtain ⟨b', hb', hleft⟩ := exists_trimLeft s
  rw [hleft, hright] at h
  simp only [allBlank, List.all_append, Bool.and_eq_false_iff] at h hb hb'
  rcases h with h | h
  · exact absurd h (by simp [hb'])
  · exact absurd h (by simp [hb])

end Text

namespace Notes

variable {line : List Char} {ls : List (List Char)} {n : String}

/-! ### Lines with more behind -/

section
variable {x : List Char}

theorem not_mem_of_head_isBlank (hx : ∀ c ∈ x.head?, isBlank c = true) {p : List Char}
    (hp : ∀ c ∈ p, isBlank c = false) : ∀ c ∈ x.head?, c ∉ p := by
  intro c hc hmem
  exact absurd (hp c hmem) (by simp [hx c hc])

theorem columnArgument?_eq_none {s : List Char} (h : '"' ∉ s) : columnArgument? s = none := by
  rw [columnArgument?]
  cases hafter : after? "@map(".toList s with
  | none => rfl
  | some r =>
    rw [Text.after?_eq_some_iff] at hafter
    have hr : '"' ∉ r.tail := fun hmem => h (by simp [hafter, List.mem_of_mem_tail hmem])
    rw [Option.bind_some, Text.quotedPrefix?_eq_none hr, Option.bind_none]

theorem columnArgument?_append (hx : ∀ c ∈ x.head?, isBlank c = true) (hquote : '"' ∉ x)
    (s : List Char) : columnArgument? (s ++ x) = columnArgument? s := by
  rw [columnArgument?, columnArgument?,
    Text.after?_append (not_mem_of_head_isBlank hx (p := "@map(".toList) (by decide))]
  cases after? "@map(".toList s with
  | none => rfl
  | some s =>
    rw [Option.map_some, Option.bind_some, Option.bind_some, Text.quotedPrefix?_append hquote]
    cases Text.quotedPrefix? s with
    | none => rfl
    | some found =>
      obtain ⟨name, s⟩ := found
      simp only [Option.map_some, Option.bind_some, Prod.map_apply, id_eq,
        Text.after?_append (not_mem_of_head_isBlank hx (p := [')']) (by decide))]
      cases after? [')'] s <;> rfl

/-- What follows a blank without a quote is no part of a column's name. -/
theorem columnName?_append (hx : ∀ c ∈ x.head?, isBlank c = true) (hquote : '"' ∉ x)
    (line : List Char) : columnName? (line ++ x) = columnName? line := by
  rw [columnName?_eq, columnName?_eq]
  refine Text.firstMatch_append_right (fun u hu => ?_) ?_ line
  · obtain ⟨d, v, rfl⟩ := List.exists_cons_of_ne_nil hu
    rw [List.cons_append, columnBehind?, columnBehind?, columnArgument?_append hx hquote]
  · refine Text.firstMatch_eq_none fun u hu hne => ?_
    obtain ⟨d, v, rfl⟩ := List.exists_cons_of_ne_nil hne
    have hv : '"' ∉ v := fun hmem => hquote (hu.subset (List.mem_cons_of_mem d hmem))
    rw [columnBehind?, columnArgument?_eq_none hv, ite_self]

theorem openedModel?_eq_some_iff : openedModel? line = some n ↔
    ∃ keyword blanks b b' s, (keyword = "model" ∨ keyword = "view") ∧
      line = blanks ++ (keyword.toList ++ (b ++ (n.toList ++ (b' ++ '{' :: s)))) ∧
      allBlank blanks = true ∧ b ≠ [] ∧ allBlank b = true ∧ allBlank b' = true ∧
      IsWord n.toList := by
  constructor
  · intro h
    obtain ⟨keyword, b, b', s, hkeyword, htrim, hne, hb, hb', hname, hword, -⟩ :=
      exists_parts_of_openedModel? h
    obtain ⟨blanks, hblanks, hline⟩ := Text.exists_trimLeft line
    have hisWord : IsWord n.toList := ⟨hname, fun c hc => ⟨hword c hc, by
      rw [Bool.eq_false_iff]
      exact fun hblank => absurd (hword c hc) (by simp [isWordChar_of_isBlank hblank])⟩⟩
    rw [htrim] at hline
    rcases hkeyword with rfl | rfl
    · exact ⟨_, blanks, b, b', s, .inl rfl, hline, hblanks, hne, hb, hb', hisWord⟩
    · exact ⟨_, blanks, b, b', s, .inr rfl, hline, hblanks, hne, hb, hb', hisWord⟩
  · rintro ⟨keyword, blanks, b, b', s, hkeyword, rfl, hblanks, hne, hb, hb', hword⟩
    rw [openedModel?_of_parts hkeyword hword hblanks hb hne hb', String.ofList_toList]

/-- What stands behind a character that is neither blank nor part of a word opens no model. -/
theorem openedModel?_append (hx : ∀ u s, x = u ++ '{' :: s →
    ∃ d ∈ u, isBlank d = false ∧ Text.isWordChar d = false) (line : List Char) :
    openedModel? (line ++ x) = openedModel? line := by
  refine Option.ext fun n => ?_
  rw [openedModel?_eq_some_iff, openedModel?_eq_some_iff]
  constructor
  · rintro ⟨keyword, blanks, b, b', s, hkeyword, hline, hblanks, hne, hb, hb', hword⟩
    have hfront : ∀ d ∈ blanks ++ (keyword.toList ++ (b ++ (n.toList ++ b'))),
        isBlank d = true ∨ Text.isWordChar d = true := by
      have hletters : ∀ d ∈ keyword.toList, Text.isWordChar d = true := by
        rcases hkeyword with rfl | rfl <;> decide
      simp only [List.forall_mem_append]
      simp only [allBlank, List.all_eq_true] at hblanks hb hb'
      exact ⟨fun d hd => .inl (hblanks d hd), fun d hd => .inr (hletters d hd),
        fun d hd => .inl (hb d hd), fun d hd => .inr (hword.2 d hd).1, fun d hd => .inl (hb' d hd)⟩
    have hsplit : line ++ x = (blanks ++ (keyword.toList ++ (b ++ (n.toList ++ b')))) ++ '{' :: s := by
      simpa using hline
    rcases exists_of_append_eq_append_cons hsplit with ⟨s', hs', -⟩ | ⟨u, hu, hs'⟩
    · exact ⟨keyword, blanks, b, b', s', hkeyword, by simpa using hs', hblanks, hne, hb, hb', hword⟩
    · obtain ⟨d, hd, hblank, hchar⟩ := hx u s hs'
      rcases hfront d (hu ▸ List.mem_append_right line hd) with h | h
      · exact absurd h (by simp [hblank])
      · exact absurd h (by simp [hchar])
  · rintro ⟨keyword, blanks, b, b', s, hkeyword, rfl, h⟩
    exact ⟨keyword, blanks, b, b', s ++ x, hkeyword, by simp, h⟩

end

/-! ### Carriage returns -/

theorem ofLine?_concat_return (line : List Char) : ofLine? (line ++ ['\r']) = ofLine? line := by
  have hnotes (trimmed : List Char) :
      ofFieldLine (line ++ ['\r']) trimmed = ofFieldLine line trimmed := by
    rw [ofFieldLine, ofFieldLine, columnName?_append (by decide) (by decide)]
  simp only [ofLine?, Text.trim_concat (show isBlank '\r' = true by decide), hnotes]

theorem openedModel?_concat_return (line : List Char) :
    openedModel? (line ++ ['\r']) = openedModel? line :=
  openedModel?_append (fun u s h => by simp [List.cons_eq_append_iff] at h) line

theorem exists_of_dropReturn (line : List Char) :
    dropReturn line = line ∨ line = dropReturn line ++ ['\r'] := by
  rw [dropReturn]
  split
  · next hlast =>
    obtain ⟨front, rfl⟩ := List.getLast?_eq_some_iff.mp hlast
    exact .inr (by simp)
  · exact .inl rfl

theorem ofLine?_dropReturn (line : List Char) : ofLine? (dropReturn line) = ofLine? line := by
  rcases exists_of_dropReturn line with h | h
  · rw [h]
  · rw [h, ofLine?_concat_return, ← h]

theorem ofLine?_of_shown {line' : List Char} (h : Shown line line') :
    ofLine? line' = ofLine? line := by
  rcases h with rfl | rfl
  · rfl
  · exact ofLine?_dropReturn line

/-- A carriage return at the end of a line does not matter for whether it opens a model. -/
theorem openedModel?_dropReturn (line : List Char) :
    openedModel? (dropReturn line) = openedModel? line := by
  rcases exists_of_dropReturn line with h | h
  · rw [h]
  · rw [h, openedModel?_concat_return, ← h]

/-! ### Pieces -/

theorem ofLines?_map_dropReturn (ls more : List (List Char)) :
    ofLines? (ls.map dropReturn ++ more) = ofLines? (ls ++ more) := by
  induction ls with
  | nil => rfl
  | cons line ls ih =>
    have hlines : (ls.map dropReturn).filterMap ofLine? = ls.filterMap ofLine? := by
      rw [List.filterMap_map]
      exact congrArg (List.filterMap · ls) (funext ofLine?_dropReturn)
    rw [List.map_cons, List.cons_append, List.cons_append, ofLines?, ofLines?,
      openedModel?_dropReturn, ih, List.filterMap_append, List.filterMap_append, hlines]

theorem ofLines?_append_nil (ls : List (List Char)) : ofLines? (ls ++ [[]]) = ofLines? ls := by
  induction ls with
  | nil => rfl
  | cons line ls ih =>
    rw [List.cons_append, ofLines?, ofLines?, ih]
    split
    · rw [List.filterMap_append]
      simp [ofLine?, Text.trim, Text.trimLeft, Text.trimRight]
    · rfl

/-- **The notes of a piece** are those of its lines as they were joined. -/
theorem ofLines?_lines (hne : ls ≠ []) (hn : ∀ l ∈ ls, '\n' ∉ l) :
    ofLines? (Text.lines (joinLines ls)) = ofLines? ls := by
  obtain ⟨front, last, rfl⟩ := (List.eq_nil_or_concat' ls).resolve_left hne
  rw [Text.lines_joinLines hn, ofLines?_map_dropReturn]
  cases last with
  | nil =>
    rw [ofLines?_append_nil]
    simp
  | cons c last => rfl

theorem extract_piece (hne : ls ≠ []) (hn : ∀ l ∈ ls, '\n' ∉ l)
    (htail : ∀ l ∈ ls.tail, l.head? ≠ some '}') :
    extract (joinLines ls) = (ofLines? ls).toList := by
  rw [extract, Text.splitAtClosings_joinLines hne hn htail, List.filterMap_cons,
    ofLines?_lines hne hn]
  cases ofLines? ls <;> rfl

end Notes

end Datamodel
