import Datamodel.Proofs.Token.Lexemes

/-! String literals among the tokens of a text.

A literal is one token wherever it stands, with the text that was quoted and none of what is behind
it (`reads_quote`). The other way round, a string among the tokens of a text is a literal of it, and
longer in the text than its value (`length_add_two_le_of_mem_scan`). So no text is a literal that
stands for the text itself (`ne_of_scan`). -/

namespace Datamodel.Token

open Text (isBlank)
open Text.Quoted (escape quote)

/-! ### From a literal to its token -/

section
variable (s : String) (line depth : Nat) (r : List Char)

theorem scan_quote : scan line depth ((quote s).toList ++ r) =
    (scan line depth r).map (⟨.text s, line⟩ :: ·) := by
  rw [Text.Quoted.toList_quote, List.append_assoc, List.cons_append, List.singleton_append,
    scan_cons (lexeme_quote s.toList), String.ofList_toList]
  rfl

theorem tokenize_quote : tokenize (quote s) = .ok [⟨.text s, 1⟩] := by
  have hscan := scan_quote s 1 0 []
  rw [List.append_nil, scan] at hscan
  have hmark : Text.dropMark (quote s).toList = (quote s).toList := by
    rw [Text.Quoted.toList_quote]
    rfl
  rw [tokenize, hmark, hscan]
  rfl

/-- **A literal is read as the text that was quoted**, whatever stands behind it. Alone, it is the
one token of its text. -/
theorem reads_quote : (∃ body, (quote s).toList = '"' :: body ∧
      ∀ r, Text.Quoted.read (body ++ r) = .ok (s.toList, r)) ∧
    (∀ line depth r, scan line depth ((quote s).toList ++ r) =
      (scan line depth r).map (⟨.text s, line⟩ :: ·)) ∧
    tokenize (quote s) = .ok [⟨.text s, 1⟩] := by
  refine ⟨⟨escape s.toList ++ ['"'], Text.Quoted.toList_quote s, fun r => ?_⟩, scan_quote s,
    tokenize_quote s⟩
  rw [List.append_assoc]
  exact Text.Quoted.read_escape s.toList r

end

/-! ### From a token to its literal -/

section
variable {line depth n : Nat} {s : List Char} {ts : List Token} {v : String}

/-- Tokens stand on the first line of their text or below. -/
theorem le_line_of_mem_scan {t : Token} (h : scan line depth s = .ok ts) (ht : t ∈ ts) :
    line ≤ t.line := by
  fun_induction scan line depth s generalizing ts with
  | case1 =>
    cases h
    cases ht
  | case2 => cases h
  | case3 line depth c s kind r hlexeme _ ih =>
    obtain ⟨more, hmore, rfl⟩ := exists_of_map h
    rcases List.mem_append.mp ht with ht | ht
    · exact Nat.le_of_eq (eq_of_mem_ofLexeme ht).2.symm
    · have hline : line ≤ Kind.lineAfter line kind := by
        unfold Kind.lineAfter
        split
        · exact Nat.le_succ line
        · exact Nat.le_refl line
      exact Nat.le_trans hline (ih hmore ht)

/-- In front of a line feed there is no token but a line break. -/
theorem kind_of_scan_newline {k : Kind} (h : scan line depth ('\n' :: s) = .ok (⟨k, line⟩ :: ts)) :
    k = .newline := by
  rw [scan_lineBreak] at h
  obtain ⟨more, hmore, heq⟩ := exists_of_map h
  split at heq
  · exact congrArg Token.kind (List.cons.inj heq).1.symm
  · subst heq
    exact absurd (le_line_of_mem_scan hmore List.mem_cons_self) (Nat.not_succ_le_self line)

/-- A string that is the first token of a text, and on its first line, is a literal behind
blanks. -/
theorem exists_literal_of_scan (h : scan line depth s = .ok (⟨.text v, line⟩ :: ts)) :
    ∃ gap s' r, s = gap ++ '"' :: s' ∧ (∀ c ∈ gap, isBlank c = true) ∧
      Text.Quoted.read s' = .ok (v.toList, r) := by
  fun_induction scan line depth s generalizing ts with
  | case1 => cases h
  | case2 => cases h
  | case3 line depth c s kind r hlexeme _ ih =>
    have hscan : scan line depth (c :: s) = .ok _ := (scan_cons hlexeme).trans h
    obtain ⟨more, hmore, htokens⟩ := exists_of_map h
    obtain ⟨t, rfl, hwritten⟩ := written_of_lexeme hlexeme
    cases kind with
    | none =>
      obtain rfl : more = _ := htokens
      rcases hwritten.cases_none with ⟨d, hd, hblank⟩ | hnewline
      · obtain ⟨rfl, rfl⟩ := List.cons.inj hd
        obtain ⟨gap, s', r', rfl, hgap, hread⟩ := ih hmore
        exact ⟨c :: gap, s', r', rfl, List.forall_mem_cons.mpr ⟨hblank, hgap⟩, hread⟩
      · cases r with
        | nil =>
          rw [scan] at hmore
          cases hmore
        | cons d r =>
          obtain rfl := hnewline d rfl
          cases kind_of_scan_newline hmore
    | some k =>
      by_cases hk : k = .newline
      · subst hk
        obtain ⟨rfl, rfl⟩ := List.cons.inj hwritten.eq_of_newline
        cases kind_of_scan_newline hscan
      · have hone : ofLexeme line depth (some k) = [⟨k, line⟩] := by
          unfold ofLexeme
          split <;> simp_all
        rw [hone] at htokens
        obtain rfl : k = _ := congrArg Token.kind (List.cons.inj htokens).1
        obtain ⟨body, hbody, hread⟩ := hwritten.exists_literal
        obtain ⟨rfl, rfl⟩ := List.cons.inj hbody
        exact ⟨[], body ++ '"' :: r, r, by simp, List.forall_mem_nil _, hread⟩

/-- A string of a text takes a literal of it. -/
theorem length_add_two_le_of_mem_scan (h : scan line depth s = .ok ts)
    (hmem : ⟨.text v, n⟩ ∈ ts) : v.toList.length + 2 ≤ s.length := by
  fun_induction scan line depth s generalizing ts with
  | case1 =>
    cases h
    cases hmem
  | case2 => cases h
  | case3 line depth c s kind r hlexeme _ ih =>
    obtain ⟨more, hmore, rfl⟩ := exists_of_map h
    obtain ⟨t, rfl, hwritten⟩ := written_of_lexeme hlexeme
    rcases List.mem_append.mp hmem with hmem | hmem
    · obtain ⟨rfl, -⟩ := eq_of_mem_ofLexeme hmem
      obtain ⟨body, hbody, hread⟩ := hwritten.exists_literal
      obtain ⟨body', hbody', hlength, -⟩ := Text.Quoted.exists_of_read hread
      obtain rfl := List.append_cancel_right hbody'
      have := congrArg List.length hbody
      simp only [List.length_cons, List.length_append] at this ⊢
      omega
    · have := ih hmore hmem
      simp only [List.length_cons, List.length_append]
      omega

/-- **No text is a literal that stands for the text**, in front of a comma or a parenthesis. -/
theorem ne_of_scan {c : Char} {t : List Char} {k : Kind} (hc : c = ',' ∨ c = ')')
    (h : scan line depth (v.toList ++ c :: t) = .ok (⟨k, line⟩ :: ts)) : k ≠ .text v := by
  rintro rfl
  obtain ⟨gap, s', r, hs, hgap, hread⟩ := exists_literal_of_scan h
  have hordinary : Text.Quoted.IsOrdinary c ∧ isBlank c = false := by
    rcases hc with rfl | rfl <;> decide
  refine Text.Quoted.not_read_of_append hread hordinary.1 (fun hmem => ?_) hs
  exact absurd (hgap c hmem) (by simp [hordinary.2])

end

end Datamodel.Token
