import Datamodel.Proofs.Except
import Datamodel.Text.Quoted

/-! Reading a string literal undoes writing it (`read_escape`).

A literal ends where it ends whatever stands behind it (`exists_of_read`), and one whose value is
its text holds no quote (`not_mem_of_read_self`). -/

namespace Datamodel.Text.Quoted

/-- A character that is not escaped stands for itself. -/
theorem escapeChar_of_ne {c : Char} (h₁ : c ≠ '"') (h₂ : c ≠ '\\') (h₃ : c ≠ '\n') (h₄ : c ≠ '\r')
    (h₅ : c ≠ '\t') : escapeChar c = [c] := by
  unfold escapeChar
  split <;> simp_all

theorem read_backslash {s v r : List Char} (h : readEscape s = .ok (v, r)) :
    read ('\\' :: s) = (read r).map fun (w, rest) => (v ++ w, rest) := by
  rw [read]
  split <;> simp_all

theorem read_escapeChar (c : Char) (s : List Char) :
    read (escapeChar c ++ s) = (read s).map fun (w, rest) => (c :: w, rest) := by
  by_cases h₁ : c = '"'
  · subst h₁; exact read_backslash (s := '"' :: s) rfl
  by_cases h₂ : c = '\\'
  · subst h₂; exact read_backslash (s := '\\' :: s) rfl
  by_cases h₃ : c = '\n'
  · subst h₃; exact read_backslash (s := 'n' :: s) rfl
  by_cases h₄ : c = '\r'
  · subst h₄; exact read_backslash (s := 'r' :: s) rfl
  by_cases h₅ : c = '\t'
  · subst h₅; exact read_backslash (s := 't' :: s) rfl
  rw [escapeChar_of_ne h₁ h₂ h₃ h₄ h₅, List.singleton_append, read]
  · exact h₁
  · exact h₃
  · exact h₂

/-- **A literal is read as the text that was quoted**, and what stands after it is left. -/
theorem read_escape (s r : List Char) : read (escape s ++ '"' :: r) = .ok (s, r) := by
  induction s with
  | nil => rw [escape, List.flatMap_nil, List.nil_append, read]
  | cons c s ih =>
    rw [escape, List.flatMap_cons, List.append_assoc, read_escapeChar, ← escape, ih]
    rfl

/-! ### What a literal is made of -/

/-- An escape ends where it ends. Unless it stands for itself, its value is no longer than what
stands behind its backslash. -/
theorem exists_of_readEscape {s v r : List Char} (h : readEscape s = .ok (v, r)) :
    ∃ w, s = w ++ r ∧ (v.length ≤ w.length ∨ ∃ c, c ≠ '"' ∧ w = [c] ∧ v = ['\\', c]) ∧
      ∀ r', readEscape (w ++ r') = .ok (v, r') := by
  unfold readEscape at h
  split at h
  · cases h
  · next s =>
    split at h
    · next c hc =>
      cases h
      have htake : (s.take 4).length = 4 := by
        refine Decidable.byContradiction fun hne => ?_
        rw [hexChar?, hexPrefix?, if_neg hne] at hc
        cases hc
      refine ⟨'u' :: s.take 4, by simp, .inl (by simp), fun r' => ?_⟩
      have hc' : hexChar? (s.take 4 ++ r') = some c := by
        rw [← hc, hexChar?, hexChar?, hexPrefix?, hexPrefix?, List.take_append_of_le_length
          (Nat.le_of_eq htake.symm), List.take_take, Nat.min_self]
      have hdrop : (s.take 4 ++ r').drop 4 = r' := by
        rw [List.drop_append_of_le_length (Nat.le_of_eq htake.symm),
          List.drop_of_length_le (Nat.le_of_eq htake), List.nil_append]
      rw [List.cons_append, readEscape, hc', hdrop]
    · cases h
  · next c s hu =>
    cases h
    refine ⟨[c], rfl, ?_, fun r' => ?_⟩
    · unfold unescape
      split
      case h_6 hquote _ => exact .inr ⟨c, hquote, rfl, rfl⟩
      all_goals exact .inl (Nat.le_refl 1)
    · unfold readEscape
      split <;> simp_all

/-- A literal ends where it ends, whatever stands behind it. -/
theorem exists_of_read {s v r : List Char} (h : read s = .ok (v, r)) :
    ∃ body, s = body ++ '"' :: r ∧ v.length ≤ body.length ∧
      ∀ r', read (body ++ '"' :: r') = .ok (v, r') := by
  fun_induction read s generalizing v r with
  | case1 => cases h
  | case2 s =>
    cases h
    exact ⟨[], rfl, Nat.le_refl _, fun r' => by rw [List.nil_append, read]⟩
  | case3 => cases h
  | case4 => cases h
  | case5 s w r' h' _ ih =>
    obtain ⟨⟨w', rest⟩, hr, heq⟩ := exists_of_map h
    cases heq
    obtain ⟨escape, rfl, hescape, hread⟩ := exists_of_readEscape h'
    obtain ⟨body, rfl, hbody, hmore⟩ := ih hr
    refine ⟨'\\' :: (escape ++ body), by simp, ?_, fun r' => ?_⟩
    · rcases hescape with hle | ⟨c, -, rfl, rfl⟩
      · simp only [List.length_append, List.length_cons]
        omega
      · simpa using hbody
    · have htext : '\\' :: (escape ++ body) ++ '"' :: r' =
          '\\' :: (escape ++ (body ++ '"' :: r')) := by simp
      rw [htext, read_backslash (hread _), hmore]
      rfl
  | case6 c s hquote hfeed hslash ih =>
    obtain ⟨⟨w, rest⟩, hr, heq⟩ := exists_of_map h
    cases heq
    obtain ⟨body, rfl, hbody, hmore⟩ := ih hr
    refine ⟨c :: body, rfl, by simpa using hbody, fun r' => ?_⟩
    rw [List.cons_append, read]
    · rw [hmore]
      rfl
    · exact hquote
    · exact hfeed
    · exact hslash

/-- A literal that is its own value holds no quote. -/
theorem not_mem_of_read_self {s v r : List Char} (h : read s = .ok (v, r))
    (hs : s = v ++ '"' :: r) : '"' ∉ v := by
  fun_induction read s generalizing v r with
  | case1 => cases h
  | case2 s =>
    cases h
    exact List.not_mem_nil
  | case3 => cases h
  | case4 => cases h
  | case5 s w r' h' _ ih =>
    obtain ⟨⟨w', rest⟩, hr, heq⟩ := exists_of_map h
    cases heq
    obtain ⟨escape, rfl, hescape, -⟩ := exists_of_readEscape h'
    obtain ⟨body, rfl, hbody, -⟩ := exists_of_read hr
    have hlength := congrArg List.length hs
    simp only [List.length_append, List.length_cons] at hlength
    rcases hescape with hle | ⟨c, hc, rfl, rfl⟩
    · omega
    · have hmore : body ++ '"' :: r = w' ++ '"' :: r := by simpa using hs
      have hw' : '"' ∉ w' := ih hr hmore
      simpa [hw'] using Ne.symm hc
  | case6 c s hquote hfeed hslash ih =>
    obtain ⟨⟨w, rest⟩, hr, heq⟩ := exists_of_map h
    cases heq
    have hw : '"' ∉ w := ih hr (List.cons.inj hs).2
    have hc : c ≠ '"' := fun hc => hquote hc
    simpa [hw] using Ne.symm hc

/-! ### Characters of a literal -/

/-- A character that is no part of the escapes with a meaning. -/
def IsOrdinary (c : Char) : Prop := c ∉ ['u', 'r', 't', 'n', '"', '\\'] ∧ isHexDigit c = false

instance (c : Char) : Decidable (IsOrdinary c) := inferInstanceAs (Decidable (_ ∧ _))

theorem isHexDigit_of_hexChar? {s : List Char} {c d : Char} (h : hexChar? s = some c)
    (hd : d ∈ s.take 4) : isHexDigit d = true := by
  obtain ⟨n, hn, -⟩ := Option.bind_eq_some_iff.mp h
  rw [hexPrefix?] at hn
  split at hn
  · rw [hexNumber?] at hn
    split at hn
    · next hall => exact List.all_eq_true.mp hall d hd
    · cases hn
  · cases hn

/-- An escape that holds an ordinary character is that character, and keeps its backslash. -/
theorem eq_of_readEscape {s v w r : List Char} {c : Char} (h : readEscape s = .ok (v, r))
    (hs : s = w ++ r) (hc : IsOrdinary c) (hw : c ∈ w) : w = [c] ∧ v = ['\\', c] := by
  unfold readEscape at h
  split at h
  · cases h
  · next s =>
    split at h
    · next d hd =>
      cases h
      have htaken : 'u' :: s.take 4 ++ s.drop 4 = w ++ s.drop 4 := by
        rw [← hs, List.cons_append, List.take_append_drop]
      obtain rfl := List.append_cancel_right htaken
      rcases List.mem_cons.mp hw with rfl | hw
      · exact absurd hc (by decide)
      · exact absurd (isHexDigit_of_hexChar? hd hw) (Bool.eq_false_iff.mp hc.2)
    · cases h
  · next d s _ =>
    cases h
    obtain rfl : [d] = w := List.append_cancel_right hs
    obtain rfl := List.mem_singleton.mp hw
    refine ⟨rfl, ?_⟩
    unfold unescape
    split
    case h_6 => rfl
    all_goals exact absurd hc (by decide)

/-- **An ordinary character of a literal** stands in its value too, and no further behind. -/
theorem exists_append_of_read {s v r p q : List Char} {c : Char} (h : read s = .ok (v, r))
    (hc : IsOrdinary c) (hs : s = p ++ c :: (q ++ '"' :: r)) (hp : c ∉ p) :
    ∃ p' q', v = p' ++ c :: q' ∧ p'.length ≤ p.length := by
  fun_induction read s generalizing v r p with
  | case1 => cases h
  | case2 s =>
    cases h
    have hlength := congrArg List.length hs
    simp only [List.length_append, List.length_cons] at hlength
    omega
  | case3 => cases h
  | case4 => cases h
  | case5 s w r' h' _ ih =>
    obtain ⟨⟨w', rest⟩, hr, heq⟩ := exists_of_map h
    cases heq
    obtain ⟨escape, rfl, hescape, -⟩ := exists_of_readEscape h'
    obtain ⟨p, rfl⟩ : ∃ p', p = '\\' :: p' := by
      cases p with
      | nil =>
        obtain rfl : '\\' = c := (List.cons.inj hs).1
        exact absurd hc (by decide)
      | cons d p => exact ⟨p, by rw [(List.cons.inj hs).1]⟩
    have hbody : escape ++ r' = p ++ c :: (q ++ '"' :: r) := by simpa using hs
    have hp : c ∉ p := fun hmem => hp (List.mem_cons_of_mem _ hmem)
    by_cases hmem : c ∈ escape
    · obtain ⟨rfl, rfl⟩ := eq_of_readEscape h' rfl hc hmem
      exact ⟨['\\'], w', rfl, by simp⟩
    · -- The character stands behind the escape, whose value is no longer than it is.
      rcases exists_of_append_eq_append_cons hbody with ⟨e, rfl, -⟩ | ⟨e, rfl, hr'⟩
      · exact absurd (by simp) hmem
      · obtain ⟨p', q', rfl, hle⟩ := ih hr hr' fun hmem => hp (List.mem_append_right _ hmem)
        refine ⟨w ++ p', q', by simp, ?_⟩
        rcases hescape with hescape | ⟨d, -, rfl, rfl⟩ <;>
          simp only [List.length_append, List.length_cons, List.length_nil] <;> omega
  | case6 c' s hquote hfeed hslash ih =>
    obtain ⟨⟨w, rest⟩, hr, heq⟩ := exists_of_map h
    cases heq
    cases p with
    | nil =>
      obtain rfl : c' = c := (List.cons.inj hs).1
      exact ⟨[], w, rfl, Nat.le_refl 0⟩
    | cons d p =>
      obtain ⟨rfl, hbody⟩ := List.cons.inj hs
      obtain ⟨p', q', rfl, hle⟩ := ih hr hbody fun hmem => hp (List.mem_cons_of_mem _ hmem)
      exact ⟨c' :: p', q', rfl, Nat.succ_le_succ hle⟩

/-- **No text is a literal that stands for the text.** Behind a gap, the literal would have to end
where the text does, in front of an ordinary character, or behind that. -/
theorem not_read_of_append {v s r gap t : List Char} {c : Char} (h : read s = .ok (v, r))
    (hc : IsOrdinary c) (hgap : c ∉ gap) : v ++ c :: t ≠ gap ++ '"' :: s := by
  intro hs
  have hquote : '"' ≠ c := by
    rintro rfl
    exact absurd hc (by decide)
  -- The text is the gap, the quote and the start `u` of the literal.
  obtain ⟨u, rfl, hu⟩ : ∃ u, v = gap ++ '"' :: u ∧ s = u ++ c :: t := by
    rcases exists_of_append_eq_append_cons hs.symm with ⟨e, rfl, -⟩ | ⟨e, rfl, he⟩
    · exact absurd (by simp) hgap
    · cases e with
      | nil => exact absurd (List.cons.inj he).1 hquote
      | cons d u =>
        obtain ⟨rfl, hu⟩ := List.cons.inj he
        exact ⟨u, rfl, hu⟩
  obtain ⟨body, rfl, hlength, -⟩ := exists_of_read h
  simp only [List.length_append, List.length_cons] at hlength
  obtain ⟨q, rfl⟩ : ∃ q, body = u ++ c :: q := by
    rcases exists_of_append_eq_append_cons hu with ⟨q, hbody, -⟩ | ⟨e, rfl, -⟩
    · exact ⟨q, hbody⟩
    · simp only [List.length_append] at hlength
      omega
  -- The character stands in the value before the part of the text that the literal repeats.
  obtain ⟨p, q', hbody, hp⟩ := List.eq_append_cons_of_mem (show c ∈ u ++ c :: q by simp)
  have hsplit : u ++ c :: q ++ '"' :: r = p ++ c :: (q' ++ '"' :: r) := by
    rw [hbody, List.append_assoc, List.cons_append]
  obtain ⟨p', q'', hvalue, hle⟩ := exists_append_of_read h hc hsplit hp
  obtain ⟨e, rfl⟩ : ∃ e, u = p ++ e := by
    rcases exists_of_append_eq_append_cons hbody.symm with ⟨e, rfl, -⟩ | ⟨e, rfl, -⟩
    · exact absurd (by simp) hp
    · exact ⟨e, rfl⟩
  have hfront : (gap ++ '"' :: p) ++ e = p' ++ c :: q'' := by
    rw [← hvalue, List.append_assoc, List.cons_append]
  rcases exists_of_append_eq_append_cons hfront with ⟨e', hmem, -⟩ | ⟨e', rfl, -⟩
  · have hmem : c ∈ gap ++ '"' :: p := by simp [hmem]
    simp only [List.mem_append, List.mem_cons] at hmem
    rcases hmem with hmem | hmem | hmem
    · exact hgap hmem
    · exact hquote hmem.symm
    · exact hp hmem
  · simp only [List.length_append, List.length_cons] at hle
    omega

end Datamodel.Text.Quoted
