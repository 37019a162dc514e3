import Datamodel.Text.Pattern
import Mathlib.Data.List.Infix

/-! Looking for patterns in texts that are put together from known pieces.

A pattern that looks for a fixed word passes over every text in which that word does not start
(`OpensWith.firstMatch_append`). On a line of marked words it is tried at the words themselves and
nowhere else (`firstMatch_words`). -/

namespace Datamodel.Text

section
variable {P : Char → Prop} [DecidablePred P]

-- Characters are enumerable, but a statement on those of a text is decided along the text.
instance decidableForallMem (s : List Char) : Decidable (∀ c ∈ s, P c) := List.decidableBAll P s

instance decidableForallMem? (o : Option Char) : Decidable (∀ c ∈ o, P c) := Option.decidableForallMem o

end

section
variable {α : Type} {p : α → Bool} {s t : List α}

theorem head?_dropWhile (p : α → Bool) (s : List α) :
    ∀ c ∈ (s.dropWhile p).head?, p c = false := by
  intro c hc
  have hhead := List.head?_dropWhile_not p s
  rw [hc] at hhead
  exact hhead

theorem dropWhile_append_of_stop (hs : ∀ c ∈ s, p c = true) (ht : ∀ c ∈ t.head?, p c = false) :
    (s ++ t).dropWhile p = t := by
  rw [List.dropWhile_append_of_pos hs]
  cases t with
  | nil => rfl
  | cons c t => exact List.dropWhile_cons_of_neg (by simp [ht c rfl])

theorem takeWhile_append_of_stop (hs : ∀ c ∈ s, p c = true) (ht : ∀ c ∈ t.head?, p c = false) :
    (s ++ t).takeWhile p = s := by
  rw [List.takeWhile_append_of_pos hs]
  cases t with
  | nil => simp
  | cons c t => rw [List.takeWhile_cons_of_neg (by simp [ht c rfl]), List.append_nil]

end

section
variable {p : Char → Bool} {s t : List Char}

theorem span_append (hs : ∀ c ∈ s, p c = true) (ht : ∀ c ∈ t.head?, p c = false) :
    span p (s ++ t) = (s, t) := by
  rw [span, takeWhile_append_of_stop hs ht, dropWhile_append_of_stop hs ht]

/-- What no longer belongs to the class is left where it stands. -/
theorem span_append_right (ht : ∀ c ∈ t.head?, p c = false) (s : List Char) :
    span p (s ++ t) = ((span p s).1, (span p s).2 ++ t) := by
  induction s with
  | nil => exact span_append nofun ht
  | cons c s ih =>
    by_cases hc : p c = true
    · rw [span, Prod.mk.injEq] at ih
      simp only [span, List.cons_append, List.takeWhile_cons_of_pos hc,
        List.dropWhile_cons_of_pos hc, ih.1, ih.2]
    · simp only [span, List.cons_append, List.takeWhile_cons_of_neg hc,
        List.dropWhile_cons_of_neg hc]

theorem bne_of_not_mem {d : Char} (h : d ∉ s) : ∀ c ∈ s, (c != d) = true := by
  intro c hc
  rw [bne_iff_ne]
  rintro rfl
  exact h hc

theorem quotedPrefix?_quoted (h : '"' ∉ s) (t : List Char) :
    quotedPrefix? ('"' :: (s ++ '"' :: t)) = some (s, t) := by
  have hspan : span (· != '"') (s ++ '"' :: t) = (s, '"' :: t) :=
    span_append (bne_of_not_mem h) (by rintro _ ⟨⟩; decide)
  simp only [quotedPrefix?, hspan]

end

/-! ### Up to the last of a kind -/

section
variable {c : Char} {s : List Char}

theorem takeWhile_append_subset (p : Char → Bool) (s x : List Char) :
    ∃ x', (s ++ x).takeWhile p = s.takeWhile p ++ x' ∧ x' <+: x := by
  rw [List.takeWhile_append]
  split
  · next hall =>
    have hs : s.takeWhile p = s := (List.takeWhile_prefix p).eq_of_length hall
    exact ⟨x.takeWhile p, by rw [hs], List.takeWhile_prefix p⟩
  · exact ⟨[], (List.append_nil _).symm, List.nil_prefix⟩

theorem throughLast?_append {x : List Char} (hx : c ∉ x) (s : List Char) :
    throughLast? c (s ++ x) = throughLast? c s := by
  have hskip : ∀ d ∈ x.reverse, (d != c) = true := fun d hd =>
    bne_of_not_mem hx d (List.mem_reverse.mp hd)
  rw [throughLast?, throughLast?, List.reverse_append, List.dropWhile_append_of_pos hskip]

theorem throughLast?_eq_none (h : c ∉ s) : throughLast? c s = none := by
  have hnil := throughLast?_append h []
  rwa [List.nil_append] at hnil

theorem throughLast?_concat (c : Char) (s : List Char) :
    throughLast? c (s ++ [c]) = some (s ++ [c]) := by
  simp [throughLast?]

/-- What is taken up to the last `c` goes on behind any of them, and ends with one. -/
theorem exists_throughLast?_append (c : Char) (s x : List Char) : ∃ x', x' <+: x ∧
    (∀ d ∈ x'.getLast?, d = c) ∧ throughLast? c (s ++ c :: x) = some (s ++ c :: x') := by
  induction x using List.reverseRecOn with
  | nil => exact ⟨[], List.prefix_rfl, nofun, throughLast?_concat c s⟩
  | append_singleton x d ih =>
    by_cases hd : d = c
    · subst hd
      refine ⟨x ++ [d], List.prefix_rfl, by simp, ?_⟩
      have hlast := throughLast?_concat d (s ++ d :: x)
      rwa [List.append_assoc, List.cons_append] at hlast
    · obtain ⟨x', hprefix, hlast, heq⟩ := ih
      refine ⟨x', hprefix.trans (List.prefix_append x [d]), hlast, ?_⟩
      have hmore := throughLast?_append (x := [d]) (by simpa using Ne.symm hd) (s ++ c :: x)
      rw [List.append_assoc, List.cons_append] at hmore
      rw [hmore, heq]

end

section
variable {α : Type} {pattern : List Char → Option α} {s u v : List Char}

/-- A pattern passes over a piece at none of whose positions it matches. -/
theorem firstMatch_append (h : ∀ u', u' <:+ u → u' ≠ [] → pattern (u' ++ v) = none) :
    firstMatch pattern (u ++ v) = firstMatch pattern v := by
  induction u with
  | nil => rfl
  | cons c u ih =>
    have hc : pattern (c :: (u ++ v)) = none := h (c :: u) List.suffix_rfl nofun
    rw [List.cons_append, firstMatch, hc]
    exact ih fun u' hu' => h u' (hu'.trans (List.suffix_cons c u))

theorem firstMatch_of_some {a : α} (hs : s ≠ []) (h : pattern s = some a) :
    firstMatch pattern s = some a := by
  cases s with
  | nil => exact absurd rfl hs
  | cons c s => rw [firstMatch, h]

theorem firstMatch_eq_none (h : ∀ u, u <:+ s → u ≠ [] → pattern u = none) :
    firstMatch pattern s = none := by
  have hskip : firstMatch pattern (s ++ []) = firstMatch pattern [] :=
    firstMatch_append (by simpa only [List.append_nil] using h)
  rwa [List.append_nil, firstMatch] at hskip

end

/-! ### Texts in which a word does not start -/

/-- `p` starts nowhere in `s`, whatever stands behind `s`. -/
def Clear (p s : List Char) : Prop := ∀ u ∈ s.tails, u ≠ [] → ¬p <+: u ∧ ¬u <+: p

instance (p s : List Char) : Decidable (Clear p s) :=
  inferInstanceAs (Decidable (∀ u ∈ s.tails, u ≠ [] → ¬p <+: u ∧ ¬u <+: p))

section
variable {p s t u : List Char} {c : Char}

theorem Clear.of_suffix (h : Clear p s) (hu : u <:+ s) : Clear p u := by
  intro w hw
  exact h w ((List.mem_tails w s).mpr (((List.mem_tails w u).mp hw).trans hu))

theorem Clear.not_isPrefix (h : Clear p s) (hs : s ≠ []) (t : List Char) : ¬p <+: s ++ t := by
  intro hp
  obtain ⟨hleft, hright⟩ := h s ((List.mem_tails s s).mpr List.suffix_rfl) hs
  rcases List.prefix_or_prefix_of_prefix hp (List.prefix_append s t) with hp | hp
  · exact hleft hp
  · exact hright hp

theorem Clear.not_isInfix (h : Clear p s) (hp : p ≠ []) : ¬p <:+: s := by
  intro hinfix
  obtain ⟨u, hpu, hu⟩ := List.infix_iff_prefix_suffix.mp hinfix
  have hne : u ≠ [] := by
    rintro rfl
    exact hp (List.prefix_nil.mp hpu)
  exact (h u ((List.mem_tails u s).mpr hu) hne).1 hpu

theorem clear_nil : Clear p [] := by
  intro u hu hne
  exact absurd (List.suffix_nil.mp ((List.mem_tails u []).mp hu)) hne

theorem Clear.append (hs : Clear p s) (ht : Clear p t) : Clear p (s ++ t) := by
  intro u hu hne
  have hu : u <:+ s ++ t := (List.mem_tails u (s ++ t)).mp hu
  rcases List.suffix_or_suffix_of_suffix hu (List.suffix_append s t) with hu | htu
  · exact ht u ((List.mem_tails u t).mpr hu) hne
  · obtain ⟨w, rfl⟩ := htu
    by_cases hwne : w = []
    · rw [hwne, List.nil_append] at hne ⊢
      exact ht t ((List.mem_tails t t).mpr List.suffix_rfl) hne
    · have hclear : Clear p w := hs.of_suffix (List.suffix_append_self_iff.mp hu)
      refine ⟨hclear.not_isPrefix hwne t, fun hp => ?_⟩
      have hwp : w <+: p := (List.prefix_append w t).trans hp
      exact (hclear w ((List.mem_tails w w).mpr List.suffix_rfl) hwne).2 hwp

/-- A word does not start in a text without its first character. -/
theorem clear_of_not_mem (hp : p.head? = some c) (hc : c ∉ s) : Clear p s := by
  obtain ⟨p', rfl⟩ := List.head?_eq_some_iff.mp hp
  intro u hu hne
  have hu : u <:+ s := (List.mem_tails u s).mp hu
  obtain ⟨d, u', rfl⟩ := List.exists_cons_of_ne_nil hne
  have hd : d ∈ s := hu.subset List.mem_cons_self
  rw [List.cons_prefix_cons, List.cons_prefix_cons]
  constructor
  · rintro ⟨rfl, -⟩
    exact hc hd
  · rintro ⟨rfl, -⟩
    exact hc hd

/-- A text that does not hold a word is clear of it up to a character that only ends the word. -/
theorem clear_concat_of_dropLast (h : ¬p <:+: s ++ [c]) (hc : c ∉ p.dropLast) :
    Clear p (s ++ [c]) := by
  intro u hu hne
  have hu : u <:+ s ++ [c] := (List.mem_tails u _).mp hu
  refine ⟨fun hp => h (hp.isInfix.trans hu.isInfix), fun hp => ?_⟩
  rcases List.suffix_concat_iff.mp hu with rfl | ⟨u', rfl, -⟩
  · exact absurd rfl hne
  · obtain ⟨v, rfl⟩ := hp
    rcases List.eq_nil_or_concat' v with rfl | ⟨v, d, rfl⟩
    · exact h (by simpa using hu.isInfix)
    · rw [← List.append_assoc, List.dropLast_concat] at hc
      exact hc (by simp)

/-- A text that does not hold a word is clear of it up to a character that is not in the word. -/
theorem clear_concat (h : ¬p <:+: s ++ [c]) (hc : c ∉ p) : Clear p (s ++ [c]) :=
  clear_concat_of_dropLast h fun hmem => hc (List.mem_of_mem_dropLast hmem)

theorem not_infix_of_not_mem (hp : c ∈ p) (hs : c ∉ s) : ¬p <:+: s := fun h => hs (h.subset hp)

theorem infix_of_infix_cons (hc : c ∉ p) (h : p <:+: c :: s) : p <:+: s := by
  rcases List.infix_cons_iff.mp h with h | h
  · cases p with
    | nil => exact List.nil_infix
    | cons d p =>
      obtain ⟨rfl, -⟩ := List.cons_prefix_cons.mp h
      exact absurd List.mem_cons_self hc
  · exact h

/-- A word without `c` stands on one side of it. -/
theorem infix_or_infix_of_append_cons (hc : c ∉ p) (h : p <:+: s ++ c :: t) :
    p <:+: s ∨ p <:+: t := by
  rcases List.infix_append_iff.mp h with h | h | ⟨u, v, rfl, hu, hv⟩
  · exact .inl h
  · exact .inr (infix_of_infix_cons hc h)
  · cases v with
    | nil => exact .inl (by simpa using hu.isInfix)
    | cons d v =>
      obtain ⟨rfl, -⟩ := List.cons_prefix_cons.mp hv
      exact absurd (List.mem_append_right u List.mem_cons_self) hc

theorem infix_of_infix_concat (hc : c ∉ p) (h : p <:+: s ++ [c]) : p <:+: s := by
  rcases List.infix_concat_iff.mp h with h | h
  · rcases List.suffix_concat_iff.mp h with rfl | ⟨u, rfl, -⟩
    · exact List.nil_infix
    · exact absurd (List.mem_append_right u List.mem_cons_self) hc
  · exact h

end

/-! ### Patterns for a word -/

section
variable {α : Type} {p : List Char} {pattern : List Char → Option α} {u v : List Char}

/-- The pattern matches where `p` stands, and there only. -/
def OpensWith (p : List Char) (pattern : List Char → Option α) : Prop :=
  ∀ s a, pattern s = some a → p <+: s

/-- The pattern matches one character before `p`, and there only. -/
def OpensBehind (p : List Char) (pattern : List Char → Option α) : Prop :=
  ∀ c s a, pattern (c :: s) = some a → p <+: s

/-- **A pattern passes over a text in which its word does not start.** -/
theorem OpensWith.firstMatch_append (h : OpensWith p pattern) (hu : Clear p u) (v : List Char) :
    firstMatch pattern (u ++ v) = firstMatch pattern v := by
  apply Text.firstMatch_append
  intro u' hu' hne
  cases hp : pattern (u' ++ v) with
  | none => rfl
  | some a => exact absurd (h _ a hp) ((hu.of_suffix hu').not_isPrefix hne v)

theorem OpensWith.firstMatch_eq_none (h : OpensWith p pattern) (hu : Clear p u) :
    firstMatch pattern u = none := by
  have hskip : firstMatch pattern (u ++ []) = firstMatch pattern [] := h.firstMatch_append hu []
  rwa [List.append_nil, firstMatch] at hskip

theorem OpensBehind.firstMatch_append (h : OpensBehind p pattern) (hu : Clear p u)
    (hv : ¬p <+: v) : firstMatch pattern (u ++ v) = firstMatch pattern v := by
  apply Text.firstMatch_append
  intro u' hu' hne
  obtain ⟨c, w, rfl⟩ := List.exists_cons_of_ne_nil hne
  cases hp : pattern (c :: w ++ v) with
  | none => rfl
  | some a =>
    have hbehind : p <+: w ++ v := h c _ a hp
    by_cases hw : w = []
    · rw [hw, List.nil_append] at hbehind
      exact absurd hbehind hv
    · have hclear : Clear p w := hu.of_suffix ((List.suffix_cons c w).trans hu')
      exact absurd hbehind (hclear.not_isPrefix hw v)

theorem OpensBehind.firstMatch_eq_none (h : OpensBehind p pattern) (hp : p ≠ [])
    (hu : Clear p u) : firstMatch pattern u = none := by
  have hskip : firstMatch pattern (u ++ []) = firstMatch pattern [] :=
    h.firstMatch_append hu (by simpa using hp)
  rwa [List.append_nil, firstMatch] at hskip

theorem OpensWith.firstMatch_eq_none_of_not_infix (h : OpensWith p pattern) (hu : ¬p <:+: u) :
    firstMatch pattern u = none := by
  refine Text.firstMatch_eq_none fun w hw _ => ?_
  cases hp : pattern w with
  | none => rfl
  | some a => exact absurd ((h w a hp).isInfix.trans hw.isInfix) hu

theorem OpensBehind.firstMatch_eq_none_of_not_infix (h : OpensBehind p pattern)
    (hu : ¬p <:+: u) : firstMatch pattern u = none := by
  refine Text.firstMatch_eq_none fun w hw hne => ?_
  obtain ⟨c, w, rfl⟩ := List.exists_cons_of_ne_nil hne
  cases hp : pattern (c :: w) with
  | none => rfl
  | some a =>
    exact absurd ((h c w a hp).isInfix.trans ((List.suffix_cons c w).trans hw).isInfix) hu

/-! ### Texts with more behind -/

/-- More behind a text does not matter if it does not go on with the word. -/
theorem after?_append {x : List Char} (hx : ∀ c ∈ x.head?, c ∉ p) (s : List Char) :
    after? p (s ++ x) = (after? p s).map (· ++ x) := by
  induction p generalizing s with
  | nil => rfl
  | cons d p ih =>
    cases s with
    | cons e s =>
      rw [List.cons_append, after?, after?,
        ih fun c hc hmem => hx c hc (List.mem_cons_of_mem d hmem)]
      split <;> rfl
    | nil =>
      cases x with
      | nil => rfl
      | cons c x =>
        have hc : d ≠ c := fun hd => hx c rfl (hd ▸ List.mem_cons_self)
        simp [after?, hc]

theorem quotedPrefix?_eq_none {s : List Char} (h : '"' ∉ s.tail) : quotedPrefix? s = none := by
  unfold quotedPrefix?
  split
  · next s =>
    have hspan : span (· != '"') s = (s, []) := by
      have := span_append (t := []) (bne_of_not_mem h) nofun
      rwa [List.append_nil] at this
    rw [hspan]
  · rfl

theorem quotedPrefix?_append {x : List Char} (hx : '"' ∉ x) (s : List Char) :
    quotedPrefix? (s ++ x) = (quotedPrefix? s).map (Prod.map id (· ++ x)) := by
  by_cases hmem : ∃ u v, s = '"' :: (u ++ '"' :: v) ∧ '"' ∉ u
  · obtain ⟨u, v, rfl, hu⟩ := hmem
    have htext : '"' :: (u ++ '"' :: v) ++ x = '"' :: (u ++ '"' :: (v ++ x)) := by simp
    rw [htext, quotedPrefix?_quoted hu, quotedPrefix?_quoted hu]
    rfl
  · cases s with
    | nil =>
      have htail : '"' ∉ x.tail := fun h => hx (List.mem_of_mem_tail h)
      rw [List.nil_append, quotedPrefix?_eq_none htail]
      rfl
    | cons d s =>
      by_cases hd : d = '"'
      · subst hd
        have hs : '"' ∉ s := by
          intro h
          obtain ⟨u, v, rfl, hu⟩ := List.eq_append_cons_of_mem h
          exact hmem ⟨u, v, rfl, hu⟩
        rw [List.cons_append, quotedPrefix?_eq_none (s := '"' :: s) hs,
          quotedPrefix?_eq_none (s := '"' :: (s ++ x)) (by simp [hs, hx])]
        rfl
      · have hnone (r : List Char) : quotedPrefix? (d :: r) = none := by
          unfold quotedPrefix?
          split
          · next heq => exact absurd (List.cons.inj heq).1 hd
          · rfl
        rw [List.cons_append, hnone, hnone]
        rfl

/-- A pattern finds nothing more if it matches the same with what stands behind, and nothing
there. -/
theorem firstMatch_append_right {x : List Char} (h : ∀ u ≠ [], pattern (u ++ x) = pattern u)
    (hx : firstMatch pattern x = none) (s : List Char) :
    firstMatch pattern (s ++ x) = firstMatch pattern s := by
  induction s with
  | nil => rw [List.nil_append, hx, firstMatch]
  | cons d s ih =>
    have hpattern := h (d :: s) (List.cons_ne_nil _ _)
    rw [List.cons_append] at hpattern ⊢
    rw [firstMatch, firstMatch, hpattern, ih]

end

/-! ### Marked words -/

section
variable {α : Type} {p : List Char} {pattern : List Char → Option α} {u : List Char}
  {words words' : List (List Char)}

/-- A word in which `p` does not start, unless at its head. -/
def IsMarked (p word : List Char) : Prop := ∃ c body, word = c :: body ∧ Clear p body

/-- Words with a space before each. -/
def spaced (words : List (List Char)) : List Char := words.flatMap (' ' :: ·)

/-- The match at the first of the words that has one, with the words behind it. -/
def firstAmong (pattern : List Char → Option α) : List (List Char) → Option α
  | [] => none
  | word :: words => (pattern (word ++ spaced words)).or (firstAmong pattern words)

/-- **A pattern is tried at the marked words** and nowhere else. -/
theorem firstMatch_words (h : OpensWith p pattern) (hspace : Clear p [' ']) (hu : Clear p u)
    (hwords : ∀ word ∈ words, IsMarked p word) :
    firstMatch pattern (u ++ spaced words) = firstAmong pattern words := by
  induction words generalizing u with
  | nil =>
    rw [h.firstMatch_append hu]
    rfl
  | cons word words ih =>
    obtain ⟨c, body, rfl, hbody⟩ := hwords word List.mem_cons_self
    have ih := ih hbody fun w hw => hwords w (List.mem_cons_of_mem _ hw)
    have htext : u ++ spaced ((c :: body) :: words) =
        (u ++ [' ']) ++ c :: (body ++ spaced words) := by
      simp [spaced]
    rw [htext, h.firstMatch_append (hu.append hspace), firstMatch, firstAmong, ih,
      List.cons_append]
    cases pattern (c :: (body ++ spaced words)) <;> rfl

/-- A pattern that looks at the character before its word, which has to be another than the first
one of the words. -/
theorem firstMatch_words_behind {behind : List Char → Option α} {mark : Char}
    (h : OpensWith p pattern)
    (hbehind : ∀ c s, behind (c :: s) = if c = mark then none else pattern s)
    (hp : p ≠ []) (hspace : Clear p [' ']) (hmark : mark ≠ ' ') (hu : Clear p u)
    (hwords : ∀ word ∈ words, word.head? = some mark ∧ IsMarked p word) :
    firstMatch behind (u ++ spaced words) = firstAmong pattern words := by
  have hopens : OpensBehind p behind := by
    intro c s a ha
    rw [hbehind] at ha
    split at ha
    · cases ha
    · exact h s a ha
  have hskip (u s : List Char) (hu : Clear p u) :
      firstMatch behind (u ++ ' ' :: s) = firstMatch behind (' ' :: s) :=
    hopens.firstMatch_append hu (hspace.not_isPrefix (List.cons_ne_nil _ _) s)
  induction words generalizing u with
  | nil =>
    rw [spaced, List.flatMap_nil, List.append_nil]
    exact hopens.firstMatch_eq_none hp hu
  | cons word words ih =>
    obtain ⟨hhead, c, body, rfl, hbody⟩ := hwords word List.mem_cons_self
    obtain rfl : c = mark := by simpa using hhead
    have ih := ih hbody fun w hw => hwords w (List.mem_cons_of_mem _ hw)
    have htext : u ++ spaced ((c :: body) :: words) = u ++ ' ' :: c :: (body ++ spaced words) := by
      simp [spaced]
    rw [htext, hskip _ _ hu, firstMatch, hbehind, if_neg hmark.symm, firstMatch, hbehind,
      if_pos rfl, ih, firstAmong, List.cons_append]
    cases pattern (c :: (body ++ spaced words)) <;> rfl

/-- Words that match with nothing behind them are passed over. -/
theorem firstAmong_append (h : ∀ word ∈ words, ∀ r, pattern (word ++ r) = none) :
    firstAmong pattern (words ++ words') = firstAmong pattern words' := by
  induction words with
  | nil => rfl
  | cons word words ih =>
    rw [List.cons_append, firstAmong, h word List.mem_cons_self, Option.none_or]
    exact ih fun w hw => h w (List.mem_cons_of_mem _ hw)

theorem firstAmong_eq_none (h : ∀ word ∈ words, ∀ r, pattern (word ++ r) = none) :
    firstAmong pattern words = none := by
  have hskip : firstAmong pattern (words ++ []) = firstAmong pattern [] := firstAmong_append h
  rwa [List.append_nil, firstAmong] at hskip

theorem firstAmong_cons {word : List Char} {a : α} (h : pattern (word ++ spaced words) = some a) :
    firstAmong pattern (word :: words) = some a := by
  rw [firstAmong, h, Option.some_or]

end

end Datamodel.Text
