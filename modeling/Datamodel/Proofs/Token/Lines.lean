import Datamodel.Proofs.Token.Lexemes

/-! On which line a token stands.

The tokens of a text come in the order of its lines, and each line can be found among them
(`exists_lineTokens_append`). A token behind a line break is the first of its line
(`exists_line_of_newline`), and where no bracket is open any other two tokens one behind the other
stand on one line (`exists_line_of_adjacent`). What is read up to a line break takes whole lines
(`exists_lines_of_stop`). -/

namespace Datamodel.Token

/-- The token of the line break behind a line, if it is one. -/
def lineBreak (line depth : Nat) : List Token := if depth = 0 then [⟨.newline, line⟩] else []

section
variable {line depth : Nat} {ks : List Kind} {kss : List (List Kind)}

theorem lineTokens_cons (h : kss ≠ []) : lineTokens line depth (ks :: kss) =
    onLine line ks ++ (lineBreak line (depthAfterAll depth ks) ++
      lineTokens (line + 1) (depthAfterAll depth ks) kss) := by
  obtain ⟨ks', kss', rfl⟩ := List.exists_cons_of_ne_nil h
  rw [lineTokens, lineBreak, List.append_assoc]
  exact List.cons_ne_nil _ _

/-- The tokens of the first line come first. -/
theorem exists_lineTokens_cons (line depth : Nat) (ks : List Kind) (kss : List (List Kind)) :
    ∃ after, lineTokens line depth (ks :: kss) = onLine line ks ++ after := by
  by_cases hnil : kss = []
  · exact ⟨[], by rw [hnil, lineTokens, List.append_nil]⟩
  · exact ⟨_, lineTokens_cons hnil⟩

theorem line_of_mem_onLine {t : Token} (h : t ∈ onLine line ks) : t.line = line := by
  obtain ⟨k, -, rfl⟩ := List.mem_map.mp h
  rfl

theorem eq_of_mem_lineBreak {t : Token} (h : t ∈ lineBreak line depth) : t = ⟨.newline, line⟩ := by
  unfold lineBreak at h
  split at h
  · exact List.mem_singleton.mp h
  · cases h

theorem line_of_mem_lineBreak {t : Token} (h : t ∈ lineBreak line depth) : t.line = line :=
  congrArg (·.line) (eq_of_mem_lineBreak h)

theorem kind_of_mem_lineBreak {t : Token} (h : t ∈ lineBreak line depth) : t.kind = .newline :=
  congrArg (·.kind) (eq_of_mem_lineBreak h)

/-- There is one line break at most behind a line, and no bracket is open at it. -/
theorem eq_nil_of_lineBreak {t : Token} {front back : List Token}
    (h : lineBreak line depth = front ++ t :: back) : depth = 0 ∧ back = [] := by
  unfold lineBreak at h
  split at h
  · next hdepth =>
    cases front with
    | nil => exact ⟨hdepth, (List.cons.inj h).2.symm⟩
    | cons q front => simp at h
  · simp at h

theorem le_line_of_mem_lineTokens {t : Token} (h : t ∈ lineTokens line depth kss) :
    line ≤ t.line := by
  induction kss generalizing line depth with
  | nil => cases h
  | cons ks kss ih =>
    by_cases hnil : kss = []
    · rw [hnil, lineTokens] at h
      exact Nat.le_of_eq (line_of_mem_onLine h).symm
    · rw [lineTokens_cons hnil, List.mem_append, List.mem_append] at h
      rcases h with h | h | h
      · exact Nat.le_of_eq (line_of_mem_onLine h).symm
      · exact Nat.le_of_eq (line_of_mem_lineBreak h).symm
      · exact Nat.le_of_succ_le (ih h)

theorem depthAfterAll_lineBreak (depth line depth' : Nat) (ts : List Token) :
    depthAfterAll depth ((lineBreak line depth' ++ ts).map (·.kind)) =
      depthAfterAll depth (ts.map (·.kind)) := by
  unfold lineBreak
  split <;> rfl

/-- The tokens at the head of a line stand in front of the rest of it. -/
theorem lineTokens_append (line depth : Nat) (ks ks' : List Kind) (kss : List (List Kind)) :
    lineTokens line depth ((ks ++ ks') :: kss) =
      onLine line ks ++ lineTokens line (depthAfterAll depth ks) (ks' :: kss) := by
  by_cases hnil : kss = []
  · rw [hnil, lineTokens, lineTokens, onLine, List.map_append]
    rfl
  · rw [lineTokens_cons hnil, lineTokens_cons hnil, depthAfterAll_append, onLine, List.map_append,
      List.append_assoc]
    rfl

/-- **The tokens of a line** and of those below it stand together. -/
theorem exists_lineTokens_append (above : List (List Kind)) (ks : List Kind)
    (below : List (List Kind)) (line depth : Nat) : ∃ before,
      lineTokens line depth (above ++ ks :: below) = before ++
        lineTokens (line + above.length) (depthAfterAll depth (before.map (·.kind)))
          (ks :: below) := by
  induction above generalizing line depth with
  | nil => exact ⟨[], rfl⟩
  | cons ks' above ih =>
    obtain ⟨before, heq⟩ := ih (line + 1) (depthAfterAll depth ks')
    have hline : line + 1 + above.length = line + (ks' :: above).length := by
      rw [List.length_cons]
      omega
    rw [hline] at heq
    refine ⟨onLine line ks' ++ (lineBreak line (depthAfterAll depth ks') ++ before), ?_⟩
    rw [List.map_append, depthAfterAll_append, map_kind_onLine, depthAfterAll_lineBreak,
      List.cons_append, lineTokens_cons (by simp), heq]
    simp only [List.append_assoc]

/-- The tokens of a text stand in the order of their lines. -/
theorem pairwise_lineTokens (line depth : Nat) (kss : List (List Kind)) :
    (lineTokens line depth kss).Pairwise (·.line ≤ ·.line) := by
  induction kss generalizing line depth with
  | nil => exact .nil
  | cons ks kss ih =>
    have hline : (onLine line ks).Pairwise (·.line ≤ ·.line) :=
      List.pairwise_map.mpr (List.pairwise_of_forall fun _ _ => Nat.le_refl _)
    by_cases hnil : kss = []
    · rw [hnil, lineTokens]
      exact hline
    · rw [lineTokens_cons hnil]
      have hbreak : (lineBreak line (depthAfterAll depth ks)).Pairwise (·.line ≤ ·.line) := by
        unfold lineBreak
        split <;> simp
      refine List.pairwise_append.mpr ⟨hline, List.pairwise_append.mpr ⟨hbreak, ih _ _, ?_⟩, ?_⟩
      · intro t ht u hu
        rw [line_of_mem_lineBreak ht]
        exact Nat.le_of_succ_le (le_line_of_mem_lineTokens hu)
      · intro t ht u hu
        rw [line_of_mem_onLine ht]
        rcases List.mem_append.mp hu with hu | hu
        · exact Nat.le_of_eq (line_of_mem_lineBreak hu).symm
        · exact Nat.le_of_succ_le (le_line_of_mem_lineTokens hu)

/-! ### Tokens one behind the other -/

variable {before ts : List Token} {p t : Token}

theorem line_of_lineTokens_eq_cons (h : lineTokens line 0 (ks :: kss) = t :: ts)
    (ht : t.kind ≠ .newline) : t.line = line := by
  cases ks with
  | cons k ks =>
    by_cases hnil : kss = []
    · rw [hnil, lineTokens] at h
      have hmem : t ∈ onLine line (k :: ks) := by simp [h]
      exact line_of_mem_onLine hmem
    · rw [lineTokens_cons hnil] at h
      cases h
      rfl
  | nil =>
    by_cases hnil : kss = []
    · rw [hnil] at h
      cases h
    · rw [lineTokens_cons hnil] at h
      cases h
      exact absurd rfl ht

/-- Where no bracket is open, what stands behind tokens of a line stands on that line, unless it is
a line break. -/
theorem prefix_of_lineTokens_eq {us : List Token}
    (h : lineTokens line 0 (ks :: kss) = us ++ t :: ts) (hus : us.map (·.kind) <+: ks)
    (hdepth : depthAfterAll 0 (us.map (·.kind)) = 0) (ht : t.kind ≠ .newline) :
    us.map (·.kind) ++ [t.kind] <+: ks := by
  obtain ⟨more, rfl⟩ := hus
  have hlength (more : List Kind) :
      (onLine line (us.map (·.kind) ++ more)).length = us.length + more.length := by
    simp [onLine]
  cases more with
  | nil =>
    rw [List.append_nil] at h
    by_cases hnil : kss = []
    · have hshort := congrArg List.length h
      rw [hnil, lineTokens, ← List.append_nil (us.map (·.kind)), hlength] at hshort
      simp at hshort
    · rw [lineTokens_cons hnil, hdepth, lineBreak, if_pos rfl] at h
      obtain ⟨-, hbreak⟩ := List.append_inj h (by simpa using hlength [])
      obtain rfl : _ = t := (List.cons.inj hbreak).1
      exact absurd rfl ht
  | cons k more =>
    obtain ⟨after, heq⟩ := exists_lineTokens_cons line 0 (us.map (·.kind) ++ k :: more) kss
    rw [heq, onLine, List.map_append, List.append_assoc] at h
    obtain ⟨-, hbehind⟩ := List.append_inj h (by simp)
    obtain rfl : _ = t := (List.cons.inj hbehind).1
    exact ⟨more, by simp⟩

/-- A token behind a line break is the first of its line. -/
theorem exists_line_of_newline (h : lineTokens line depth kss = before ++ p :: t :: ts)
    (hkss : ∀ ks ∈ kss, .newline ∉ ks) (hp : p.kind = .newline) (ht : t.kind ≠ .newline) :
    ∃ above ks below, kss = above ++ ks :: below ∧ t.line = line + above.length ∧
      t :: ts = lineTokens t.line 0 (ks :: below) := by
  induction kss generalizing line depth before with
  | nil => simp [lineTokens] at h
  | cons ks kss ih =>
    obtain ⟨hks, hkss⟩ := List.forall_mem_cons.mp hkss
    have hnot : p ∉ onLine line ks := by
      intro hmem
      obtain ⟨k, hk, rfl⟩ := List.mem_map.mp hmem
      exact hks (hp ▸ hk)
    by_cases hnil : kss = []
    · rw [hnil, lineTokens] at h
      exact absurd (by simp [h]) hnot
    rw [lineTokens_cons hnil] at h
    rcases exists_of_append_eq_append_cons h with ⟨c, hline, -⟩ | ⟨c, -, hbehind⟩
    · exact absurd (by simp [hline]) hnot
    rcases exists_of_append_eq_append_cons hbehind with ⟨d, hbreak, hmore⟩ | ⟨d, -, hmore⟩
    · -- The line break is that of this line, so `t` is the first token of the next.
      obtain ⟨hdepth, rfl⟩ := eq_nil_of_lineBreak hbreak
      obtain ⟨ks', kss', rfl⟩ := List.exists_cons_of_ne_nil hnil
      rw [hdepth, List.nil_append] at hmore
      have hline : t.line = line + 1 := line_of_lineTokens_eq_cons hmore.symm ht
      exact ⟨[ks], ks', kss', rfl, hline, by rw [hline, hmore]⟩
    · obtain ⟨above, ks', below, rfl, hline, heq⟩ := ih hmore hkss
      refine ⟨ks :: above, ks', below, rfl, ?_, heq⟩
      rw [hline, List.length_cons]
      omega

/-- Tokens of one line stand on it one behind the other. -/
theorem infix_of_onLine {after : List Token} (h : onLine line ks = before ++ p :: t :: after) :
    p.line = t.line ∧ [p.kind, t.kind] <:+: ks := by
  have hline : ∀ u ∈ before ++ p :: t :: after, u.line = line :=
    fun u hu => line_of_mem_onLine (h ▸ hu)
  refine ⟨by rw [hline p (by simp), hline t (by simp)], before.map (·.kind),
    after.map (·.kind), ?_⟩
  rw [← map_kind_onLine line ks, h]
  simp

/-- Where no bracket is open, a token and the one behind it stand on one line, unless one of them is
a line break. -/
theorem exists_line_of_adjacent (h : lineTokens line depth kss = before ++ p :: t :: ts)
    (hdepth : depthAfterAll depth ((before ++ [p]).map (·.kind)) = 0)
    (hp : p.kind ≠ .newline) (ht : t.kind ≠ .newline) :
    p.line = t.line ∧ ∃ ks ∈ kss, [p.kind, t.kind] <:+: ks := by
  induction kss generalizing line depth before with
  | nil => simp [lineTokens] at h
  | cons ks kss ih =>
    by_cases hnil : kss = []
    · rw [hnil, lineTokens] at h
      exact (infix_of_onLine h).imp_right fun hks => ⟨ks, List.mem_cons_self, hks⟩
    rw [lineTokens_cons hnil] at h
    rcases exists_of_append_eq_append_cons h with ⟨c, hline, hbehind⟩ | ⟨c, rfl, hbehind⟩
    · cases c with
      | nil =>
        -- `p` is the last token of its line, behind which no bracket is open.
        rw [← hline, map_kind_onLine] at hdepth
        rw [hdepth] at hbehind
        obtain rfl : t = _ := (List.cons.inj hbehind).1
        exact absurd rfl ht
      | cons q c =>
        obtain ⟨rfl, -⟩ := List.cons.inj hbehind
        exact (infix_of_onLine hline).imp_right fun hks => ⟨ks, List.mem_cons_self, hks⟩
    · rcases exists_of_append_eq_append_cons hbehind with ⟨d, hbreak, -⟩ | ⟨d, rfl, hmore⟩
      · have hmem : p ∈ lineBreak line (depthAfterAll depth ks) := by simp [hbreak]
        exact absurd (kind_of_mem_lineBreak hmem) hp
      · rw [List.append_assoc, List.append_assoc, List.map_append, depthAfterAll_append,
          map_kind_onLine, depthAfterAll_lineBreak] at hdepth
        obtain ⟨hline, ks', hks', hinfix⟩ := ih hmore hdepth
        exact ⟨hline, ks', List.mem_cons_of_mem ks hks', hinfix⟩

/-- The first line break behind a line stands at its end, or behind a later line if a bracket is
open there. -/
theorem exists_of_lineTokens_eq (h : lineTokens line depth (ks :: kss) = before ++ t :: ts)
    (hnil : kss ≠ []) (hks : t.kind ∉ ks) (hbefore : ∀ u ∈ before, u.kind ≠ .newline) :
    (t.kind = .newline ∧ before = onLine line ks ∧ ts = lineTokens (line + 1) 0 kss) ∨
      depthAfterAll depth ks ≠ 0 ∧ ∃ c, before = onLine line ks ++ c ∧
        lineTokens (line + 1) (depthAfterAll depth ks) kss = c ++ t :: ts := by
  rw [lineTokens_cons hnil] at h
  rcases exists_of_append_eq_append_cons h with ⟨c, hline, -⟩ | ⟨c, rfl, hbehind⟩
  · refine absurd ?_ hks
    rw [← map_kind_onLine line ks, hline]
    simp
  · by_cases hdepth : depthAfterAll depth ks = 0
    · rw [hdepth, lineBreak, if_pos rfl, List.singleton_append] at hbehind
      cases c with
      | nil =>
        obtain ⟨rfl, rfl⟩ := List.cons.inj hbehind
        exact .inl ⟨rfl, List.append_nil _, rfl⟩
      | cons u c =>
        obtain ⟨rfl, -⟩ := List.cons.inj hbehind
        exact absurd rfl (hbefore ⟨.newline, line⟩ (by simp))
    · rw [lineBreak, if_neg hdepth, List.nil_append] at hbehind
      exact .inr ⟨hdepth, c, rfl, hbehind⟩

/-- Where no bracket is open, the first line break or closing brace behind a line is the line break
at the end of that line or of a later one, in front of one that starts with a closing brace. -/
theorem exists_lines_of_stop {more below : List (List Kind)} {closing : List Kind}
    (h : lineTokens line depth (ks :: (more ++ closing :: below)) = before ++ t :: ts)
    (hlines : ∀ ks' ∈ ks :: more, .newline ∉ ks' ∧ .closeBrace ∉ ks')
    (hclosing : closing.head? = some .closeBrace)
    (hbefore : ∀ u ∈ before, u.kind ≠ .newline ∧ u.kind ≠ .closeBrace)
    (hdepth : depthAfterAll depth (before.map (·.kind)) = 0)
    (ht : t.kind = .newline ∨ t.kind = .closeBrace) :
    t.kind = .newline ∧ ∃ taken more', more = taken ++ more' ∧
      before.map (·.kind) = ks ++ taken.flatten ∧
      ts = lineTokens (line + taken.length + 1) 0 (more' ++ closing :: below) := by
  have hstop (ks : List Kind) (h : .newline ∉ ks ∧ .closeBrace ∉ ks) : t.kind ∉ ks := by
    rcases ht with ht | ht <;> rw [ht]
    · exact h.1
    · exact h.2
  induction more generalizing line depth ks before with
  | nil =>
    have hks := hstop ks (hlines ks List.mem_cons_self)
    rcases exists_of_lineTokens_eq h (by simp) hks fun u hu => (hbefore u hu).1 with
      ⟨hnewline, rfl, hts⟩ | ⟨hopen, c, rfl, hbehind⟩
    · exact ⟨hnewline, [], [], rfl, by simp, hts⟩
    · -- The closing brace comes next, and a bracket is still open.
      obtain ⟨closing, rfl⟩ := List.head?_eq_some_iff.mp hclosing
      obtain ⟨after, hafter⟩ := exists_lineTokens_cons (line + 1) (depthAfterAll depth ks)
        (.closeBrace :: closing) below
      rw [List.nil_append, hafter] at hbehind
      cases c with
      | nil =>
        rw [List.append_nil, map_kind_onLine] at hdepth
        exact absurd hdepth hopen
      | cons u c =>
        obtain ⟨rfl, -⟩ := List.cons.inj hbehind
        exact absurd rfl (hbefore ⟨.closeBrace, line + 1⟩ (by simp)).2
  | cons ks' more ih =>
    have hks := hstop ks (hlines ks List.mem_cons_self)
    rcases exists_of_lineTokens_eq h (by simp) hks fun u hu => (hbefore u hu).1 with
      ⟨hnewline, rfl, hts⟩ | ⟨hopen, c, rfl, hbehind⟩
    · exact ⟨hnewline, [], ks' :: more, rfl, by simp, hts⟩
    · rw [List.map_append, depthAfterAll_append, map_kind_onLine] at hdepth
      obtain ⟨hnewline, taken, more', rfl, hkinds, hts⟩ :=
        ih hbehind (List.forall_mem_of_forall_mem_cons hlines)
          (fun u hu => hbefore u (List.mem_append_right _ hu)) hdepth
      refine ⟨hnewline, ks' :: taken, more', rfl, ?_, ?_⟩
      · rw [List.map_append, map_kind_onLine, hkinds, List.flatten_cons]
      · rw [hts, List.length_cons]
        congr 1
        omega

end

end Datamodel.Token
