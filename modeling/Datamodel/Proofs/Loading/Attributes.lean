import Datamodel.Proofs.Loading.Placement
import Datamodel.Proofs.Spacing.Expressions
import Datamodel.Proofs.Token.Lines

/-! The attributes of a model and the lines that they stand on.

A body that ends at the head of a line has each attribute at the head of a line of its own
(`ModelItem.readOn_of_readBody`). Where the attribute ends on that line, it is read from the line
alone (`Attribute.ReadOn.exists_alone`). -/

namespace Datamodel

open Token (Answers EndsItem IsLine Kind Reading TookItem depthAfterAll exists_lines_of_stop
  lineBreak lineTokens lineTokens_cons onLine)

/-! ### Items and their lines -/

/-- The line starts with the marker of an attribute of a block. -/
def Token.Kind.isAttribute (ks : List Kind) : Bool := ks.head? == some .blockMarker

/-- The attribute is read from behind the marker at the head of a line. -/
def Attribute.ReadOn (ks : List Kind) (a : Attribute) : Prop :=
  ∃ last line after r, Attribute.readLine last
    (onLine line ks.tail ++ (lineBreak line (depthAfterAll 0 ks) ++ after)) = .ok r ∧ r.value = a

section
variable {line : Nat} {ks : List Kind} {taken more below : List (List Kind)} {closing : List Kind}
  {used mid rest : List Token}

/-- An item that starts a line of a body takes whole lines of it. -/
theorem Token.EndsItem.exists_lines (h : EndsItem mid rest) (hrest : rest ≠ [])
    (hts : lineTokens line 0 (ks :: (more ++ closing :: below)) = used ++ mid)
    (hbalanced : Balanced (used.map (·.kind))) (hused : ∀ t ∈ used, t.kind.isInline = true)
    (hlines : ∀ ks' ∈ ks :: more, .newline ∉ ks' ∧ .closeBrace ∉ ks')
    (hclosing : closing.head? = some .closeBrace) :
    ∃ taken more', more = taken ++ more' ∧ used.map (·.kind) = ks ++ taken.flatten ∧
      rest = lineTokens (line + taken.length + 1) 0 (more' ++ closing :: below) := by
  have hinline : ∀ t ∈ used, t.kind ≠ .newline ∧ t.kind ≠ .closeBrace := by
    intro t ht
    have hkind := hused t ht
    constructor <;> intro hk <;> rw [hk] at hkind <;> cases hkind
  rcases h with ⟨n, rfl⟩ | ⟨rfl, hclose⟩
  · obtain ⟨-, hmore⟩ := exists_lines_of_stop hts hlines hclosing hinline (hbalanced 0) (.inl rfl)
    exact hmore
  · obtain ⟨t, ts, rfl⟩ := List.exists_cons_of_ne_nil hrest
    obtain ⟨hnewline, -⟩ := exists_lines_of_stop hts hlines hclosing hinline (hbalanced 0)
      (.inr (hclose t rfl))
    rw [hclose t rfl] at hnewline
    cases hnewline

/-- The lines within a declaration start no attribute of a block. -/
theorem Token.Kind.filter_isAttribute (h : ∀ k ∈ taken.flatten, k.isDeclared = true) :
    taken.filter isAttribute = [] := by
  refine List.filter_eq_nil_iff.mpr fun ks hks hattr => ?_
  have hhead : ks.head? = some .blockMarker := by simpa [isAttribute] using hattr
  have hmarker := h .blockMarker (List.mem_flatten_of_mem hks (List.mem_of_head? hhead))
  cases hmarker

/-- The first token of a body that ends at the head of a line: it is the closing brace, the end of
an empty line, or the first token of a line. -/
theorem Token.cases_lineTokens {t : Token} {body : List (List Kind)}
    (h : t :: rest = lineTokens line 0 (body ++ closing :: below))
    (hclosing : closing.head? = some .closeBrace) :
    (body = [] ∧ t.kind = .closeBrace) ∨
    (∃ more, body = [] :: more ∧ t.kind = .newline ∧
      rest = lineTokens (line + 1) 0 (more ++ closing :: below)) ∨
    ∃ ks more, body = (t.kind :: ks) :: more ∧ rest = onLine line ks ++
      (lineBreak line (depthAfterAll 0 (t.kind :: ks)) ++
        lineTokens (line + 1) (depthAfterAll 0 (t.kind :: ks)) (more ++ closing :: below)) := by
  cases body with
  | nil =>
    obtain ⟨closing, rfl⟩ := List.head?_eq_some_iff.mp hclosing
    obtain ⟨after, hafter⟩ := exists_lineTokens_cons line 0 (.closeBrace :: closing) below
    rw [List.nil_append, hafter] at h
    cases h
    exact .inl ⟨rfl, rfl⟩
  | cons ks more =>
    rw [List.cons_append, lineTokens_cons (by simp)] at h
    cases ks with
    | nil =>
      cases h
      exact .inr (.inl ⟨more, rfl, rfl, rfl⟩)
    | cons k ks =>
      cases h
      exact .inr (.inr ⟨ks, more, rfl, rfl⟩)

theorem Block.ne_nil_of_readBody {α : Type} {item : ItemReader α} {last : Nat} {name : String}
    {docs : List String} {ts : List Token} {r : Reading (List α) ts}
    (h : readBody last name (item last) docs ts = .ok r) : ts ≠ [] := by
  rintro rfl
  rw [readBody] at h
  cases h

/-- An item that starts a line of a body takes whole lines of it. An attribute is on the first of
them, and a field takes no line that starts an attribute. -/
theorem ModelItem.exists_lines_of_read {last : Nat} {docs : List String} {t : Token}
    {r : Reading (ModelItem × List String) (t :: rest)} (h : ModelItem.read last docs _ = .ok r)
    (hr : r.rest ≠ [])
    (hts : t :: rest = lineTokens line 0 ((t.kind :: ks) :: (more ++ closing :: below)))
    (hlines : ∀ ks' ∈ (t.kind :: ks) :: more, .newline ∉ ks' ∧ .closeBrace ∉ ks')
    (hclosing : closing.head? = some .closeBrace) :
    ∃ taken more', more = taken ++ more' ∧
      r.rest = lineTokens (line + taken.length + 1) 0 (more' ++ closing :: below) ∧
      List.Forall₂ Attribute.ReadOn (((t.kind :: ks) :: taken).filter Kind.isAttribute)
        r.value.1.attr?.toList := by
  rcases ModelItem.cases_read h with
    ⟨n, ts, a, heq, ha, hstop, hvalue⟩ | ⟨f, hf, hstop, hvalue⟩
  · obtain ⟨rfl, rfl⟩ := List.cons.inj heq
    obtain ⟨mid, ⟨used, hused, hbalanced, hdeclared⟩, hends⟩ := Attribute.tookItem_of_readLine ha
    rw [← hstop] at hends
    have hsplit : lineTokens line 0 ((.blockMarker :: ks) :: (more ++ closing :: below)) =
        (⟨.blockMarker, n⟩ :: used) ++ mid :=
      hts.symm.trans (congrArg (⟨.blockMarker, n⟩ :: ·) hused)
    obtain ⟨taken, more', rfl, hkinds, hrest⟩ := hends.exists_lines hr hsplit
      (hbalanced.cons fun _ => rfl) (List.forall_mem_cons.mpr
        ⟨rfl, fun t ht => Kind.isInline_of_isDeclared (hdeclared t ht)⟩) hlines hclosing
    refine ⟨taken, more', rfl, hrest, ?_⟩
    have htaken : ∀ k ∈ taken.flatten, k.isDeclared = true := by
      intro k hk
      have hmem : k ∈ used.map (·.kind) := by
        rw [(List.cons.inj hkinds).2]
        exact List.mem_append_right ks hk
      obtain ⟨t, ht, rfl⟩ := List.mem_map.mp hmem
      exact hdeclared t ht
    rw [List.filter_cons_of_pos rfl, Kind.filter_isAttribute htaken, hvalue]
    rw [lineTokens_cons (by simp)] at hts
    obtain rfl := (List.cons.inj hts).2
    exact .cons ⟨last, line, _, a, ha, rfl⟩ .nil
  · obtain ⟨mid, ⟨used, hused, hbalanced, hdeclared⟩, hends⟩ := FieldDecl.tookItem_of_read hf
    rw [← hstop] at hends
    obtain ⟨taken, more', rfl, hkinds, hrest⟩ := hends.exists_lines hr (hts.symm.trans hused)
      hbalanced (fun t ht => Kind.isInline_of_isDeclared (hdeclared t ht)) hlines hclosing
    refine ⟨taken, more', rfl, hrest, ?_⟩
    have hdecl : ∀ k ∈ ((t.kind :: ks) :: taken).flatten, k.isDeclared = true := by
      rw [List.flatten_cons, ← hkinds]
      exact List.forall_mem_map.mpr hdeclared
    rw [Kind.filter_isAttribute hdecl, hvalue]
    exact .nil

/-- **The attributes of a model** stand each at the head of a line, in the order of the lines. -/
theorem ModelItem.readOn_of_readBody {last : Nat} {name : String} {docs : List String}
    {ts : List Token} {r : Reading (List ModelItem) ts} {body : List (List Kind)}
    (h : Block.readBody last name (ModelItem.read last) docs ts = .ok r)
    (hts : ts = lineTokens line 0 (body ++ closing :: below))
    (hbody : ∀ ks ∈ body, IsLine ks ∧ .closeBrace ∉ ks)
    (hclosing : closing.head? = some .closeBrace) :
    List.Forall₂ Attribute.ReadOn (body.filter Kind.isAttribute) (r.value.filterMap attr?) := by
  fun_induction Block.readBody last name (ModelItem.read last) docs ts generalizing line body with
  | case1 => cases h
  | case2 docs n rest =>
    cases h
    rcases Token.cases_lineTokens hts hclosing with
      ⟨rfl, -⟩ | ⟨more, -, hkind, -⟩ | ⟨ks, more, rfl, -⟩
    · exact .nil
    · cases hkind
    · exact absurd List.mem_cons_self (hbody _ List.mem_cons_self).2
  | case3 docs n rest ih =>
    obtain ⟨r, hr, rfl⟩ := exists_of_map h
    rcases Token.cases_lineTokens hts hclosing with
      ⟨-, hkind⟩ | ⟨more, rfl, -, hrest⟩ | ⟨ks, more, rfl, -⟩
    · cases hkind
    · have hread := ih hr hrest (List.forall_mem_cons.mp hbody).2
      exact hread
    · exact absurd List.mem_cons_self (hbody _ List.mem_cons_self).1.newline
  | case4 docs text n rest ih =>
    obtain ⟨r, hr, rfl⟩ := exists_of_map h
    rcases Token.cases_lineTokens hts hclosing with
      ⟨-, hkind⟩ | ⟨more, -, hkind, -⟩ | ⟨ks, more, rfl, hrest⟩
    · cases hkind
    · cases hkind
    · -- Documentation ends its line, which reads on like an empty one.
      obtain rfl := (hbody _ List.mem_cons_self).1.doc [] text ks rfl
      have hempty : rest = lineTokens line 0 (([] :: more) ++ closing :: below) := by
        rw [hrest, List.cons_append, lineTokens_cons (by simp)]
        rfl
      have hread := ih hr hempty (List.forall_mem_cons.mpr
        ⟨⟨Token.isLine_nil, List.not_mem_nil⟩, (List.forall_mem_cons.mp hbody).2⟩)
      exact hread
  | case5 => cases h
  | case6 docs t rest hclose hnewline hdoc first hfirst _ ih =>
    obtain ⟨r, hr, rfl⟩ := exists_of_map h
    rcases Token.cases_lineTokens hts hclosing with
      ⟨-, hkind⟩ | ⟨more, -, hkind, -⟩ | ⟨ks, more, rfl, hrest⟩
    · exact absurd (by rw [← hkind]) (hclose t.line)
    · exact absurd (by rw [← hkind]) (hnewline t.line)
    · obtain ⟨taken, more', rfl, hrest', hitem⟩ := ModelItem.exists_lines_of_read hfirst
        (Block.ne_nil_of_readBody hr) hts (fun ks' hks' => (hbody ks' hks').imp_left (·.newline))
        hclosing
      have hread := ih hr hrest' fun ks' hks' => hbody ks' (by simp [hks'])
      show List.Forall₂ _ _ ((first.value.1 :: r.value).filterMap attr?)
      rw [filterMap_cons_toList, ← List.cons_append, List.filter_append]
      exact List.rel_append hitem hread

/-! ### A line alone -/

/-- Tokens of the same kinds up to the first line break. -/
def Token.SameLine (ts us : List Token) : Prop :=
  (ts.map (·.kind)).takeWhile (· != .newline) = (us.map (·.kind)).takeWhile (· != .newline)

theorem Token.SameLine.parallel : Token.Parallel SameLine where
  symm h := Eq.symm h
  exists_cons := by
    intro k n ts us h hk
    cases us with
    | nil => simp [SameLine, hk] at h
    | cons u us =>
      obtain ⟨k', m⟩ := u
      by_cases hk' : k' = .newline
      · simp [SameLine, hk, hk'] at h
      · simp only [SameLine, List.map_cons, List.takeWhile_cons, bne_iff_ne, ne_eq, hk, hk',
          not_false_eq_true, if_true, List.cons.injEq] at h
        obtain ⟨rfl, hmore⟩ := h
        exact ⟨m, us, rfl, hmore⟩

theorem Token.sameLine_onLine {line' : Nat} {after : List Token} (hks : .newline ∉ ks)
    (hafter : ∀ t ∈ after.head?, t.kind = .newline) :
    SameLine (onLine line ks ++ after) (onLine line' ks) := by
  have hne : ∀ k ∈ ks, (k != .newline) = true := fun k hk =>
    bne_iff_ne.mpr fun heq => hks (by rwa [← heq])
  have hstop : ∀ k ∈ (after.map (·.kind)).head?, (k != .newline) = false := by
    rw [List.head?_map]
    intro k hk
    obtain ⟨t, ht, rfl⟩ := Option.map_eq_some_iff.mp hk
    rw [hafter t ht]
    rfl
  rw [SameLine, List.map_append, map_kind_onLine, map_kind_onLine,
    Text.takeWhile_append_of_stop hne hstop, List.takeWhile_eq_self_iff.mpr hne]

variable {a : Attribute}

/-- An attribute of a block starts with its name, behind the marker. -/
theorem Attribute.ReadOn.exists_kinds (h : a.ReadOn (.blockMarker :: ks)) :
    ∃ ks', ks = .name a.name :: ks' := by
  obtain ⟨last, line, after, r, hr, rfl⟩ := h
  obtain ⟨attr, hattr, -, hvalue⟩ := Attribute.cases_readLine hr
  obtain ⟨n, ts, htokens, -⟩ := Attribute.took_of_read hattr
  rw [hvalue]
  cases ks with
  | nil => cases htokens
  | cons k ks => exact ⟨ks, congrArg (fun t : Token => t.kind :: ks) (List.cons.inj htokens).1⟩

/-- An attribute that ends on its line is read from the line alone. -/
theorem Attribute.ReadOn.exists_alone (h : a.ReadOn ks) (hks : .newline ∉ ks)
    (hclose : .closeBrace ∉ ks) (hdepth : depthAfterAll 0 ks = 0) (last line : Nat) :
    ∃ a', Answers (Attribute.read last (onLine line ks.tail)) a' [] ∧ Agree unlined a a' := by
  obtain ⟨last', line', after, r, hr, rfl⟩ := h
  obtain ⟨attr, hattr, hends, hattribute⟩ := Attribute.cases_readLine hr
  have hsame : Token.SameLine
      (onLine line' ks.tail ++ (lineBreak line' (depthAfterAll 0 ks) ++ after))
      (onLine line ks.tail) :=
    Token.sameLine_onLine (fun hmem => hks (List.mem_of_mem_tail hmem))
      (by rw [hdepth]; rintro _ ⟨⟩; rfl)
  obtain ⟨⟨value, rest, hshorter⟩, hs, hvalue, hrest⟩ :=
    Attribute.follows_read Token.SameLine.parallel last' last hsame attr hattr
  obtain rfl : rest = [] := by
    obtain ⟨used, hused, -, -⟩ := Attribute.took_of_read_marked hs
    cases rest with
    | nil => rfl
    | cons u us =>
      -- The token left would be one of the line, which the end of the item is not.
      have hmem : u.kind ∈ ks := by
        have hkinds := congrArg (List.map (·.kind)) hused
        rw [Token.map_kind_onLine] at hkinds
        exact List.mem_of_mem_tail (by rw [hkinds]; simp)
      have hu : u.kind ≠ .newline := fun hu => hks (hu ▸ hmem)
      obtain ⟨m, ts, heq, -⟩ := Token.SameLine.parallel.exists_cons
        (Token.SameLine.parallel.symm hrest) hu
      rcases hends with ⟨n, hnewline⟩ | ⟨-, hbrace⟩
      · have hkind := (List.cons.inj (heq.symm.trans hnewline)).1
        exact absurd (congrArg Token.kind hkind) hu
      · have hkind : u.kind = .closeBrace := hbrace ⟨u.kind, m⟩ (by rw [heq]; rfl)
        exact absurd (hkind ▸ hmem) hclose
  rw [hattribute]
  exact ⟨value, ⟨hshorter, hs⟩, hvalue⟩

/-- An attribute with arguments that ends on its line ends it with a parenthesis. -/
theorem Attribute.ReadOn.exists_concat {name : String} {args : List Kind}
    (h : a.ReadOn ks) (hks : .newline ∉ ks) (hclose : .closeBrace ∉ ks)
    (hdepth : depthAfterAll 0 ks = 0)
    (hargs : ks = .blockMarker :: .name name :: .openParen :: args) :
    ∃ ks', ks = ks' ++ [.closeParen] := by
  obtain ⟨a', ⟨hshorter, hread⟩, -⟩ := h.exists_alone hks hclose hdepth 1 1
  subst hargs
  change Attribute.read 1 (⟨.name name, 1⟩ :: ⟨.openParen, 1⟩ :: onLine 1 args) = _ at hread
  obtain ⟨_, _, ⟨htokens, -⟩ | ⟨n, rest, read, htokens, hread, hrest, -⟩⟩ :=
    Attribute.cases_read hread
  · cases htokens
  · obtain ⟨m, used, hused, -, -⟩ := Argument.took_of_readAll hread
    rw [← hrest] at hused
    have hline : onLine 1 args = rest := (List.cons.inj (List.cons.inj htokens).2).2
    have hkinds := congrArg (List.map (·.kind)) (hline.trans hused)
    rw [Token.map_kind_onLine, List.map_append] at hkinds
    exact ⟨.blockMarker :: .name name :: .openParen :: used.map (·.kind), by rw [hkinds]; rfl⟩

end

end Datamodel
