import Datamodel.Proofs.Loading.Declared
import Datamodel.Proofs.Loading.Placement
import Datamodel.Proofs.Notes.Lexed
import Datamodel.Proofs.Notes.Pieces
import Datamodel.Proofs.Token.Lines
import Mathlib.Data.List.Nodup

/-! A field declaration and the lines around it.

A declaration on a line of its own, below the line of its model's header, is read from the tokens
of that line on (`Layout.exists_read`). No line between the two starts with a closing brace
(`Layout.closes_between`), and no other line opens the model (`Layout.not_opens`). -/

namespace Datamodel

open Token (Balanced Kind Leads Lexeme depthAfterAll exists_line_of_adjacent
  exists_line_of_newline exists_lineTokens_append exists_lineTokens_cons isLine_kinds lexemes
  lineTokens onLine pairwise_lineTokens)
open Token.Lexeme (kinds text)

/-! ### Lines that start with a closing brace -/

namespace Token

/-- A line with its lexemes. -/
structure LexedLine (row : List Char) (ls : List Lexeme) : Prop where
  lexemes : Token.lexemes row = some ls
  newline : '\n' ∉ row

/-- Whether a line starts with a closing brace. -/
def Lexeme.closes (ls : List Lexeme) : Bool := (text ls).head? == some '}'

/-- A line without a closing brace at its head. -/
def Lexeme.pastClosing (ls : List Lexeme) : List Lexeme := if closes ls then ls.tail else ls

namespace LexedLine
variable {row r : List Char} {ls : List Lexeme}

theorem closes_eq (h : LexedLine row ls) : Lexeme.closes ls = (row.head? == some '}') := by
  rw [Lexeme.closes, text_of_lexemes h.lexemes]

theorem exists_of_closing (h : LexedLine ('}' :: r) ls) :
    ∃ ls', ls = ⟨['}'], some .closeBrace⟩ :: ls' ∧ LexedLine r ls' := by
  have hbrace : Written ['}'] (some .closeBrace) r := .char rfl
  have hlexemes := h.lexemes
  rw [← List.singleton_append, lexemes_append hbrace] at hlexemes
  obtain ⟨ls', hls', rfl⟩ := Option.map_eq_some_iff.mp hlexemes
  exact ⟨ls', rfl, hls', fun hmem => h.newline (List.mem_cons_of_mem _ hmem)⟩

theorem pastClosing (h : LexedLine row ls) :
    LexedLine (Notes.pastClosing row) (Lexeme.pastClosing ls) := by
  by_cases hrow : row.head? = some '}'
  · rw [Notes.eq_cons_of_head hrow] at h
    obtain ⟨ls', rfl, hls'⟩ := h.exists_of_closing
    exact hls'
  · rw [Notes.pastClosing_of_head hrow, Lexeme.pastClosing,
      if_neg (by simpa [h.closes_eq] using hrow)]
    exact h

theorem kinds_of_closes (h : LexedLine row ls) (hcloses : Lexeme.closes ls = true) :
    kinds ls = .closeBrace :: kinds (Lexeme.pastClosing ls) := by
  have hrow : row.head? = some '}' := by simpa [h.closes_eq] using hcloses
  rw [Notes.eq_cons_of_head hrow] at h
  obtain ⟨ls', rfl, -⟩ := h.exists_of_closing
  rfl

/-- A closing brace at its head aside, a line has the tokens of what is behind it. -/
theorem exists_kinds (h : LexedLine row ls) :
    ∃ c, kinds ls = c ++ kinds (Lexeme.pastClosing ls) := by
  by_cases hcloses : Lexeme.closes ls = true
  · exact ⟨[.closeBrace], h.kinds_of_closes hcloses⟩
  · exact ⟨[], by rw [Lexeme.pastClosing, if_neg hcloses, List.nil_append]⟩

end LexedLine

/-! ### The tokens of a text -/

theorem lexemes_mark (s : List Char) : lexemes ('\uFEFF' :: s) = none := by
  have herror : ∀ line, ∃ e, lexeme line '\uFEFF' s = .error e := fun line =>
    ⟨_, by unfold lexeme; rfl⟩
  rw [lexemes]
  split
  · rfl
  · next heq =>
    obtain ⟨e, he⟩ := herror 1
    rw [he] at heq
    cases heq

/-- The tokens of a text whose lines are read each on its own. -/
theorem tokenize_joinLines {rows : List (List Char)} {lines : List (List Lexeme)}
    (h : List.Forall₂ LexedLine rows lines) :
    tokenize (String.ofList (Text.joinLines rows)) = .ok (lineTokens 1 0 (lines.map kinds)) := by
  have hmark : Text.dropMark (Text.joinLines rows) = Text.joinLines rows := by
    cases h with
    | nil => rfl
    | @cons row ls rows lines hrow _ =>
      have hhead : row.head? ≠ some '\uFEFF' := by
        intro hhead
        obtain ⟨s, rfl⟩ := List.head?_eq_some_iff.mp hhead
        have hlexemes := hrow.lexemes
        rw [lexemes_mark] at hlexemes
        cases hlexemes
      have hjoin : (Text.joinLines (row :: rows)).head? ≠ some '\uFEFF' :=
        Text.head?_joinLines hhead (by decide)
      unfold Text.dropMark
      split
      · next heq =>
        rw [heq] at hjoin
        exact absurd rfl hjoin
      · rfl
  rw [tokenize, String.toList_ofList, hmark]
  have hn : ∀ row ∈ rows, '\n' ∉ row := by
    intro row hrow
    obtain ⟨ls, -, hline⟩ := exists_of_forall₂_left h row hrow
    exact hline.newline
  exact scan_joinLines (h.imp fun _ _ hline => hline.lexemes) hn 1 0

end Token

open Token (LexedLine)

/-! ### Tokens on lines -/

section
variable {last line n n' : Nat} {kss : List (List Kind)} {front lead ts : List Token} {t : Token}
  {keyword name : String}

theorem Token.Balanced.concat {t : Token} (h : Balanced (front.map (·.kind)))
    (ht : ∀ depth, Kind.depthAfter depth (some t.kind) = depth) :
    Balanced ((front ++ [t]).map (·.kind)) := by
  rw [List.map_append]
  exact h.append (Balanced.nil.cons ht)

/-- The header of a block opens no bracket. -/
theorem Token.Balanced.header (h : Balanced (front.map (·.kind))) : Balanced ((front ++
    ([⟨.name keyword, line⟩, ⟨.name name, n⟩, ⟨.openBrace, n'⟩] : List Token)).map (·.kind)) := by
  rw [List.map_append]
  exact h.append (((Balanced.nil.cons fun _ => rfl).cons fun _ => rfl).cons fun _ => rfl)

/-- The header of a block stands on one line, and so does a token behind its brace, if that is no
line break. -/
theorem line_of_header (h : lineTokens 1 0 kss = front ++
      ⟨.name keyword, line⟩ :: ⟨.name name, n⟩ :: ⟨.openBrace, n'⟩ :: t :: ts)
    (hfront : Balanced (front.map (·.kind))) (ht : t.kind ≠ .newline) : t.line = line := by
  have hkeyword := hfront.concat (t := ⟨.name keyword, line⟩) fun _ => rfl
  have hname := hkeyword.concat (t := ⟨.name name, n⟩) fun _ => rfl
  have hbrace := hname.concat (t := ⟨.openBrace, n'⟩) fun _ => rfl
  have h' := h.trans (List.append_cons _ _ _)
  have h'' := h'.trans (List.append_cons _ _ _)
  obtain ⟨hline, -⟩ := exists_line_of_adjacent h (hkeyword 0) nofun nofun
  obtain ⟨hline', -⟩ := exists_line_of_adjacent h' (hname 0) nofun nofun
  obtain ⟨hline'', -⟩ := exists_line_of_adjacent h'' (hbrace 0) nofun ht
  exact (hline.trans (hline'.trans hline'')).symm

/-- An item of a block that does not follow the opening brace is the first of its line. -/
theorem exists_line_of_leads (h : lineTokens 1 0 kss = front ++ (lead ++ t :: ts))
    (hkss : ∀ ks ∈ kss, Token.IsLine ks) (hfront : Balanced (front.map (·.kind)))
    (hlead : Leads lead) (hne : lead ≠ []) (ht : t.kind ≠ .newline) :
    ∃ above ks below, kss = above ++ ks :: below ∧ t.line = 1 + above.length ∧
      t :: ts = lineTokens t.line 0 (ks :: below) := by
  obtain ⟨lead, q, rfl⟩ := (List.eq_nil_or_concat' lead).resolve_left hne
  have hsplit : lineTokens 1 0 kss = (front ++ lead) ++ q :: t :: ts := h.trans (by simp)
  rcases hlead.ends q (by simp) with hnewline | ⟨d, hdoc⟩
  · exact exists_line_of_newline hsplit (fun ks hks => (hkss ks hks).newline) hnewline ht
  · -- Documentation is the last token of its line.
    have hdepth : Balanced ((front ++ lead ++ [q]).map (·.kind)) := by
      rw [List.append_assoc, List.map_append]
      exact hfront.append hlead.balanced
    obtain ⟨-, ks, hks, u, v, heq⟩ := exists_line_of_adjacent hsplit (hdepth 0) (by simp [hdoc]) ht
    rw [hdoc, List.append_assoc] at heq
    exact absurd ((hkss ks hks).doc u d (t.kind :: v) heq.symm) (List.cons_ne_nil _ _)

end

/-- The first line of a text does not start with a closing brace. -/
theorem closes_head {rows : List (List Char)} {lines : List (List Lexeme)} {last : Nat}
    {blocks : List Block} (hrows : List.Forall₂ LexedLine rows lines)
    (hblocks : BlocksIn last (lineTokens 1 0 (lines.map kinds)) blocks) :
    ∀ ls ∈ lines.head?, Lexeme.closes ls = false := by
  intro ls hls
  obtain ⟨below, rfl⟩ := List.head?_eq_some_iff.mp hls
  obtain ⟨row, -, hrow⟩ := exists_of_forall₂_right hrows ls List.mem_cons_self
  rw [Bool.eq_false_iff]
  intro hcloses
  obtain ⟨after, htokens⟩ := exists_lineTokens_cons 1 0 (kinds ls) (below.map kinds)
  refine hblocks.head?_ne_closeBrace ⟨.closeBrace, 1⟩ ?_ rfl
  rw [List.map_cons, htokens, hrow.kinds_of_closes hcloses]
  rfl

/-! ### The declaration -/

theorem FieldDecl.eq_of_read {last : Nat} {docs : List String} {ts : List Token}
    {r : Token.Reading FieldDecl ts} (h : FieldDecl.read last docs ts = .ok r) :
    ∃ type n rest, ts = ⟨.name r.value.name, r.value.line⟩ :: ⟨.name type, n⟩ :: rest := by
  obtain ⟨name, line, rest, type, attributes, heq, htype, -, -, hvalue⟩ :=
    FieldDecl.cases_read h
  obtain ⟨typeName, n, rest', hrest, -⟩ := TypeRef.took_of_read htype
  rw [hvalue]
  exact ⟨typeName, n, rest', heq.trans (congrArg (_ :: ·) hrest)⟩

/-- The lines of a text around that of a field declaration. -/
structure Layout where
  above : List (List Lexeme)
  header : List Lexeme
  between : List (List Lexeme)
  line : List Lexeme
  below : List (List Lexeme)

namespace Layout

def lines (p : Layout) : List (List Lexeme) :=
  p.above ++ p.header :: (p.between ++ p.line :: p.below)

/-- The tokens of the lines, where each is read on its own. -/
def tokens (p : Layout) : List Token := lineTokens 1 0 (p.lines.map kinds)

/-- The model `b` starts on the line of the header, and its declaration `f` on that of the
field. -/
structure Places (p : Layout) (b : ModelBlock) (f : FieldDecl) : Prop where
  header : b.line = p.above.length + 1
  line : f.line = p.above.length + p.between.length + 2

variable {p : Layout} {rows : List (List Char)} {last : Nat} {blocks : List Block}
  {b : ModelBlock} {f : FieldDecl}

/-- **A declaration is read** from the tokens of its line on. -/
theorem exists_read (hrows : List.Forall₂ LexedLine rows p.lines)
    (hblocks : BlocksIn last p.tokens blocks) (hb : .model b ∈ blocks) (hf : f ∈ b.fields)
    (hp : p.Places b f) : ∃ docs r, FieldDecl.read last docs
      (lineTokens f.line 0 (kinds p.line :: p.below.map kinds)) = .ok r ∧ r.value = f := by
  obtain ⟨front, keyword, n, n', _, htokens, hfront, lead, docs, ts, r, rfl, hlead, hread,
    hvalue⟩ := hblocks.exists_field hb hf
  obtain ⟨type, m, rest, hts⟩ := FieldDecl.eq_of_read hread
  rw [hvalue] at hts
  have hplace := hp.line
  have hne : lead ≠ [] := by
    rintro rfl
    rw [List.nil_append, hts] at htokens
    have hline : f.line = b.line := line_of_header htokens hfront nofun
    have hheader := hp.header
    omega
  have hkss : ∀ ks ∈ p.lines.map kinds, Token.IsLine ks := by
    refine List.forall_mem_map.mpr fun ls hls => ?_
    obtain ⟨row, -, hline⟩ := exists_of_forall₂_right hrows ls hls
    exact isLine_kinds hline.lexemes hline.newline
  have hbehind : p.tokens = (front ++ [⟨.name keyword, b.line⟩, ⟨.name b.name, n⟩,
      ⟨.openBrace, n'⟩]) ++ (lead ++ ⟨.name f.name, f.line⟩ :: ⟨.name type, m⟩ :: rest) := by
    rw [htokens, hts]
    simp
  obtain ⟨above, ks, below, heq, hline, hrest⟩ :=
    exists_line_of_leads hbehind hkss hfront.header hlead hne nofun
  have hline : f.line = 1 + above.length := hline
  have hlength : (p.above.map kinds ++ kinds p.header :: p.between.map kinds).length =
      above.length := by
    simp only [List.length_append, List.length_map, List.length_cons]
    omega
  have hsplit : (p.above.map kinds ++ kinds p.header :: p.between.map kinds) ++
      kinds p.line :: p.below.map kinds = above ++ ks :: below := by
    rw [← heq, lines]
    simp
  obtain ⟨-, hbelow⟩ := List.append_inj hsplit hlength
  obtain rfl : ts = lineTokens f.line 0 (kinds p.line :: p.below.map kinds) := by
    rw [hts, hbelow]
    exact hrest
  exact ⟨docs, r, hread, hvalue⟩

/-! ### The other lines -/

theorem exists_tokens {above below : List (List Lexeme)} {ls : List Lexeme}
    (h : p.lines = above ++ ls :: below) : ∃ before after,
      p.tokens = before ++ (onLine (1 + above.length) (kinds ls) ++ after) := by
  obtain ⟨before, heq⟩ := exists_lineTokens_append (above.map kinds) (kinds ls)
    (below.map kinds) 1 0
  obtain ⟨after, hline⟩ := exists_lineTokens_cons (1 + (above.map kinds).length)
    (depthAfterAll 0 (before.map (·.kind))) (kinds ls) (below.map kinds)
  rw [hline, List.length_map] at heq
  refine ⟨before, after, ?_⟩
  rw [tokens, h, List.map_append, List.map_cons, heq]

/-- A closing brace stands before the header of a model or behind its declarations. -/
theorem line_of_closeBrace (hblocks : BlocksIn last p.tokens blocks) (hb : .model b ∈ blocks)
    (hf : f ∈ b.fields) {line : Nat} (hmem : ⟨.closeBrace, line⟩ ∈ p.tokens) :
    line ≤ b.line ∨ f.line ≤ line := by
  obtain ⟨front, keyword, n, n', _, hheader, -, lead, docs, ts, r, rfl, hlead, hread, hvalue⟩ :=
    hblocks.exists_field hb hf
  obtain ⟨type, m, rest, hts⟩ := FieldDecl.eq_of_read hread
  rw [hvalue] at hts
  have hsorted := pairwise_lineTokens 1 0 (p.lines.map kinds)
  rw [← tokens, hheader] at hsorted
  have hfirst := (List.pairwise_append.mp hsorted).2.2
  have hbody : (⟨.openBrace, n'⟩ :: (lead ++ ts)).Pairwise (·.line ≤ ·.line) :=
    (List.pairwise_append.mp hsorted).2.1.tail.tail
  have hdecl : ts.Pairwise (·.line ≤ ·.line) := (List.pairwise_append.mp hbody.tail).2.1
  rw [hts] at hdecl
  rw [hheader, List.mem_append, List.mem_cons, List.mem_cons, List.mem_cons, List.mem_append, hts,
    List.mem_cons] at hmem
  rcases hmem with hmem | hmem | hmem | hmem | hmem | hmem | hmem
  · exact .inl (hfirst _ hmem _ List.mem_cons_self)
  · cases hmem
  · cases hmem
  · cases hmem
  · exact absurd (hlead.body _ hmem) Bool.false_ne_true
  · cases hmem
  · exact .inr ((List.pairwise_cons.mp hdecl).1 _ hmem)

/-- **No line between** a header and a declaration starts with a closing brace. -/
theorem closes_between (hrows : List.Forall₂ LexedLine rows p.lines)
    (hblocks : BlocksIn last p.tokens blocks) (hb : .model b ∈ blocks) (hf : f ∈ b.fields)
    (hp : p.Places b f) : ∀ ls ∈ p.between, Lexeme.closes ls = false := by
  intro ls hls
  rw [Bool.eq_false_iff]
  intro hcloses
  obtain ⟨x, y, hbetween⟩ := List.append_of_mem hls
  have hlines : p.lines = (p.above ++ p.header :: x) ++ ls :: (y ++ p.line :: p.below) := by
    rw [lines, hbetween]
    simp
  obtain ⟨row, -, hrow⟩ := exists_of_forall₂_right hrows ls (by rw [hlines]; simp)
  obtain ⟨before, after, htokens⟩ := exists_tokens hlines
  have hmem : ⟨.closeBrace, 1 + (p.above ++ p.header :: x).length⟩ ∈ p.tokens := by
    rw [htokens, hrow.kinds_of_closes hcloses]
    simp [onLine]
  have houtside := line_of_closeBrace hblocks hb hf hmem
  have hheader := hp.header
  have hline := hp.line
  simp only [hbetween, List.length_append, List.length_cons] at houtside hheader hline
  omega

/-- **No other line opens the model.** -/
theorem not_opens {above below : List (List Lexeme)} {ls : List Lexeme} {row : List Char}
    (hblocks : BlocksIn last p.tokens blocks) (hb : .model b ∈ blocks)
    (hnames : ((blocks.filterMap Block.model?).map (·.name)).Nodup) (hname : Token.IsName b.name)
    (hlines : p.lines = above ++ ls :: below) (hrow : LexedLine row ls)
    (hother : b.line ≠ above.length + 1) : ¬Notes.Opens (Notes.pastClosing row) b.name := by
  rintro ⟨line', hshown, hopen⟩
  obtain ⟨keyword, ks, hkeyword, hks⟩ := Notes.kinds_of_openedModel? hrow.pastClosing.lexemes
    hrow.pastClosing.newline hshown hopen hname
  obtain ⟨c, hc⟩ := hrow.exists_kinds
  obtain ⟨before, after, htokens⟩ := exists_tokens hlines
  have hheader : p.tokens = (before ++ onLine (1 + above.length) c) ++
      ⟨.name keyword, 1 + above.length⟩ :: ⟨.name b.name, 1 + above.length⟩ ::
        ⟨.openBrace, 1 + above.length⟩ :: (onLine (1 + above.length) ks ++ after) := by
    rw [htokens, hc, hks]
    simp [onLine]
  obtain ⟨b', hb', hname', hline, -⟩ := hblocks.exists_header hkeyword hheader
  have hmem (b : ModelBlock) (hb : .model b ∈ blocks) : b ∈ blocks.filterMap Block.model? :=
    List.mem_filterMap.mpr ⟨_, hb, rfl⟩
  obtain rfl := List.inj_on_of_nodup_map hnames (hmem b' hb') (hmem b hb) hname'
  omega

end Layout

end Datamodel
