import Datamodel.Proofs.Loading.Layout

/-! The lines around the header of a model, as the reader of notes sees them.

A layout cuts the lines of a text as it cuts their lexemes (`Layout.Cuts`). Where each line above
the header that starts a model is followed by one that starts with a closing brace, the reader of
notes has no other model open at the header (`Layout.Cuts.closes_above`), and no other line opens
the model (`Layout.Cuts.not_opens`). -/

namespace Datamodel

open Notes (isWithin)
open Token (Lexeme LexedLine lexemes lineTokens)
open Token.Lexeme (closes kinds)

/-! ### Lines that open a model -/

/-- The line is the header of the model, or starts with it. -/
def Token.Lexeme.Opens (model : String) (ls : List Lexeme) : Prop :=
  ∃ keyword ks, (keyword = "model" ∨ keyword = "view") ∧
    kinds ls = .name keyword :: .name model :: .openBrace :: ks

/-- The line starts with the keyword of a model. -/
def Token.Lexeme.StartsModel (ls : List Lexeme) : Prop :=
  (kinds ls).head? = some (.name "model") ∨ (kinds ls).head? = some (.name "view")

instance (ls : List Lexeme) : Decidable (Token.Lexeme.StartsModel ls) :=
  inferInstanceAs (Decidable (_ ∨ _))

open Token.Lexeme (StartsModel)

/-! ### Lines with their lexemes -/

theorem forall₂_within {xs : List (List Char)} {lss : List (List Lexeme)}
    (h : List.Forall₂ LexedLine xs lss) :
    List.Forall₂ LexedLine (xs.takeWhile isWithin) (lss.takeWhile (!closes ·)) :=
  forall₂_takeWhile h fun l ls hls => by
    rw [hls.closes_eq]
    rfl

/-- Lines that are read one by one are lines with their lexemes. -/
theorem Token.forall₂_lexedLine {text : List Char} {lines : List (List Lexeme)}
    (h : (text.splitOn '\n').mapM lexemes = some lines) :
    List.Forall₂ LexedLine (text.splitOn '\n') lines := by
  have hn : ∀ row ∈ text.splitOn '\n', '\n' ∉ row := fun row => Text.not_mem_of_mem_splitOn
  generalize text.splitOn '\n' = rows at h hn
  induction rows generalizing lines with
  | nil =>
    cases h
    exact .nil
  | cons row rows ih =>
    rw [List.mapM_cons] at h
    obtain ⟨ls, hls, h⟩ := Option.bind_eq_some_iff.mp h
    obtain ⟨more, hmore, h⟩ := Option.bind_eq_some_iff.mp h
    cases h
    obtain ⟨hrow, hn⟩ := List.forall_mem_cons.mp hn
    exact .cons ⟨hls, hrow⟩ (ih hmore hn)

/-- The tokens of a text whose lines are read one by one, and its blocks. -/
theorem Token.blocksIn_of_lexedLine {text : List Char} {lines : List (List Lexeme)}
    {blocks : List Block} (hrows : List.Forall₂ LexedLine (text.splitOn '\n') lines)
    (hblocks : Block.ofText (String.ofList text) = .ok blocks) :
    ∃ last, BlocksIn last (lineTokens 1 0 (lines.map kinds)) blocks := by
  obtain ⟨ts, htokens, hread⟩ := exists_of_bind hblocks
  have htext : Text.joinLines (text.splitOn '\n') = text := List.intercalate_splitOn '\n'
  rw [← htext, Token.tokenize_joinLines hrows] at htokens
  cases htokens
  exact ⟨_, blocksIn_of_readAll hread⟩

/-! ### Lines that notes are taken from -/

section
variable {rows more : List (List Char)} {lines : List (List Lexeme)} {header : List Char}
  {ls : List Lexeme} {a : ModelNotes} {model : String} {noted : List LineNote}

theorem Notes.TakenFrom.exists_line (h : Notes.TakenFrom a header more)
    (hheader : LexedLine header ls) (hmore : List.Forall₂ LexedLine more lines)
    (hmodel : Token.IsName a.model) : Lexeme.Opens a.model ls ∧ ∀ note ∈ a.lines, ∃ ls ∈ lines,
      ∃ l, LexedLine l ls ∧ Notes.ofLine? l = some note := by
  obtain ⟨header', hshown, hopen⟩ := h.opens
  refine ⟨Notes.kinds_of_openedModel? hheader.lexemes hheader.newline hshown hopen hmodel,
    fun note hnote => ?_⟩
  obtain ⟨l, hl, l', hshown', hof⟩ := h.lines note hnote
  obtain ⟨ls', hls', hlexed⟩ := exists_of_forall₂_left hmore l hl
  exact ⟨ls', hls', l, hlexed, by rwa [← Notes.ofLine?_of_shown hshown']⟩

/-- **The notes on a model** are taken from its lines: behind one that opens the model, up to the
next that starts with a closing brace. -/
theorem Notes.exists_line_of_linesOf? (hrows : List.Forall₂ LexedLine rows lines) (hne : rows ≠ [])
    (hfirst : ∀ ls ∈ lines.head?, closes ls = false) (hmodel : Token.IsName model)
    (h : (Notes.extract (Text.joinLines rows)).linesOf? model = some noted) :
    ∀ note ∈ noted, ∃ above header below, lines = above ++ header :: below ∧
      Lexeme.Opens model (Lexeme.pastClosing header) ∧ ∃ ls ∈ below.takeWhile (!closes ·),
        ∃ l, LexedLine l ls ∧ Notes.ofLine? l = some note := by
  intro note hnote
  obtain ⟨a, ha, rfl, hmem⟩ := Notes.exists_of_linesOf? h note hnote
  have hn : ∀ l ∈ rows, '\n' ∉ l := by
    intro l hl
    obtain ⟨ls, -, hls⟩ := exists_of_forall₂_left hrows l hl
    exact hls.newline
  obtain ⟨line, more, rfl⟩ := List.exists_cons_of_ne_nil hne
  obtain ⟨ls, lss, hls, hlss, rfl⟩ := List.forall₂_cons_left_iff.mp hrows
  rcases Notes.takenFrom_of_mem_extract hn ha with htaken | ⟨x, l, y, rfl, htaken⟩
  · have hpast : Lexeme.pastClosing ls = ls := by
      rw [Lexeme.pastClosing, hfirst ls rfl]
      rfl
    obtain ⟨hopens, hlines⟩ := htaken.exists_line hls (forall₂_within hlss) hmodel
    exact ⟨[], ls, lss, rfl, by rwa [hpast], hlines note hmem⟩
  · obtain ⟨xs, behind, -, hbehind, rfl⟩ := exists_of_forall₂_append hlss
    obtain ⟨ls', ys, hls', hys, rfl⟩ := List.forall₂_cons_left_iff.mp hbehind
    obtain ⟨hopens, hlines⟩ := htaken.exists_line hls'.pastClosing (forall₂_within hys) hmodel
    exact ⟨ls :: xs, ls', ys, rfl, hopens, hlines note hmem⟩

end

/-! ### Cutting the lines -/

namespace Layout

variable {p : Layout} {rows : List (List Char)} {last : Nat} {blocks : List Block}
  {b : ModelBlock} {above : List (List Char)} {header : List Char} {between : List (List Char)}
  {row : List Char} {below : List (List Char)}

/-- The lines of a text, cut as a layout cuts their lexemes. -/
structure Cuts (p : Layout) (above : List (List Char)) (header : List Char)
    (between : List (List Char)) (row : List Char) (below : List (List Char)) : Prop where
  above : List.Forall₂ LexedLine above p.above
  header : LexedLine header p.header
  between : List.Forall₂ LexedLine between p.between
  line : LexedLine row p.line
  below : List.Forall₂ LexedLine below p.below

theorem exists_cuts (hrows : List.Forall₂ LexedLine rows p.lines) :
    ∃ above header between row below, rows = above ++ header :: (between ++ row :: below) ∧
      p.Cuts above header between row below := by
  obtain ⟨above, model, habove, hmodel, rfl⟩ := exists_of_forall₂_append hrows.flip
  obtain ⟨header, body, hheader, hbody, rfl⟩ := List.forall₂_cons_left_iff.mp hmodel
  obtain ⟨between, decl, hbetween, hdecl, rfl⟩ := exists_of_forall₂_append hbody
  obtain ⟨row, below, hrow, hbelow, rfl⟩ := List.forall₂_cons_left_iff.mp hdecl
  exact ⟨above, header, between, row, below, rfl,
    habove.flip, hheader, hbetween.flip, hrow, hbelow.flip⟩

theorem Cuts.lexed (h : p.Cuts above header between row below) :
    List.Forall₂ LexedLine (above ++ header :: (between ++ row :: below)) p.lines :=
  List.rel_append h.above (.cons h.header (List.rel_append h.between (.cons h.line h.below)))

theorem head?_ne_of_closes {line : List Char} {ls : List Lexeme} (h : LexedLine line ls)
    (hcloses : closes ls = false) : line.head? ≠ some '}' := by
  rw [h.closes_eq] at hcloses
  simpa using hcloses

/-- The reader of notes finds the header of the model: it stands at the head of a line, and each
line above that starts a model is followed by one that starts with a closing brace. -/
structure Heads (p : Layout) (b : ModelBlock) : Prop where
  header : b.line = p.above.length + 1
  opens : Lexeme.Opens b.name (Lexeme.pastClosing p.header)
  word : '.' ∉ b.name.toList
  closed : ∀ ls more, ls :: more <:+ p.above → StartsModel (Lexeme.pastClosing ls) →
    ∃ ls' ∈ more ++ [p.header], closes ls' = true

/-- No model above the header is left open. -/
theorem Cuts.closes_above (h : p.Cuts above header between row below)
    (hblocks : BlocksIn last p.tokens blocks) (hp : p.Heads b) : Notes.Closes above header where
  first := by
    intro l hl
    have hfirst : l ∈ (above ++ header :: (between ++ row :: below)).head? := by
      rw [List.head?_append] at hl ⊢
      exact hl
    obtain ⟨ls, hls, hlexed⟩ := exists_head?_of_forall₂ h.lexed l hfirst
    exact head?_ne_of_closes hlexed (closes_head h.lexed hblocks ls hls)
  closed := by
    rintro x l y rfl name ⟨line', hshown, hopen⟩
    obtain ⟨xs, more, -, hmore, habove⟩ := exists_of_forall₂_append h.above
    obtain ⟨ls, ys, hls, hys, rfl⟩ := List.forall₂_cons_left_iff.mp hmore
    have hstarts : StartsModel (Lexeme.pastClosing ls) :=
      Notes.head?_kinds_of_openedModel? hls.pastClosing.lexemes hls.pastClosing.newline hshown hopen
    obtain ⟨ls', hls', hcloses⟩ := hp.closed ls ys ⟨xs, habove.symm⟩ hstarts
    have hbehind : List.Forall₂ LexedLine (y ++ [header]) (ys ++ [p.header]) :=
      List.rel_append hys (.cons h.header .nil)
    obtain ⟨l', hl', hlexed⟩ := exists_of_forall₂_right hbehind ls' hls'
    refine ⟨l', hl', ?_⟩
    rw [hlexed.closes_eq] at hcloses
    simpa using hcloses

/-- No other line opens the model. -/
theorem Cuts.not_opens (h : p.Cuts above header between row below)
    (hblocks : BlocksIn last p.tokens blocks) (hb : .model b ∈ blocks)
    (hnames : ((blocks.filterMap Block.model?).map (·.name)).Nodup) (hname : Token.IsName b.name)
    (hp : p.Heads b) :
    ∀ l ∈ above ++ (between ++ row :: below), ¬Notes.Opens (Notes.pastClosing l) b.name := by
  have hheader := hp.header
  intro l hl
  rcases List.mem_append.mp hl with hl | hl
  · obtain ⟨x, y, rfl⟩ := List.append_of_mem hl
    obtain ⟨xs, more, hxs, hmore, habove⟩ := exists_of_forall₂_append h.above
    obtain ⟨ls, ys, hls, -, rfl⟩ := List.forall₂_cons_left_iff.mp hmore
    have hlines : p.lines = xs ++ ls :: (ys ++ p.header :: (p.between ++ p.line :: p.below)) := by
      rw [Layout.lines, habove]
      simp
    refine Layout.not_opens hblocks hb hnames hname hlines hls ?_
    rw [hheader, habove, List.length_append, List.length_cons]
    omega
  · obtain ⟨x, y, hbody⟩ := List.append_of_mem hl
    have hlexed :
        List.Forall₂ LexedLine (between ++ row :: below) (p.between ++ p.line :: p.below) :=
      List.rel_append h.between (.cons h.line h.below)
    rw [hbody] at hlexed
    obtain ⟨xs, more, -, hmore, hbehind⟩ := exists_of_forall₂_append hlexed
    obtain ⟨ls, ys, hls, -, rfl⟩ := List.forall₂_cons_left_iff.mp hmore
    have hlines : p.lines = (p.above ++ p.header :: xs) ++ ls :: ys := by
      rw [Layout.lines, hbehind]
      simp
    refine Layout.not_opens hblocks hb hnames hname hlines hls ?_
    rw [hheader, List.length_append, List.length_cons]
    omega

/-- The header opens the model. -/
theorem Cuts.openedModel?_header (h : p.Cuts above header between row below)
    (hbname : Token.IsName b.name) (hp : p.Heads b) {line : List Char}
    (hshown : Notes.Shown (Notes.pastClosing header) line) :
    Notes.openedModel? line = some b.name := by
  obtain ⟨keyword, ks, hkeyword, hheader⟩ := hp.opens
  exact Notes.openedModel?_of_kinds h.header.pastClosing.lexemes h.header.pastClosing.newline
    hkeyword (isWord_of_isName hbname hp.word) hheader hshown

theorem Cuts.newline (h : p.Cuts above header between row below) :
    ∀ l ∈ above ++ header :: (between ++ row :: below), '\n' ∉ l := by
  intro l hl
  obtain ⟨ls, -, hls⟩ := exists_of_forall₂_left h.lexed l hl
  exact hls.newline

end Layout

end Datamodel
