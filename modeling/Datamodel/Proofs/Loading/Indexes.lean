import Datamodel.Proofs.Loading.Attributes
import Datamodel.Proofs.Loading.Headers
import Datamodel.Proofs.Notes.Indexes

/-! The secondary indexes of a model, by the grammar and by the reader of notes.

The grammar reads attributes from tokens, and the reader of notes takes `@@index(...)` from single
lines. Where the header of a model and the brace that closes it stand at the heads of lines, each
index of it is on one line and starts with `@@index(`, and no other attribute of it has that on its
line, the loaded model has the indexes of its block (`secondaryIndexes_of_load`). What is taken for
an index may go on into the comment behind it, and is still read as the same attribute.

In general the two readers differ: an index over two lines is lost, and one in a comment behind
another attribute is invented (`not_indexesAgree`). -/

namespace Datamodel

open Notes (indexMark indexNote? isWithin)
open Token (Answers Balanced IsLine Kind Lexeme LexedLine depthAfterAll lexemes lineTokens onLine)
open Token.Lexeme (closes kinds text)

/-! ### Attributes as texts -/

/-- The attribute of a block that is all of a text. -/
def Attribute.ofText? (text : String) : Option Attribute :=
  match Token.tokenize text with
  | .ok (⟨.blockMarker, _⟩ :: ts) =>
    match Attribute.readLine (Token.lastLine ts) ts with
    | .ok r => if r.rest = [] then some r.value else none
    | .error _ => none
  | _ => none

/-- The text is read as an attribute of a block with the same name and arguments. -/
def Attribute.WrittenAs (a : Attribute) (text : String) : Prop :=
  ∃ a', Attribute.ofText? text = some a' ∧ a'.name = a.name ∧ a'.args = a.args

def Attribute.isIndex (a : Attribute) : Bool := a.name == "index"

theorem Attribute.ofText?_of_read {entry : List Char} {ls : List Lexeme} {ks : List Kind}
    {a : Attribute} (h : LexedLine entry ls) (hks : kinds ls = .blockMarker :: ks)
    (hread : Answers (Attribute.read (Token.lastLine (onLine 1 ks)) (onLine 1 ks)) a []) :
    Attribute.ofText? (String.ofList entry) = some a := by
  obtain ⟨hshorter, hread⟩ := hread
  have htokens : Token.tokenize (String.ofList entry) = .ok (⟨.blockMarker, 1⟩ :: onLine 1 ks) := by
    have hline := Token.tokenize_joinLines (.cons h .nil)
    rwa [Text.joinLines_singleton, List.map_singleton, hks] at hline
  have hline : Attribute.readLine (Token.lastLine (onLine 1 ks)) (onLine 1 ks) =
      .ok ⟨a, [], hshorter⟩ := by
    rw [Attribute.readLine, hread]
    rfl
  simp only [ofText?, htokens, hline, if_true]

/-! ### Lines of indexes -/

/-- How the tokens of an index start. -/
def Token.Kind.indexStart : List Kind := [.blockMarker, .name "index"]

/-- A line of a model on which both readers see the same index, if any: one that starts with an
index starts with `@@index(` and closes its brackets, and no other attribute of a block has that on
its line. -/
structure Token.Lexeme.ShowsIndex (ls : List Lexeme) : Prop where
  brace : .closeBrace ∉ kinds ls
  index : Kind.indexStart <+: kinds ls →
    indexMark <+: Text.trimLeft (text ls) ∧ depthAfterAll 0 (kinds ls) = 0
  other : (kinds ls).head? = some .blockMarker → ¬Kind.indexStart <+: kinds ls →
    ¬indexMark <:+: text ls

open Token.Lexeme (ShowsIndex)

section
variable {row : List Char} {ls : List Lexeme} {a : Attribute}

/-- An index of the grammar is one of the notes. -/
theorem Token.Lexeme.ShowsIndex.exists_indexNote? (hls : ShowsIndex ls) (h : LexedLine row ls)
    (hindex : Kind.indexStart <+: kinds ls) (ha : a.ReadOn (kinds ls)) :
    ∃ entry, indexNote? row = some entry ∧ a.WrittenAs entry := by
  obtain ⟨hmark, hdepth⟩ := hls.index hindex
  rw [Token.text_of_lexemes h.lexemes] at hmark
  have hline := (Token.isLine_kinds h.lexemes h.newline).newline
  obtain ⟨args, hargs⟩ := Notes.kinds_of_indexMark h.lexemes h.newline hmark
  obtain ⟨ks, hks⟩ := ha.exists_concat hline hls.brace hdepth hargs
  obtain ⟨entry, ls', hentry, hls', hn, hkinds⟩ :=
    Notes.exists_index_of_kinds h.lexemes h.newline hmark hks
  obtain ⟨a', hread, hsame⟩ := ha.exists_alone hline hls.brace hdepth
    (Token.lastLine (onLine 1 (kinds ls).tail)) 1
  rw [hargs] at hkinds hread
  refine ⟨_, hentry, a', Attribute.ofText?_of_read ⟨hls', hn⟩ hkinds hread, ?_⟩
  simp only [Agree, Attribute.unlined, Attribute.mk.injEq] at hsame
  exact ⟨hsame.1.symm, hsame.2.1.symm⟩

/-- The notes have no index that is none of the grammar. -/
theorem Token.Lexeme.ShowsIndex.indexNote?_eq_none (hls : ShowsIndex ls) (h : LexedLine row ls)
    (hindex : ¬Kind.indexStart <+: kinds ls) : indexNote? row = none := by
  rw [Option.eq_none_iff_forall_ne_some]
  intro entry hentry
  obtain ⟨hhead, hmark⟩ := Notes.head?_kinds_of_indexNote? h.lexemes h.newline hentry
  refine hls.other hhead hindex ?_
  rwa [Token.text_of_lexemes h.lexemes]

/-- The line starts with an index. -/
def Token.Kind.isIndex (ks : List Kind) : Bool := indexStart.isPrefixOf ks

theorem Token.Kind.isIndex_iff {ks : List Kind} : Kind.isIndex ks ↔ Kind.indexStart <+: ks :=
  List.isPrefixOf_iff_prefix

theorem Token.Kind.isAttribute_of_isIndex {ks : List Kind} (h : Kind.isIndex ks = true) :
    Kind.isAttribute ks = true := by
  obtain ⟨more, rfl⟩ := Kind.isIndex_iff.mp h
  rfl

theorem Attribute.ReadOn.isIndex_iff {ks : List Kind} (h : a.ReadOn ks)
    (hks : Kind.isAttribute ks = true) : Kind.isIndex ks = true ↔ a.isIndex = true := by
  obtain ⟨ks, rfl⟩ := List.head?_eq_some_iff.mp (beq_iff_eq.mp hks)
  obtain ⟨ks, rfl⟩ := h.exists_kinds
  rw [Kind.isIndex_iff, Attribute.isIndex, beq_iff_eq]
  simp [Kind.indexStart, eq_comm]

/-- The indexes of a model are those of the lines that start with one. -/
theorem forall₂_filter_isIndex {kss : List (List Kind)} {as : List Attribute}
    (h : List.Forall₂ Attribute.ReadOn (kss.filter Kind.isAttribute) as) :
    List.Forall₂ Attribute.ReadOn (kss.filter Kind.isIndex) (as.filter Attribute.isIndex) := by
  have hmarked := (List.forall₂_and_left _ _).mpr ⟨fun ks hks => (List.mem_filter.mp hks).2, h⟩
  have hfilter : (kss.filter Kind.isAttribute).filter Kind.isIndex = kss.filter Kind.isIndex := by
    rw [List.filter_filter]
    refine List.filter_congr fun ks _ => ?_
    cases hindex : Kind.isIndex ks with
    | false => rfl
    | true => rw [Kind.isAttribute_of_isIndex hindex, Bool.and_self]
  rw [← hfilter]
  refine (List.rel_filter (fun ks a h => ?_) hmarked).imp fun ks a h => h.2
  exact h.2.isIndex_iff h.1

/-- **The notes of the lines** have the indexes of the grammar, in their order. -/
theorem forall₂_indexNote? {rows : List (List Char)} {lines : List (List Lexeme)}
    {as : List Attribute} (h : List.Forall₂ LexedLine rows lines)
    (hlines : ∀ ls ∈ lines, ShowsIndex ls)
    (has : List.Forall₂ Attribute.ReadOn ((lines.map kinds).filter Kind.isIndex) as) :
    List.Forall₂ (fun entry a => a.WrittenAs entry) (rows.filterMap indexNote?) as := by
  induction h generalizing as with
  | nil =>
    cases has
    exact .nil
  | @cons row ls rows lines hrow _ ih =>
    obtain ⟨hls, hlines⟩ := List.forall_mem_cons.mp hlines
    by_cases hindex : Kind.isIndex (kinds ls) = true
    · rw [List.map_cons, List.filter_cons_of_pos hindex] at has
      obtain ⟨a, as, ha, hmore, rfl⟩ := List.forall₂_cons_left_iff.mp has
      obtain ⟨entry, hentry, hwritten⟩ :=
        hls.exists_indexNote? hrow (Kind.isIndex_iff.mp hindex) ha
      rw [List.filterMap_cons_some hentry]
      exact .cons hwritten (ih hlines hmore)
    · rw [List.map_cons, List.filter_cons_of_neg hindex] at has
      rw [List.filterMap_cons_none
        (hls.indexNote?_eq_none hrow fun hprefix => hindex (Kind.isIndex_iff.mpr hprefix))]
      exact ih hlines has

end

/-! ### The lines of a model -/

namespace Layout

/-- The lines between the header of a model and the one that closes it are such that both readers
see the same indexes. -/
structure Encloses (p : Layout) (b : ModelBlock) : Prop extends Heads p b where
  brace : .closeBrace ∉ kinds (Lexeme.pastClosing p.header)
  index : ¬Kind.indexStart <:+: kinds (Lexeme.pastClosing p.header)
  body : ∀ ls ∈ p.between, ShowsIndex ls
  closing : closes p.line = true

variable {p : Layout} {rows : List (List Char)} {last : Nat} {blocks : List Block}
  {b : ModelBlock} {above : List (List Char)} {header : List Char} {between : List (List Char)}
  {row : List Char} {below : List (List Char)}

/-- **The items of a model** are read from behind the brace of its header. -/
theorem Heads.exists_readFrom (hp : p.Heads b) (hrows : List.Forall₂ LexedLine rows p.lines)
    (hblocks : BlocksIn last p.tokens blocks) (hb : .model b ∈ blocks)
    (hnames : ((blocks.filterMap Block.model?).map (·.name)).Nodup) :
    ∃ front ks, kinds (Lexeme.pastClosing p.header) = front ++ ks ∧ b.ReadFrom last
      (lineTokens b.line 0 (ks :: (p.between ++ p.line :: p.below).map kinds)) := by
  obtain ⟨keyword, ks, hkeyword, hheader⟩ := hp.opens
  obtain ⟨row, -, hrow⟩ := exists_of_forall₂_right hrows p.header (by simp [lines])
  obtain ⟨c, hc⟩ := hrow.exists_kinds
  rw [hheader] at hc
  obtain ⟨before, hbefore⟩ := Token.exists_lineTokens_append (p.above.map kinds) (kinds p.header)
    ((p.between ++ p.line :: p.below).map kinds) 1 0
  have hline : 1 + (p.above.map kinds).length = b.line := by
    rw [List.length_map, hp.header, Nat.add_comm]
  rw [hline, hc, Token.lineTokens_append] at hbefore
  generalize hdepth : depthAfterAll (depthAfterAll 0 (before.map (·.kind))) c = depth at hbefore
  have hbrace := Token.lineTokens_append b.line depth [.name keyword, .name b.name, .openBrace] ks
    ((p.between ++ p.line :: p.below).map kinds)
  have htokens : p.tokens = (before ++ onLine b.line c) ++ ⟨.name keyword, b.line⟩ ::
      ⟨.name b.name, b.line⟩ :: ⟨.openBrace, b.line⟩ ::
        lineTokens b.line depth (ks :: (p.between ++ p.line :: p.below).map kinds) := by
    rw [tokens, lines, List.map_append, List.map_cons, hc, hbefore, List.append_assoc]
    exact congrArg (fun ts => before ++ (onLine b.line c ++ ts)) hbrace
  obtain ⟨b', hb', hname, -, hread, hbalanced⟩ := hblocks.exists_header hkeyword htokens
  have hmem (b : ModelBlock) (hb : .model b ∈ blocks) : b ∈ blocks.filterMap Block.model? :=
    List.mem_filterMap.mpr ⟨_, hb, rfl⟩
  obtain rfl := List.inj_on_of_nodup_map hnames (hmem b' hb') (hmem b hb) hname
  -- No bracket is open in front of the header.
  rw [← Token.depthAfterAll_append, ← Token.map_kind_onLine b'.line c, ← List.map_append,
    hbalanced 0] at hdepth
  subst hdepth
  exact ⟨[.name keyword, .name b'.name, .openBrace], ks, hheader, hread⟩

/-- The indexes of a model stand each at the head of a line of it. -/
theorem Encloses.forall₂_readOn (hp : p.Encloses b)
    (hrows : List.Forall₂ LexedLine rows p.lines) (hblocks : BlocksIn last p.tokens blocks)
    (hb : .model b ∈ blocks) (hnames : ((blocks.filterMap Block.model?).map (·.name)).Nodup) :
    List.Forall₂ Attribute.ReadOn ((p.between.map kinds).filter Kind.isIndex)
      (b.attributes.filter Attribute.isIndex) := by
  have hlexed (ls : List Lexeme) (hls : ls ∈ p.lines) : ∃ row, LexedLine row ls := by
    obtain ⟨row, -, hrow⟩ := exists_of_forall₂_right hrows ls hls
    exact ⟨row, hrow⟩
  obtain ⟨front, ks, hheader, r, hr, -, hattributes⟩ :=
    hp.toHeads.exists_readFrom hrows hblocks hb hnames
  have hbehind : IsLine ks ∧ .closeBrace ∉ ks ∧ ¬Kind.isIndex ks = true := by
    obtain ⟨header, hline⟩ := hlexed p.header (by simp [lines])
    have hisLine := Token.isLine_kinds hline.pastClosing.lexemes hline.pastClosing.newline
    have hbrace := hp.brace
    have hindex := hp.index
    rw [hheader] at hisLine hbrace hindex
    refine ⟨hisLine.of_append, fun hmem => hbrace (List.mem_append_right front hmem), fun hks => ?_⟩
    exact hindex ((Kind.isIndex_iff.mp hks).isInfix.trans (List.suffix_append front ks).isInfix)
  have hclosing : (kinds p.line).head? = some .closeBrace := by
    obtain ⟨row, hrow⟩ := hlexed p.line (by simp [lines])
    rw [hrow.kinds_of_closes hp.closing]
    rfl
  have hbody : ∀ ks' ∈ ks :: p.between.map kinds, IsLine ks' ∧ .closeBrace ∉ ks' := by
    refine List.forall_mem_cons.mpr ⟨⟨hbehind.1, hbehind.2.1⟩, ?_⟩
    refine List.forall_mem_map.mpr fun ls hls => ?_
    obtain ⟨row, hrow⟩ := hlexed ls (by simp [lines, hls])
    exact ⟨Token.isLine_kinds hrow.lexemes hrow.newline, (hp.body ls hls).brace⟩
  have hlines : lineTokens b.line 0 (ks :: (p.between ++ p.line :: p.below).map kinds) =
      lineTokens b.line 0 ((ks :: p.between.map kinds) ++ kinds p.line :: p.below.map kinds) := by
    rw [List.map_append, List.map_cons, List.cons_append]
  have hread := ModelItem.readOn_of_readBody hr hlines hbody hclosing
  rw [← hattributes] at hread
  have hfiltered := forall₂_filter_isIndex hread
  rwa [List.filter_cons_of_neg hbehind.2.2] at hfiltered

/-- The secondary indexes of a model are those on its lines. -/
theorem Cuts.linesOf?_eq (h : p.Cuts above header between row below) (hp : p.Encloses b)
    (hblocks : BlocksIn last p.tokens blocks) (hb : .model b ∈ blocks)
    (hnames : ((blocks.filterMap Block.model?).map (·.name)).Nodup)
    (hbname : Token.IsName b.name) :
    (Notes.extract (Text.joinLines (above ++ header :: (between ++ row :: below)))).linesOf?
      b.name = some (between.filterMap Notes.ofLine?) := by
  have hwithin : ∀ l ∈ between, isWithin l = true := by
    intro l hl
    obtain ⟨ls, hls, hlexed⟩ := exists_of_forall₂_left h.between l hl
    refine Notes.isWithin_iff.mpr (head?_ne_of_closes hlexed ?_)
    refine Bool.eq_false_iff.mpr fun hcloses => (hp.body ls hls).brace ?_
    rw [hlexed.kinds_of_closes hcloses]
    exact List.mem_cons_self
  have hstop : isWithin row = false := by
    have hcloses := hp.closing
    rw [h.line.closes_eq] at hcloses
    simp [isWithin, beq_iff_eq.mp hcloses]
  rw [Notes.linesOf?_extract h.newline (h.closes_above hblocks hp.toHeads)
    (h.openedModel?_header hbname hp.toHeads (.inl rfl))
    (h.not_opens hblocks hb hnames hbname hp.toHeads),
    Text.takeWhile_append_of_stop hwithin (by rintro _ ⟨⟩; exact hstop)]

end Layout

/-! ### Models without indexes -/

/-- No line that starts with an attribute of a block holds `@@index(`, behind a line that opens the
model up to the next that starts with a closing brace. -/
def LeavesUnindexed (lines : List (List Lexeme)) (model : String) : Prop :=
  ∀ above header below, lines = above ++ header :: below →
    Lexeme.Opens model (Lexeme.pastClosing header) →
      ∀ ls ∈ below.takeWhile (!closes ·), (kinds ls).head? = some .blockMarker →
        ¬indexMark <:+: text ls

/-- Without such a line the notes give the model no secondary index. -/
theorem LeavesUnindexed.secondaryIndexesIn {rows : List (List Char)} {lines : List (List Lexeme)}
    {model : String} {noted : List LineNote} (h : LeavesUnindexed lines model)
    (hrows : List.Forall₂ LexedLine rows lines) (hne : rows ≠ [])
    (hfirst : ∀ ls ∈ lines.head?, closes ls = false) (hmodel : Token.IsName model)
    (hnoted : (Notes.extract (Text.joinLines rows)).linesOf? model = some noted) :
    LineNote.secondaryIndexesIn noted = [] := by
  refine List.filterMap_eq_nil_iff.mpr fun note hnote => ?_
  obtain ⟨above, header, below, hlines, hopens, ls, hls, l, hlexed, hof⟩ :=
    Notes.exists_line_of_linesOf? hrows hne hfirst hmodel hnoted note hnote
  rw [Option.eq_none_iff_forall_ne_some]
  intro entry hentry
  have hindex : indexNote? l = some entry := by rw [indexNote?, hof, Option.bind_some, hentry]
  obtain ⟨hhead, hmark⟩ := Notes.head?_kinds_of_indexNote? hlexed.lexemes hlexed.newline hindex
  refine h above header below hlines hopens ls hls hhead ?_
  rwa [Token.text_of_lexemes hlexed.lexemes]

/-! ### Loaded models -/

section
variable {rows : List (List Char)} {blocks : List Block} {b : ModelBlock}

/-- **The notes on a model** have the indexes of its block. -/
theorem Layout.Encloses.forall₂_secondaryIndexesOf {p : Layout} {last : Nat} (hp : p.Encloses b)
    (hrows : List.Forall₂ LexedLine rows p.lines) (hblocks : BlocksIn last p.tokens blocks)
    (hnames : ((blocks.filterMap Block.model?).map (·.name)).Nodup) (hb : .model b ∈ blocks)
    (hbname : Token.IsName b.name) :
    List.Forall₂ (fun entry a => a.WrittenAs entry)
      ((Notes.extract (Text.joinLines rows)).secondaryIndexesOf b.name)
      (b.attributes.filter Attribute.isIndex) := by
  obtain ⟨above, header, between, row, below, rfl, hcuts⟩ := Layout.exists_cuts hrows
  have hindexes : (Notes.extract (Text.joinLines
      (above ++ header :: (between ++ row :: below)))).secondaryIndexesOf b.name =
        between.filterMap indexNote? := by
    rw [Notes.secondaryIndexesOf, hcuts.linesOf?_eq hp hblocks hb hnames hbname]
    exact List.filterMap_filterMap
  rw [hindexes]
  exact forall₂_indexNote? hcuts.between hp.body (hp.forall₂_readOn hrows hblocks hb hnames)

end

/-- **Secondary indexes are neither lost nor invented.** A loaded model has one secondary index for
each `@@index` of its block, in their order, and each is read as the attribute it is for, if the
lines of the model are such that both readers see the same indexes; and it has none if the block has
none and no line of the model holds `@@index(` behind another attribute. -/
theorem secondaryIndexes_of_load {origin source : String} {fragment : Fragment}
    (h : Fragment.load origin source = .ok fragment) {blocks : List Block}
    (hblocks : Block.ofText (String.ofList (Text.dropMark source.toList)) = .ok blocks)
    {b : ModelBlock} (hb : .model b ∈ blocks) {lines : List (List Lexeme)}
    (hlines : ((Text.dropMark source.toList).splitOn '\n').mapM lexemes = some lines)
    (hlayout : (∃ p : Layout, p.lines = lines ∧ p.Encloses b) ∨
      b.attributes.filter Attribute.isIndex = [] ∧ LeavesUnindexed lines b.name) :
    ∃ m, fragment.schema.model? b.name = some m ∧
      List.Forall₂ (fun entry a => a.WrittenAs entry) m.secondaryIndexes
        (b.attributes.filter Attribute.isIndex) := by
  have hrows := Token.forall₂_lexedLine hlines
  obtain ⟨last, hin⟩ := Token.blocksIn_of_lexedLine hrows hblocks
  have hlexical : b.Lexical := Block.lexical_of_ofText hblocks _ hb
  obtain ⟨declared, s, hdeclared, -, -⟩ := Fragment.exists_models_of_load h hblocks
  obtain ⟨declared', m, hresolve, hmodel⟩ := Fragment.exists_model_of_load h hblocks hb
  obtain ⟨hname, -, hnone⟩ := ModelBlock.fields_of_resolve hresolve
  refine ⟨_, hmodel, ?_⟩
  have htext : Text.joinLines ((Text.dropMark source.toList).splitOn '\n') =
      Text.dropMark source.toList := List.intercalate_splitOn '\n'
  rw [Notes.secondaryIndexes_annotate hnone, hname, ← htext]
  rcases hlayout with ⟨p, rfl, hp⟩ | ⟨hnil, hunindexed⟩
  · exact hp.forall₂_secondaryIndexesOf hrows hin (Block.nodup_models hdeclared) hb hlexical.name
  · rw [hnil, List.forall₂_nil_right_iff, Notes.secondaryIndexesOf]
    cases hnoted : (Notes.extract (Text.joinLines
        ((Text.dropMark source.toList).splitOn '\n'))).linesOf? b.name with
    | none => rfl
    | some noted =>
      exact hunindexed.secondaryIndexesIn hrows (List.splitOn_ne_nil _ _) (closes_head hrows hin)
        hlexical.name hnoted

/-- A text with two indexes, one of them with parentheses in a literal and in a comment behind. -/
def logRows : List String :=
  ["enum Level \x7b", "  INFO", "\x7d", "model Log \x7b", "  id Int @id", "  at DateTime",
    "  @@index([id, at], map: \"by (at)\") // see (x) there", "  @@unique([at])",
    "    @@index( [at(sort: Desc)] )", "\x7d"]

def logText : String :=
  String.ofList (Text.joinLines (logRows.map String.toList))

/-- The lines of the text, around those of the model. -/
def logLayout : Layout :=
  let lines := logRows.map fun row => (lexemes row.toList).getD []
  { above := lines.take 3
    header := lines[3]?.getD []
    between := (lines.drop 4).take 5
    line := lines[9]?.getD []
    below := [] }

theorem encloses_logLayout {b : ModelBlock} (hb : b.name = "Log") (hline : b.line = 4) :
    logLayout.Encloses b where
  header := by
    rw [hline]
    decide +kernel
  opens := by
    rw [hb]
    exact ⟨"model", [], .inl rfl, by decide +kernel⟩
  word := by
    rw [hb]
    decide
  closed := by
    rintro ls more ⟨init, habove⟩ hstarts
    have hnone : ∀ ls ∈ logLayout.above, ¬Lexeme.StartsModel (Lexeme.pastClosing ls) := by
      decide +kernel
    exact absurd hstarts (hnone ls (by simp [← habove]))
  brace := by decide +kernel
  index := by decide +kernel
  body := by
    have hbody : ∀ ls ∈ logLayout.between, .closeBrace ∉ kinds ls ∧
        (Kind.indexStart <+: kinds ls →
          indexMark <+: Text.trimLeft (text ls) ∧ depthAfterAll 0 (kinds ls) = 0) ∧
        ((kinds ls).head? = some .blockMarker → ¬Kind.indexStart <+: kinds ls →
          ¬indexMark <:+: text ls) := by
      decide +kernel
    exact fun ls hls => ⟨(hbody ls hls).1, (hbody ls hls).2.1, (hbody ls hls).2.2⟩
  closing := by decide +kernel

theorem secondaryIndexes_of_load_log : ∃ fragment blocks b,
    Fragment.load "log.prisma" logText = .ok fragment ∧
    Block.ofText (String.ofList (Text.dropMark logText.toList)) = .ok blocks ∧
    .model b ∈ blocks ∧
    ((Text.dropMark logText.toList).splitOn '\n').mapM lexemes = some logLayout.lines ∧
    logLayout.Encloses b ∧ (b.attributes.filter Attribute.isIndex).length = 2 ∧
    ∃ m, fragment.schema.model? b.name = some m ∧
      List.Forall₂ (fun entry a => a.WrittenAs entry) m.secondaryIndexes
        (b.attributes.filter Attribute.isIndex) := by
  have hchars : logText.toList = Text.joinLines (logRows.map String.toList) :=
    String.toList_ofList
  have hlines : ((Text.dropMark logText.toList).splitOn '\n').mapM lexemes =
      some logLayout.lines := by
    rw [hchars]
    decide +kernel
  have hdeclared : ((Block.ofText (String.ofList (Text.dropMark logText.toList))).toOption.map
      fun blocks => (blocks.filterMap Block.model?).map fun b =>
        (b.name, b.line, (b.attributes.filter Attribute.isIndex).length)) =
      some [("Log", 4, 2)] := by
    simp only [Block.ofText, Token.tokenize, hchars, String.toList_ofList]
    decide +kernel
  have hschema : (Schema.ofText
      (String.ofList (Text.dropMark logText.toList))).toOption.isSome = true := by
    simp only [Schema.ofText, Block.ofText, Token.tokenize, hchars, String.toList_ofList]
    decide +kernel
  obtain ⟨s, hs⟩ := Option.isSome_iff_exists.mp hschema
  obtain ⟨fragment, hfragment⟩ := Fragment.exists_load "log.prisma" (eq_ok_of_toOption hs)
  obtain ⟨blocks, hblocks, hmodels⟩ := Option.map_eq_some_iff.mp hdeclared
  obtain ⟨b, _, hmem, hb, -⟩ := List.map_eq_cons_iff.mp hmodels
  simp only [Prod.mk.injEq] at hb
  obtain ⟨hname, hline, hlength⟩ := hb
  have hblock : .model b ∈ blocks := Block.mem_of_model? (by rw [hmem]; simp)
  have hencloses := encloses_logLayout hname hline
  have hblocks := eq_ok_of_toOption hblocks
  exact ⟨fragment, blocks, b, hfragment, hblocks, hblock, hlines, hencloses, hlength,
    secondaryIndexes_of_load hfragment hblocks hblock hlines (.inl ⟨logLayout, rfl, hencloses⟩)⟩

/-! ### Layouts on which the two readers differ -/

/-- The two readers of a text agree on the indexes of each model. -/
def IndexesAgree (source : String) : Prop :=
  ∀ origin fragment blocks, Fragment.load origin source = .ok fragment →
    Block.ofText (String.ofList (Text.dropMark source.toList)) = .ok blocks →
      ∀ b, .model b ∈ blocks → ∃ m, fragment.schema.model? b.name = some m ∧
        List.Forall₂ (fun entry a => a.WrittenAs entry) m.secondaryIndexes
          (b.attributes.filter Attribute.isIndex)

/-- The indexes of the first model as they are loaded, each with whether it is read as an attribute,
and the number of those of its block. -/
def indexes? (source : String) : Option (List (String × Bool) × Nat) := do
  let fragment ← (Fragment.load "a.prisma" source).toOption
  let blocks ← (Block.ofText (String.ofList (Text.dropMark source.toList))).toOption
  let b ← (blocks.filterMap Block.model?).head?
  let m ← fragment.schema.model? b.name
  return (m.secondaryIndexes.map fun entry => (entry, (Attribute.ofText? entry).isSome),
    (b.attributes.filter Attribute.isIndex).length)

theorem of_indexesAgree {source : String} {entries : List (String × Bool)} {n : Nat}
    (h : indexes? source = some (entries, n)) (hagree : IndexesAgree source) :
    entries.length = n ∧ ∀ entry ∈ entries, entry.2 = true := by
  obtain ⟨fragment, hload, h⟩ := Option.bind_eq_some_iff.mp h
  obtain ⟨blocks, hblocks, h⟩ := Option.bind_eq_some_iff.mp h
  obtain ⟨b, hb, h⟩ := Option.bind_eq_some_iff.mp h
  obtain ⟨m, hm, h⟩ := Option.bind_eq_some_iff.mp h
  cases h
  obtain ⟨m', hm', hwritten⟩ := hagree _ fragment blocks (eq_ok_of_toOption hload)
    (eq_ok_of_toOption hblocks) b (Block.mem_of_model? (List.mem_of_head? hb))
  rw [hm] at hm'
  cases hm'
  refine ⟨by rw [List.length_map, hwritten.length_eq], ?_⟩
  refine List.forall_mem_map.mpr fun entry hentry => ?_
  obtain ⟨a, -, a', ha', -⟩ := exists_of_forall₂_left hwritten entry hentry
  rw [ha', Option.isSome_some]

theorem not_indexesAgree_of_indexes? {source : String}
    (h : ∃ indexes ∈ indexes? source,
      indexes.1.length ≠ indexes.2 ∨ ∃ entry ∈ indexes.1, entry.2 = false) :
    ¬IndexesAgree source := by
  intro hagree
  obtain ⟨⟨entries, n⟩, hfound, hdiffer⟩ := h
  obtain ⟨hlength, hread⟩ := of_indexesAgree hfound hagree
  rcases hdiffer with hne | ⟨entry, hentry, hunread⟩
  · exact hne hlength
  · rw [hread entry hentry] at hunread
    cases hunread

/-- Texts of one index, each of which lacks one condition on the layout. -/
def irregularIndexTexts : List String := [
  -- An index over several lines.
  "model A \x7b\n  id Int\n  @@index(\n    [id])\n\x7d\n",
  -- A blank in front of the parenthesis.
  "model A \x7b\n  id Int\n  @@index ([id])\n\x7d\n",
  -- An index without arguments.
  "model A \x7b\n  id Int\n  @@index\n\x7d\n",
  -- An index on the line of the header.
  "model A \x7b @@index([id])\n  id Int\n\x7d\n",
  -- A model that is not closed at the head of a line.
  "model A \x7b\n  id Int \x7d\nmodel B \x7b\n  id Int\n  @@index([id])\n\x7d\n",
  -- A model that is closed on the line of its index.
  "model A \x7b\n  id Int\n  @@index([id]) \x7d enum E \x7b X @map(\")\") \x7d\n",
  -- A name with a dot.
  "model A.B \x7b\n  id Int\n  @@index([id])\n\x7d\n",
  -- A header that does not stand at the head of its line.
  "enum E \x7b X \x7d model A \x7b\n  id Int\n  @@index([id])\n\x7d\n",
  -- A literal that goes on behind a line break.
  "model A \x7b\n  s String @default(\"\\\n\x7d\")\n  @@index([s])\n\x7d\n"]

/-- **Indexes depend on the layout**, since the text is gone through line by line. -/
theorem not_indexesAgree : ¬∃ source ∈ irregularIndexTexts, IndexesAgree source := by
  have hdiffer : ∀ source ∈ irregularIndexTexts, ¬IndexesAgree source := by
    simp only [irregularIndexTexts, List.forall_mem_cons]
    refine ⟨?_, ?_, ?_, ?_, ?_, ?_, ?_, ?_, ?_, List.forall_mem_nil _⟩ <;>
      exact not_indexesAgree_of_indexes? (by decide +kernel)
  rintro ⟨source, hsource, hagree⟩
  exact hdiffer source hsource hagree

/-- The layout apart, what is written behind another attribute of the model is taken for an index,
in a comment as in a literal. -/
theorem not_indexesAgree_of_match :
    ¬IndexesAgree "model A \x7b\n  id Int\n  @@unique([id]) // @@index([id])\n\x7d\n" ∧
    ¬IndexesAgree "model A \x7b\n  id Int\n  @@map(\"@@index(x)\")\n\x7d\n" := by
  constructor <;> exact not_indexesAgree_of_indexes? (by decide +kernel)

end Datamodel
