import Datamodel.Proofs.Loading.Headers
import Datamodel.Proofs.Loading.Mapping
import Datamodel.Proofs.Notes.Columns

/-! The column name of a field, by the grammar and by the reader of notes.

The grammar reads tokens, and the reader of notes scans lines for `@map("...")`. Where a declaration
and the header of its model stand on lines of their own, and the mapping is written as the reader of
notes looks for it, the loaded field has the column name that the first `@map` of the declaration
gives (`columnName_of_load`). In general the two readers differ: a blank in front of the literal is
nothing to the grammar, and hides the name from the reader of notes (`not_columnsAgree`). -/

namespace Datamodel

open Notes (Shown Unmapped columnName? fieldNotes? isWithin ofLine?)
open Token (Kind Lexeme LexedLine lexemes lineTokens onLine)
open Token.Lexeme (closes kinds kinds_append)

/-! ### Lines that map a field -/

/-- The first `@map` of the line is `@map("name")` as it stands, with no closing brace before it. -/
def Token.Lexeme.Maps (name : String) (ls : List Lexeme) : Prop :=
  ∃ pre post, ls = pre ++ (Notes.mapping name ++ post) ∧ Unmapped pre ∧
    ¬[.marker, .name "map"] <:+: kinds pre ∧ .closeBrace ∉ kinds pre

open Token.Lexeme (Maps StartsModel)

section
variable {last : Nat} {docs : List String} {row row' : List Char} {ls : List Lexeme}
  {below : List (List Kind)} {f : FieldDecl} {name : String}

/-- The grammar reads the name that a line maps its field to. -/
theorem FieldDecl.mapName?_of_maps {line : Nat}
    {r : Token.Reading FieldDecl (lineTokens line 0 (kinds ls :: below))}
    (h : FieldDecl.read last docs _ = .ok r) (hls : LexedLine row ls) (hmaps : Maps name ls) :
    Attribute.mapName? r.value.attributes = some name := by
  obtain ⟨pre, post, rfl, -, hmarker, hbrace⟩ := hmaps
  have hline := Token.isLine_kinds hls.lexemes hls.newline
  have hkinds : kinds (pre ++ (Notes.mapping name ++ post)) =
      kinds pre ++ (Kind.mapping name ++ kinds post) := by
    rw [kinds_append, kinds_append]
    rfl
  obtain ⟨after, htokens⟩ := Token.exists_lineTokens_cons line 0
    (kinds (pre ++ (Notes.mapping name ++ post))) below
  refine FieldDecl.mapName?_of_mapping h (v := kinds post ++ after.map (·.kind)) ?_ hmarker ?_
  · rw [htokens, List.map_append, Token.map_kind_onLine, hkinds]
    simp
  · rintro k hk (rfl | rfl | ⟨text, rfl⟩)
    · exact hline.newline (hkinds ▸ List.mem_append_left _ hk)
    · exact hbrace hk
    · obtain ⟨u, v, hpre⟩ := List.append_of_mem hk
      have hdoc := hline.doc u text (v ++ (Kind.mapping name ++ kinds post))
        (by simp [hkinds, hpre])
      simp [Kind.mapping] at hdoc

/-- A declaration at the head of a line starts with its name and its type. -/
theorem FieldDecl.exists_kinds_of_read {line : Nat}
    {r : Token.Reading FieldDecl (lineTokens line 0 (kinds ls :: below))}
    (h : FieldDecl.read last docs _ = .ok r) :
    ∃ type ks, kinds ls = .name r.value.name :: .name type :: ks := by
  obtain ⟨type, n, rest, htokens⟩ := FieldDecl.eq_of_read h
  have hname : [Kind.name r.value.name] <+: kinds ls :=
    Token.prefix_of_lineTokens_eq (show _ = [] ++ _ :: _ from htokens) List.nil_prefix rfl nofun
  obtain ⟨ks, hks⟩ := Token.prefix_of_lineTokens_eq
    (show _ = [⟨.name r.value.name, r.value.line⟩] ++ _ :: _ from htokens) hname rfl nofun
  exact ⟨type, ks, hks.symm⟩

theorem Notes.ofLine?_of_fieldNotes? {line : List Char} {notes : FieldNotes}
    (h : fieldNotes? name line = some notes) : ofLine? line = some (.field name notes) := by
  obtain ⟨note, hnote, hnotes⟩ := Option.bind_eq_some_iff.mp h
  rwa [LineNote.eq_of_notesOf? hnotes] at hnote

/-- The reader of notes takes a column name for the field that a line declares. -/
theorem Notes.columnName_fieldNotes? (hls : LexedLine row ls) {type : String} {ks : List Kind}
    (hkinds : kinds ls = .name name :: .name type :: ks) (hshown : Shown row row') :
    (fieldNotes? name row').bind (·.columnName) = columnName? row' := by
  obtain ⟨trimmed, hline⟩ := Notes.ofLine?_of_kinds hls.lexemes hls.newline hkinds hshown
  rw [fieldNotes?, hline]
  by_cases hempty : Notes.ofFieldLine row' trimmed = {}
  · rw [if_pos hempty]
    exact (congrArg FieldNotes.columnName hempty).symm
  · rw [if_neg hempty, Option.bind_some, LineNote.notesOf?, if_pos rfl]
    rfl

/-- **On a line that maps its field the two readers agree.** -/
theorem columnName?_eq_mapName? {line : Nat}
    {r : Token.Reading FieldDecl (lineTokens line 0 (kinds ls :: below))}
    (h : FieldDecl.read last docs _ = .ok r) (hls : LexedLine row ls) (hshown : Shown row row')
    (hmaps : Maps name ls) : columnName? row' = Attribute.mapName? r.value.attributes := by
  rw [FieldDecl.mapName?_of_maps h hls hmaps]
  obtain ⟨pre, post, rfl, hpre, -, -⟩ := hmaps
  refine Notes.columnName?_of_mapping hls.lexemes hls.newline hpre ?_ hshown
  rintro rfl
  obtain ⟨type, ks, hkinds⟩ := FieldDecl.exists_kinds_of_read h
  cases hkinds

end

/-! ### Where the reader of notes finds a declaration -/

namespace Layout

/-- The lines around a declaration are such that the reader of notes finds it: the header stands at
the head of a line, each line above that opens a model is followed by one that starts with a closing
brace, and no line of the model below that of the declaration starts with its name. And its line
maps the field. -/
structure Regular (p : Layout) (b : ModelBlock) (f : FieldDecl) : Prop extends Places p b f where
  opens : Lexeme.Opens b.name (Lexeme.pastClosing p.header)
  word : '.' ∉ b.name.toList
  closed : ∀ ls more, ls :: more <:+ p.above → StartsModel (Lexeme.pastClosing ls) →
    ∃ ls' ∈ more ++ [p.header], closes ls' = true
  last : ∀ ls ∈ p.below.takeWhile (!closes ·), (kinds ls).head? ≠ some (.name f.name)
  maps : ∃ name, Maps name p.line

variable {p : Layout} {rows : List (List Char)} {last : Nat} {blocks : List Block}
  {b : ModelBlock} {f : FieldDecl} {above : List (List Char)} {header : List Char}
  {between : List (List Char)} {row : List Char} {below : List (List Char)}

theorem Regular.heads (h : p.Regular b f) : p.Heads b where
  header := h.header
  opens := h.opens
  word := h.word
  closed := h.closed

/-- The notes of a declared field are those of its line. -/
theorem Cuts.exists_linesOf? (h : p.Cuts above header between row below)
    (hblocks : BlocksIn last p.tokens blocks) (hb : .model b ∈ blocks) (hf : f ∈ b.fields)
    (hnames : ((blocks.filterMap Block.model?).map (·.name)).Nodup) (hbname : Token.IsName b.name)
    (hfname : Token.IsName f.name) (hkinds : (kinds p.line).head? = some (.name f.name))
    (hline : ∀ line, Shown row line → fieldNotes? f.name line ≠ none) (hp : p.Regular b f) :
    ∃ lines line,
      (Notes.extract (Text.joinLines (above ++ header :: (between ++ row :: below)))).linesOf?
        b.name = some lines ∧ Shown row line ∧
      LineNote.fieldIn? lines f.name = fieldNotes? f.name line := by
  refine Notes.exists_linesOf?_extract h.newline (h.closes_above hblocks hp.heads)
    (fun line hshown => h.openedModel?_header hbname hp.heads hshown)
    (h.not_opens hblocks hb hnames hbname hp.heads) ?_ hline ?_
  · rw [List.forall_mem_append, List.forall_mem_singleton]
    constructor
    · intro l hl
      obtain ⟨ls, hmem, hls⟩ := exists_of_forall₂_left h.between l hl
      exact head?_ne_of_closes hls (closes_between h.lexed hblocks hb hf hp.toPlaces ls hmem)
    · refine head?_ne_of_closes h.line (Bool.eq_false_iff.mpr fun hcloses => ?_)
      rw [h.line.kinds_of_closes hcloses] at hkinds
      cases hkinds
  · intro l hl line hshown
    obtain ⟨ls, hmem, hls⟩ := exists_of_forall₂_left (forall₂_within h.below) l hl
    rw [Option.eq_none_iff_forall_ne_some]
    intro notes hnotes
    exact hp.last ls hmem (Notes.head?_kinds_of_ofLine? hls.lexemes hls.newline hshown
      (Notes.ofLine?_of_fieldNotes? hnotes) hfname)

end Layout

/-! ### The whole text -/

/-- **Where a declaration maps its field**, the notes give it the column name that the grammar
reads. -/
theorem Layout.Regular.columnOf?_eq_mapName? {p : Layout} {text : List Char} {blocks : List Block}
    {b : ModelBlock} {f : FieldDecl} (hp : p.Regular b f)
    (hrows : List.Forall₂ LexedLine (text.splitOn '\n') p.lines)
    (hblocks : Block.ofText (String.ofList text) = .ok blocks)
    (hnames : ((blocks.filterMap Block.model?).map (·.name)).Nodup)
    (hb : .model b ∈ blocks) (hf : f ∈ b.fields) :
    (Notes.extract text).columnOf? b.name f.name = Attribute.mapName? f.attributes := by
  obtain ⟨last, hin⟩ := Token.blocksIn_of_lexedLine hrows hblocks
  have hlexical : b.Lexical := Block.lexical_of_ofText hblocks _ hb
  obtain ⟨docs, r, hread, hvalue⟩ := Layout.exists_read hrows hin hb hf hp.toPlaces
  obtain ⟨type, ks, hkinds⟩ := FieldDecl.exists_kinds_of_read hread
  rw [hvalue] at hkinds
  obtain ⟨name, hmaps⟩ := hp.maps
  obtain ⟨above, header, between, row, below, hcut, hcuts⟩ := Layout.exists_cuts hrows
  have hagree (line : List Char) (hshown : Shown row line) :
      (fieldNotes? f.name line).bind (·.columnName) = Attribute.mapName? f.attributes := by
    rw [Notes.columnName_fieldNotes? hcuts.line hkinds hshown,
      columnName?_eq_mapName? hread hcuts.line hshown hmaps, hvalue]
  have hmapped : Attribute.mapName? f.attributes = some name := by
    rw [← hvalue, FieldDecl.mapName?_of_maps hread hcuts.line hmaps]
  have hline (line : List Char) (hshown : Shown row line) : fieldNotes? f.name line ≠ none := by
    intro hnone
    have hsome := hagree line hshown
    rw [hnone, hmapped] at hsome
    cases hsome
  obtain ⟨lines, line, hlines, hshown, hfield⟩ := hcuts.exists_linesOf? hin hb hf hnames
    hlexical.name (hlexical.fields f hf).name (by rw [hkinds]; rfl) hline hp
  have htext : Text.joinLines (above ++ header :: (between ++ row :: below)) = text := by
    rw [← hcut]
    exact List.intercalate_splitOn '\n'
  rw [htext] at hlines
  calc (Notes.extract text).columnOf? b.name f.name
      = (LineNote.fieldIn? lines f.name).bind (·.columnName) := by
        rw [Notes.columnOf?, hlines]
        rfl
    _ = (fieldNotes? f.name line).bind (·.columnName) := by rw [hfield]
    _ = Attribute.mapName? f.attributes := hagree line hshown

/-! ### Declarations without a mapping -/

/-- No line that starts with the name of the field maps it, behind a line that opens the model up to
the next that starts with a closing brace. -/
def LeavesUnmapped (lines : List (List Lexeme)) (model field : String) : Prop :=
  ∀ above header below, lines = above ++ header :: below →
    Lexeme.Opens model (Lexeme.pastClosing header) →
      ∀ ls ∈ below.takeWhile (!closes ·), (kinds ls).head? = some (.name field) → Unmapped ls

section
variable {rows : List (List Char)} {lines : List (List Lexeme)} {field : String}
  {notes : FieldNotes}

theorem Notes.columnName_of_ofLine? {line : List Char}
    (h : ofLine? line = some (.field field notes)) : notes.columnName = columnName? line := by
  simp only [ofLine?] at h
  split at h
  · cases h
  split at h
  · obtain ⟨_, -, heq⟩ := Option.map_eq_some_iff.mp h
    cases heq
  split at h
  · cases h
  · cases h
    rfl

/-- **Without a mapping** the notes give a field no column name. -/
theorem LeavesUnmapped.columnOf?_eq_none {model : String} (h : LeavesUnmapped lines model field)
    (hrows : List.Forall₂ LexedLine rows lines) (hne : rows ≠ [])
    (hfirst : ∀ ls ∈ lines.head?, closes ls = false) (hmodel : Token.IsName model)
    (hfield : Token.IsName field) :
    (Notes.extract (Text.joinLines rows)).columnOf? model field = none := by
  rw [Option.eq_none_iff_forall_ne_some]
  intro name hcolumn
  obtain ⟨noted, hnoted, hfound⟩ := Option.bind_eq_some_iff.mp hcolumn
  obtain ⟨notes, hnotes, hname⟩ := Option.bind_eq_some_iff.mp hfound
  obtain ⟨above, header, below, hlines, hopens, ls, hls, l, hlexed, hof⟩ :=
    Notes.exists_line_of_linesOf? hrows hne hfirst hmodel hnoted _ (LineNote.mem_of_fieldIn? hnotes)
  have hhead := Notes.head?_kinds_of_ofLine? hlexed.lexemes hlexed.newline (.inl rfl) hof hfield
  rw [Notes.columnName_of_ofLine? hof, Notes.columnName?_of_unmapped hlexed.lexemes hlexed.newline
    (h above header below hlines hopens ls hls hhead) (.inl rfl)] at hname
  cases hname

end

/-! ### Loaded fields -/

/-- **Grammar and notes agree on column names.** A loaded field has the column name that the first
`@map` of its declaration gives, if the declaration is regular and maps the field; and it has none
if the declaration gives none and no line maps the field. -/
theorem columnName_of_load {origin source : String} {fragment : Fragment}
    (h : Fragment.load origin source = .ok fragment) {blocks : List Block}
    (hblocks : Block.ofText (String.ofList (Text.dropMark source.toList)) = .ok blocks)
    {b : ModelBlock} {f : FieldDecl} (hb : .model b ∈ blocks) (hf : f ∈ b.fields)
    (hfields : (b.fields.map (·.name)).Nodup) {lines : List (List Lexeme)}
    (hlines : ((Text.dropMark source.toList).splitOn '\n').mapM lexemes = some lines)
    (hcolumn : (∃ p : Layout, p.lines = lines ∧ p.Regular b f) ∨
      Attribute.mapName? f.attributes = none ∧ LeavesUnmapped lines b.name f.name) :
    ∃ m f', fragment.schema.model? b.name = some m ∧ m.field? f.name = some f' ∧
      f'.columnName = Attribute.mapName? f.attributes := by
  have hrows := Token.forall₂_lexedLine hlines
  obtain ⟨declared, s, hdeclared, -, -⟩ := Fragment.exists_models_of_load h hblocks
  obtain ⟨m, f', hm, hf', hcolumnName⟩ := Fragment.exists_field_of_load h hblocks hb hfields hf
  refine ⟨m, f', hm, hf', ?_⟩
  rw [hcolumnName]
  rcases hcolumn with ⟨p, rfl, hp⟩ | ⟨hnone, hunmapped⟩
  · exact hp.columnOf?_eq_mapName? hrows hblocks (Block.nodup_models hdeclared) hb hf
  · have hlexical : b.Lexical := Block.lexical_of_ofText hblocks _ hb
    obtain ⟨last, hin⟩ := Token.blocksIn_of_lexedLine hrows hblocks
    have hfirst := closes_head hrows hin
    have htext := hunmapped.columnOf?_eq_none hrows (List.splitOn_ne_nil _ _) hfirst hlexical.name
      (hlexical.fields f hf).name
    rw [hnone, ← htext]
    exact congrArg (fun text => (Notes.extract text).columnOf? b.name f.name)
      (List.intercalate_splitOn '\n').symm

/-- A text with a relation over two lines and a mapping in front of a comment. -/
def postRows : List String :=
  ["model User \x7b", "  id Int", "\x7d", "model Post \x7b", "  by User @relation(",
    "    fields: [byId], references: [id])", "  byId Int @default(1) @map(\"by_id\") // the key",
    "\x7d"]

def postText : String :=
  String.ofList (Text.joinLines (postRows.map String.toList))

/-- The lines of the text, around that of the mapping. -/
def postLayout : Layout :=
  let lines := postRows.map fun row => (lexemes row.toList).getD []
  { above := lines.take 3
    header := lines[3]?.getD []
    between := (lines.drop 4).take 2
    line := lines[6]?.getD []
    below := lines.drop 7 }

theorem maps_postLayout : Maps "by_id" postLayout.line := by
  refine ⟨postLayout.line.take 12, postLayout.line.drop 17, by decide +kernel,
    ⟨fun n hn => ?_, by decide +kernel, by decide +kernel⟩, by decide +kernel, by decide +kernel⟩
  have hmap : ¬[Kind.marker, .name "map"] <:+: kinds (postLayout.line.take 12) := by decide +kernel
  exact hmap (List.IsInfix.trans ⟨[], [.openParen, .text n], rfl⟩ hn)

theorem regular_postLayout {b : ModelBlock} {f : FieldDecl} (hb : b.name = "Post")
    (hbline : b.line = 4) (hf : f.name = "byId") (hfline : f.line = 7) :
    postLayout.Regular b f where
  header := by
    rw [hbline]
    decide +kernel
  line := by
    rw [hfline]
    decide +kernel
  opens := by
    rw [hb]
    exact ⟨"model", [], .inl rfl, by decide +kernel⟩
  word := by
    rw [hb]
    decide
  closed := by
    have hclosed : ∀ i < postLayout.above.length, ∀ ls ∈ postLayout.above[i]?,
        StartsModel (Lexeme.pastClosing ls) →
          ∃ ls' ∈ postLayout.above.drop (i + 1) ++ [postLayout.header], closes ls' = true := by
      decide +kernel
    rintro ls more ⟨init, habove⟩
    have hbehind := hclosed init.length (by simp [← habove]) ls (by simp [← habove])
    rwa [← habove, List.drop_append, List.drop_of_length_le (Nat.le_succ _),
      Nat.add_sub_cancel_left] at hbehind
  last := by
    rw [hf]
    decide +kernel
  maps := ⟨"by_id", maps_postLayout⟩

theorem columnName_of_load_post : ∃ fragment blocks b f,
    Fragment.load "post.prisma" postText = .ok fragment ∧
    Block.ofText (String.ofList (Text.dropMark postText.toList)) = .ok blocks ∧
    .model b ∈ blocks ∧ f ∈ b.fields ∧ (b.fields.map (·.name)).Nodup ∧
    ((Text.dropMark postText.toList).splitOn '\n').mapM lexemes = some postLayout.lines ∧
    postLayout.Regular b f ∧ Attribute.mapName? f.attributes = some "by_id" ∧
    ∃ m f', fragment.schema.model? b.name = some m ∧ m.field? f.name = some f' ∧
      f'.columnName = Attribute.mapName? f.attributes := by
  have hchars : postText.toList = Text.joinLines (postRows.map String.toList) :=
    String.toList_ofList
  have hlines : ((Text.dropMark postText.toList).splitOn '\n').mapM lexemes =
      some postLayout.lines := by
    rw [hchars]
    decide +kernel
  have hdeclared : ((Block.ofText (String.ofList (Text.dropMark postText.toList))).toOption.map
      fun blocks => (blocks.filterMap Block.model?).map fun b =>
        (b.name, b.line, b.fields.map fun f => (f.name, f.line, Attribute.mapName? f.attributes))) =
      some [("User", 1, [("id", 2, none)]),
        ("Post", 4, [("by", 5, none), ("byId", 7, some "by_id")])] := by
    simp only [Block.ofText, Token.tokenize, hchars, String.toList_ofList]
    set_option synthInstance.maxSize 256 in decide +kernel
  have hschema : (Schema.ofText
      (String.ofList (Text.dropMark postText.toList))).toOption.isSome = true := by
    simp only [Schema.ofText, Block.ofText, Token.tokenize, hchars, String.toList_ofList]
    decide +kernel
  obtain ⟨s, hs⟩ := Option.isSome_iff_exists.mp hschema
  obtain ⟨fragment, hfragment⟩ := Fragment.exists_load "post.prisma" (eq_ok_of_toOption hs)
  obtain ⟨blocks, hblocks, hmodels⟩ := Option.map_eq_some_iff.mp hdeclared
  obtain ⟨_, models, hmem, -, hpost⟩ := List.map_eq_cons_iff.mp hmodels
  obtain ⟨b, _, rfl, hb, -⟩ := List.map_eq_cons_iff.mp hpost
  simp only [Prod.mk.injEq] at hb
  obtain ⟨hname, hline, hfields⟩ := hb
  have hnodup : (b.fields.map (·.name)).Nodup := by
    have hnames := congrArg (List.map Prod.fst) hfields
    rw [List.map_map] at hnames
    rw [show b.fields.map (·.name) = _ from hnames]
    decide
  obtain ⟨_, _, hbfields, -, hbyId⟩ := List.map_eq_cons_iff.mp hfields
  obtain ⟨f, _, rfl, hf, -⟩ := List.map_eq_cons_iff.mp hbyId
  simp only [Prod.mk.injEq] at hf
  obtain ⟨hfname, hfline, hmap⟩ := hf
  have hblock : .model b ∈ blocks := Block.mem_of_model? (by rw [hmem]; simp)
  have hfield : f ∈ b.fields := by rw [hbfields]; simp
  have hregular := regular_postLayout hname hline hfname hfline
  have hblocks := eq_ok_of_toOption hblocks
  exact ⟨fragment, blocks, b, f, hfragment, hblocks, hblock, hfield, hnodup, hlines, hregular, hmap,
    columnName_of_load hfragment hblocks hblock hfield hnodup hlines
      (.inl ⟨postLayout, rfl, hregular⟩)⟩

/-! ### Layouts on which the two readers differ -/

/-- The two readers of a text agree on the column name of each field. -/
def ColumnsAgree (source : String) : Prop :=
  ∀ origin fragment blocks, Fragment.load origin source = .ok fragment →
    Block.ofText (String.ofList (Text.dropMark source.toList)) = .ok blocks →
      ∀ b f, .model b ∈ blocks → f ∈ b.fields → (b.fields.map (·.name)).Nodup →
        ∃ m f', fragment.schema.model? b.name = some m ∧ m.field? f.name = some f' ∧
          f'.columnName = Attribute.mapName? f.attributes

/-- The column names of the last field of the first model: as it is loaded, and as its declaration
gives it. -/
def columnNames? (source : String) : Option (Option String × Option String) := do
  let fragment ← (Fragment.load "a.prisma" source).toOption
  let blocks ← (Block.ofText (String.ofList (Text.dropMark source.toList))).toOption
  let b ← (blocks.filterMap Block.model?).head?.filter fun b => (b.fields.map (·.name)).Nodup
  let f ← b.fields.getLast?
  let f' ← (fragment.schema.model? b.name).bind (·.field? f.name)
  return (f'.columnName, Attribute.mapName? f.attributes)

theorem not_columnsAgree_of_ne {source : String} {names : Option String × Option String}
    (h : columnNames? source = some names) (hne : names.1 ≠ names.2) : ¬ColumnsAgree source := by
  intro hagree
  obtain ⟨fragment, hload, h⟩ := Option.bind_eq_some_iff.mp h
  obtain ⟨blocks, hblocks, h⟩ := Option.bind_eq_some_iff.mp h
  obtain ⟨b, hb, h⟩ := Option.bind_eq_some_iff.mp h
  obtain ⟨f, hf, h⟩ := Option.bind_eq_some_iff.mp h
  obtain ⟨f', hf', h⟩ := Option.bind_eq_some_iff.mp h
  cases h
  obtain ⟨hhead, hnodup⟩ := Option.filter_eq_some_iff.mp hb
  obtain ⟨m, g, hm, hg, hcolumn⟩ := hagree _ fragment blocks (eq_ok_of_toOption hload)
    (eq_ok_of_toOption hblocks) b f (Block.mem_of_model? (List.mem_of_head? hhead))
    (List.mem_of_getLast? hf) (of_decide_eq_true hnodup)
  rw [hm, Option.bind_some, hg] at hf'
  cases hf'
  exact hne hcolumn

/-- Texts of one mapping, each of which lacks one condition on the layout. -/
def irregularTexts : List String := [
  -- Blanks inside the parentheses.
  "model A \x7b\n  id Int @map( \"x\" )\n\x7d\n",
  -- A declaration on the line of the header.
  "model A \x7b id Int @map(\"x\")\n\x7d\n",
  -- A mapping on another line than its declaration.
  "model A \x7b\n  id Int @default(\n    1) @map(\"x\")\n\x7d\n",
  -- A line of the model, below the declaration, that starts with its name.
  "model A \x7b\n  id Int @map(\"x\") @default([\n    id , 1]) @db.Text\n\x7d\n",
  -- A model that is not closed at the head of a line.
  "model A \x7b\n  id Int \x7d\nmodel B \x7b\n  id Int @map(\"x\")\n\x7d\n",
  -- A header that does not stand at the head of its line.
  "enum E \x7b X \x7d model A \x7b\n  id Int @map(\"x\")\n\x7d\n",
  -- A literal that goes on behind a line break.
  "model A \x7b\n  s String @default(\"\\\n\x7d\")\n  id Int @map(\"x\")\n\x7d\n"]

theorem not_columnsAgree : ¬∃ source ∈ irregularTexts, ColumnsAgree source := by
  have hnames : ∀ source ∈ irregularTexts,
      ∃ names ∈ columnNames? source, names.1 ≠ names.2 := by
    simp only [irregularTexts, List.forall_mem_cons]
    refine ⟨?_, ?_, ?_, ?_, ?_, ?_, ?_, List.forall_mem_nil _⟩ <;> decide +kernel
  rintro ⟨source, hsource, hagree⟩
  obtain ⟨names, hfound, hne⟩ := hnames source hsource
  exact not_columnsAgree_of_ne hfound hne hagree

end Datamodel
