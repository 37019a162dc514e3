import Datamodel.Fragment
import Datamodel.Proofs.Block.Reading
import Datamodel.Proofs.Schema.Lines
import Datamodel.Proofs.Text.Lines

/-! Reading the blocks of a schema text back.

A block is printed as documentation, a line with its keyword and name, an indented body and a line
with the closing brace. If the body can be read back, so can the block (`BlockLines.of_body`), and
a text of such blocks is read as all of them (`Block.ofText_unlines`). -/

namespace Datamodel

open Token (Kind Lexes LexesLine Balanced Answers IsName Stops onLine onLine_cons_append layout
  layout_append)
open Printer (unlines openLines blockLines docLines isBlankLine splitLines)

/-! ### Documentation -/

/-- A documentation text none of whose lines ends with a blank. -/
def IsDocumentation (documentation : Option String) : Prop :=
  ∀ text ∈ documentation, ∀ line ∈ splitLines text, Text.trimRight line.toList = line.toList

/-- The lines of a documentation text. -/
def docTexts : Option String → List String
  | none => []
  | some text => splitLines text

/-- A documentation line as it is printed. -/
def docLine (line : String) : String := if line.isEmpty then "///" else "/// " ++ line

theorem docLines_eq (documentation : Option String) :
    docLines documentation = (docTexts documentation).map docLine := by
  cases documentation <;> rfl

theorem joinDocs_docTexts (documentation : Option String) :
    joinDocs (docTexts documentation) = documentation := by
  cases documentation with
  | none => rfl
  | some text =>
    have hne : splitLines text ≠ [] := by simp [splitLines]
    have hjoin : "\n".intercalate (splitLines text) = text := by
      rw [← String.toList_inj, String.toList_intercalate, splitLines, List.map_map]
      simp [Function.comp_def]
    rw [joinDocs, docTexts, hjoin]
    simp [hne]

theorem lexesLine_docLine {line : String} (hline : Text.trimRight line.toList = line.toList)
    (hn : '\n' ∉ line.toList) : LexesLine (docLine line).toList [.doc line] := by
  rw [docLine]
  split
  · next he =>
    rw [String.isEmpty_iff.mp he]
    exact LexesLine.comment (s := ['/']) (by decide)
  · have h := LexesLine.comment (s := '/' :: ' ' :: line.toList) (by simpa using hn)
    simpa [Kind.ofComment, hline] using h

theorem mem_docTexts {documentation : Option String} (h : IsDocumentation documentation)
    {line : String} (hline : line ∈ docTexts documentation) :
    LexesLine (docLine line).toList [.doc line] := by
  cases documentation with
  | none => cases hline
  | some text =>
    refine lexesLine_docLine (h text rfl line hline) ?_
    obtain ⟨s, hs, rfl⟩ := List.mem_map.mp hline
    rw [String.toList_ofList]
    exact Text.not_mem_of_mem_splitOn hs

theorem docLine_nonblank (line : String) : isBlankLine (docLine line) = false := by
  rw [docLine]
  split
  · decide
  · simp [isBlankLine, Text.allBlank, show Text.isBlank '/' = false by decide]

/-- Documentation lines in a body wait for the next item. -/
theorem BodyLines.docs {α β : Type} {item : ItemReader α} {Means : α → β → Prop}
    {docs lines : List String} {bs : List β} {texts : List String}
    (htexts : ∀ line ∈ texts, LexesLine (docLine line).toList [.doc line])
    (h : BodyLines item Means (docs ++ texts) lines bs) :
    BodyLines item Means docs (texts.map docLine ++ lines) bs := by
  induction texts generalizing docs with
  | nil => simpa using h
  | cons text texts ih =>
    refine .doc (docLine_nonblank text) (htexts text List.mem_cons_self) (ih ?_ ?_)
    · exact fun line hline => htexts line (List.mem_cons_of_mem _ hline)
    · rwa [List.append_assoc]

/-! ### Blocks -/

section
variable {last n n' : Nat} {name : String} {ts rest : List Token}

/-- The block that a header and the items of a body make. -/
structure Block.Maker (α : Type) where
  keyword : String
  make : (docs : List String) → (name : String) → (line : Nat) → List α → Block

/-- The reader of a kind of blocks goes on with the body after the header. -/
def Block.Maker.Reads {α : Type} (m : Block.Maker α) (item : ItemReader α) : Prop :=
  ∀ {last name n n' docs line ts xs rest},
    Answers (Block.readBody last name (item last) [] ts) xs rest →
    Answers (Block.read last m.keyword docs line (⟨.name name, n⟩ :: ⟨.openBrace, n'⟩ :: ts))
      (m.make docs name line xs) rest

/-- The `model` or `view` block of given items. -/
def ModelBlock.ofItems (isView : Bool) (docs : List String) (name : String) (line : Nat)
    (items : List ModelItem) : ModelBlock where
  name
  isView
  fields := items.filterMap ModelItem.field?
  attributes := items.filterMap ModelItem.attr?
  documentation := joinDocs docs
  line

def EnumBlock.ofItems (docs : List String) (name : String) (line : Nat) (items : List EnumItem) :
    EnumBlock where
  name
  values := items.filterMap EnumItem.value?
  attributes := items.filterMap EnumItem.attr?
  documentation := joinDocs docs
  line

/-- The makers of the five kinds of blocks. -/
def Block.Maker.model (isView : Bool) : Block.Maker ModelItem where
  keyword := if isView then "view" else "model"
  make := fun docs name line items => .model (ModelBlock.ofItems isView docs name line items)

def Block.Maker.enum : Block.Maker EnumItem where
  keyword := "enum"
  make := fun docs name line items => .enum (EnumBlock.ofItems docs name line items)

def Block.Maker.datasource : Block.Maker Property where
  keyword := "datasource"
  make := fun _ name line items => .datasource ⟨name, items, line⟩

def Block.Maker.generator : Block.Maker Property where
  keyword := "generator"
  make := fun _ name line items => .generator ⟨name, items, line⟩

theorem ModelBlock.read_of_body (isView : Bool) (docs : List String) (line : Nat)
    {items : List ModelItem}
    (h : Answers (Block.readBody last name (ModelItem.read last) [] ts) items rest) :
    Answers (ModelBlock.read last isView docs line (⟨.name name, n⟩ :: ⟨.openBrace, n'⟩ :: ts))
      (ofItems isView docs name line items) rest := by
  obtain ⟨hlt, h⟩ := h
  refine ⟨by simp; omega, ?_⟩
  unfold ModelBlock.read
  simp only [Block.readOpening, Token.ident, Token.expect, if_pos, h, bind, Except.bind, pure,
    Except.pure]
  rfl

theorem EnumBlock.read_of_body (docs : List String) (line : Nat) {items : List EnumItem}
    (h : Answers (Block.readBody last name (EnumItem.read last) [] ts) items rest) :
    Answers (EnumBlock.read last docs line (⟨.name name, n⟩ :: ⟨.openBrace, n'⟩ :: ts))
      (ofItems docs name line items) rest := by
  obtain ⟨hlt, h⟩ := h
  refine ⟨by simp; omega, ?_⟩
  unfold EnumBlock.read
  simp only [Block.readOpening, Token.ident, Token.expect, if_pos, h, bind, Except.bind, pure,
    Except.pure]
  rfl

theorem ConfigBlock.read_of_body (line : Nat) {items : List Property}
    (h : Answers (Block.readBody last name (Property.read last) [] ts) items rest) :
    Answers (ConfigBlock.read last line (⟨.name name, n⟩ :: ⟨.openBrace, n'⟩ :: ts))
      ⟨name, items, line⟩ rest := by
  obtain ⟨hlt, h⟩ := h
  refine ⟨by simp; omega, ?_⟩
  unfold ConfigBlock.read
  simp only [Block.readOpening, Token.ident, Token.expect, if_pos, h, bind, Except.bind, pure,
    Except.pure]

theorem Block.reads_model (isView : Bool) : (Maker.model isView).Reads ModelItem.read := by
  intro last name n n' docs line ts xs rest h
  obtain ⟨hlt, h⟩ := ModelBlock.read_of_body isView docs line h
  refine ⟨hlt, ?_⟩
  cases isView
  all_goals
    unfold Block.read
    simp only [Maker.model, h, bind, Except.bind]
    rfl

theorem Block.reads_enum : Maker.enum.Reads EnumItem.read := by
  intro last name n n' docs line ts xs rest h
  obtain ⟨hlt, h⟩ := EnumBlock.read_of_body docs line h
  refine ⟨hlt, ?_⟩
  unfold Block.read
  simp only [Maker.enum, h, bind, Except.bind]
  rfl

theorem Block.reads_datasource : Maker.datasource.Reads Property.read := by
  intro last name n n' docs line ts xs rest h
  obtain ⟨hlt, h⟩ := ConfigBlock.read_of_body line h
  refine ⟨hlt, ?_⟩
  unfold Block.read
  simp only [Maker.datasource, h, bind, Except.bind]
  rfl

theorem Block.reads_generator : Maker.generator.Reads Property.read := by
  intro last name n n' docs line ts xs rest h
  obtain ⟨hlt, h⟩ := ConfigBlock.read_of_body line h
  refine ⟨hlt, ?_⟩
  unfold Block.read
  simp only [Maker.generator, h, bind, Except.bind]
  rfl

end

/-- `ls` are the lines of a block of which `P` holds. -/
def BlockLines (ls : List String) (P : Block → Prop) : Prop :=
  ∃ kss, List.Forall₂ LexesLine (ls.map String.toList) kss ∧ ∀ last start rest, ∃ b, P b ∧
    Block.readAll last [] (layout start kss ++ rest) =
      (Block.readAll last [] rest).map (b :: ·)

theorem BlockLines.mono {ls : List String} {P Q : Block → Prop} (h : BlockLines ls P)
    (hPQ : ∀ b, P b → Q b) : BlockLines ls Q := by
  obtain ⟨kss, hkss, h⟩ := h
  refine ⟨kss, hkss, fun last start rest => ?_⟩
  obtain ⟨b, hb, hread⟩ := h last start rest
  exact ⟨b, hPQ b hb, hread⟩

section
variable {last : Nat} {docs : List String} {rest : List Token}

theorem Block.readAll_newline (n : Nat) :
    readAll last docs (⟨.newline, n⟩ :: rest) = readAll last docs rest := by
  rw [readAll]

theorem Block.readAll_docs (start : Nat) (texts : List String) :
    readAll last docs (layout start (texts.map fun text => [.doc text]) ++ rest) =
      readAll last (docs ++ texts) rest := by
  induction texts generalizing start docs with
  | nil => simp [layout]
  | cons text texts ih =>
    have htokens : layout start ((text :: texts).map fun text => [.doc text]) ++ rest =
        ⟨.doc text, start⟩ :: ⟨.newline, start⟩ ::
          (layout (start + 1) (texts.map fun text => [.doc text]) ++ rest) := rfl
    rw [htokens, readAll, readAll_newline, ih, List.append_assoc]
    rfl

theorem Block.readAll_block {keyword : String} {n : Nat} {ts : List Token} {b : Block}
    (h : Answers (Block.read last keyword docs n ts) b rest) :
    readAll last docs (⟨.name keyword, n⟩ :: ts) = (readAll last [] rest).map (b :: ·) := by
  obtain ⟨hlt, h⟩ := h
  rw [readAll, h]

end

section
variable {α β : Type} {item : ItemReader α} {Means : α → β → Prop} {lines : List String}
  {bs : List β} {name : String} {documentation : Option String}

/-- What stands before the closing brace of a block is read back, if its body is. -/
theorem BodyLines.reads_open (m : Block.Maker α) (hm : m.Reads item) (hkeyword : IsName m.keyword)
    (hname : IsName name) (hdoc : IsDocumentation documentation)
    (h : BodyLines item Means [] lines bs) :
    ∃ kss, List.Forall₂ LexesLine
        ((openLines m.keyword name lines documentation).map String.toList) kss ∧
      ∀ last start stop rest, ∃ line xs, List.Forall₂ Means xs bs ∧
        Block.readAll last [] (layout start kss ++ ⟨.closeBrace, stop⟩ :: rest) =
          (Block.readAll last [] rest).map (m.make (docTexts documentation) name line xs :: ·) := by
  obtain ⟨kss, hkss, hbody⟩ := h.reads
  have hheader : LexesLine (m.keyword ++ " " ++ name ++ " \x7b").toList
      [.name m.keyword, .name name, .openBrace] := by
    refine LexesLine.of_lexes ?_ ?_
    · have := Lexes.name hkeyword (Stops.cons (by decide)) (Lexes.space
        (Lexes.name hname (Stops.cons (by decide)) (Lexes.space (Lexes.openBrace .nil))))
      simpa using this
    · exact ((Balanced.nil.cons fun _ => rfl).cons fun _ => rfl).cons fun _ => rfl
  have hfilter : lines.filter (!isBlankLine ·) = lines :=
    List.filter_eq_self.mpr fun line hline => by rw [h.nonblank line hline]; rfl
  refine ⟨(docTexts documentation).map (fun text => [.doc text]) ++
    [.name m.keyword, .name name, .openBrace] :: kss, ?_, ?_⟩
  · rw [openLines, docLines_eq, hfilter, List.map_append, List.map_cons, List.map_map,
      List.map_map]
    refine List.rel_append ?_ (.cons hheader hkss)
    exact forall₂_map_same.mpr fun line hline => mem_docTexts hdoc hline
  · intro last start stop rest
    let n := start + ((docTexts documentation).map fun text => [Kind.doc text]).length
    obtain ⟨xs, hread, hmeans⟩ := hbody last name (n + 1) stop rest
    refine ⟨n, xs, hmeans, ?_⟩
    have htokens : layout n ([.name m.keyword, .name name, .openBrace] :: kss) ++
          ⟨.closeBrace, stop⟩ :: rest =
        ⟨.name m.keyword, n⟩ :: ⟨.name name, n⟩ :: ⟨.openBrace, n⟩ :: ⟨.newline, n⟩ ::
          (layout (n + 1) kss ++ ⟨.closeBrace, stop⟩ :: rest) := by
      simp [layout, onLine]
    rw [layout_append, List.append_assoc, Block.readAll_docs, List.nil_append, htokens,
      Block.readAll_block (hm (Block.readBody_newline hread))]

/-- **A block is read back**, if its body is. -/
theorem BlockLines.of_body (m : Block.Maker α) (hm : m.Reads item) (hkeyword : IsName m.keyword)
    (hname : IsName name) (hdoc : IsDocumentation documentation)
    (h : BodyLines item Means [] lines bs) :
    BlockLines (blockLines m.keyword name lines documentation) fun b =>
      ∃ line xs, b = m.make (docTexts documentation) name line xs ∧ List.Forall₂ Means xs bs := by
  obtain ⟨kss, hkss, hread⟩ := h.reads_open m hm hkeyword hname hdoc
  have hclose : LexesLine "\x7d".toList [.closeBrace] :=
    LexesLine.of_lexes (Lexes.closeBrace .nil) (Balanced.nil.cons fun _ => rfl)
  refine ⟨kss ++ [[.closeBrace]], ?_, fun last start rest => ?_⟩
  · rw [Printer.blockLines_eq, List.map_append]
    exact List.rel_append hkss (.cons hclose .nil)
  · let stop := start + kss.length
    obtain ⟨line, xs, hmeans, hread⟩ := hread last start stop (⟨.newline, stop⟩ :: rest)
    have htokens : layout start (kss ++ [[.closeBrace]]) ++ rest =
        layout start kss ++ ⟨.closeBrace, stop⟩ :: ⟨.newline, stop⟩ :: rest := by
      simp [layout_append, layout, onLine, stop]
    refine ⟨_, ⟨line, xs, rfl, hmeans⟩, ?_⟩
    rw [htokens, hread, Block.readAll_newline]

end

/-! ### A text of one block -/

theorem Text.dropMark_cons {c : Char} {s : List Char} (h : c ≠ '\uFEFF') :
    dropMark (c :: s) = c :: s := by
  unfold dropMark
  split
  · next heq =>
    cases heq
    exact absurd rfl h
  · rfl

/-- No byte order mark stands at the head of a text that is read as tokens. -/
theorem Token.dropMark_of_scan {s : List Char} {ts : List Token} (h : scan 1 0 s = .ok ts) :
    Text.dropMark s = s := by
  cases s with
  | nil => rfl
  | cons c s =>
    refine Text.dropMark_cons ?_
    rintro rfl
    rw [scan] at h
    cases h

/-- **A text of one block is read back**, if its body is. The closing brace ends the text. -/
theorem Block.ofText_block {α β : Type} {item : ItemReader α} {Means : α → β → Prop}
    {lines : List String} {bs : List β} {name : String} (m : Block.Maker α) (hm : m.Reads item)
    (hkeyword : IsName m.keyword) (hname : IsName name) (h : BodyLines item Means [] lines bs) :
    ∃ line xs, List.Forall₂ Means xs bs ∧
      ofText (Printer.block m.keyword name lines none) = .ok [m.make [] name line xs] := by
  have hdocumentation : IsDocumentation none := nofun
  obtain ⟨kss, hkss, hread⟩ := h.reads_open m hm hkeyword hname hdocumentation
  have hmark : Text.dropMark (Printer.block m.keyword name lines none).toList =
      (Printer.block m.keyword name lines none).toList := by
    obtain ⟨c, s, hs, hc, -⟩ := hkeyword
    have hne : c ≠ '\uFEFF' := by rintro rfl; exact absurd hc (by decide)
    simp [Printer.block, docLines, hs, Text.dropMark_cons hne]
  let stop := 1 + kss.length
  have hclose : Token.scan stop 0 "\x7d".toList = .ok [⟨.closeBrace, stop⟩] := by
    have := Lexes.closeBrace .nil stop 0 [] Stops.nil
    rwa [Token.scan] at this
  have hscan : Token.tokenize (Printer.block m.keyword name lines none) =
      .ok (layout 1 kss ++ [⟨.closeBrace, stop⟩]) := by
    rw [Token.tokenize, hmark, Printer.block_eq_unlines, String.toList_append,
      Printer.toList_unlines, Token.scan_lines_append hkss, hclose]
    rfl
  obtain ⟨line, xs, hmeans, hread⟩ :=
    hread (Token.lastLine (layout 1 kss ++ [⟨.closeBrace, stop⟩])) 1 stop []
  refine ⟨line, xs, hmeans, ?_⟩
  rw [ofText, hscan]
  show readAll _ [] (layout 1 kss ++ [⟨.closeBrace, stop⟩]) = _
  rw [hread, readAll]
  rfl

/-! ### The whole text -/

section
variable {γ : Type} {Means : Block → γ → Prop} {blocks : List (List String)} {cs : List γ}

theorem Block.readAll_blocks
    (h : List.Forall₂ (fun ls c => BlockLines ls (Means · c)) blocks cs) :
    ∃ kss, List.Forall₂ LexesLine ((blocks.flatMap ("" :: ·)).map String.toList) kss ∧
      ∀ last start, ∃ bs, readAll last [] (layout start kss) = .ok bs ∧
        List.Forall₂ Means bs cs := by
  induction h with
  | nil =>
    refine ⟨[], .nil, fun last start => ⟨[], ?_, .nil⟩⟩
    rw [layout, readAll]
  | @cons ls c blocks cs hls _ ih =>
    obtain ⟨kss, hkss, ih⟩ := ih
    obtain ⟨kss', hkss', hls⟩ := hls
    refine ⟨[] :: (kss' ++ kss), ?_, fun last start => ?_⟩
    · rw [List.flatMap_cons, List.cons_append, List.map_cons, List.map_append]
      exact .cons LexesLine.empty (List.rel_append hkss' hkss)
    · obtain ⟨bs, hbs, hmeans⟩ := ih last (start + 1 + kss'.length)
      obtain ⟨b, hb, hread⟩ := hls last (start + 1) (layout (start + 1 + kss'.length) kss)
      refine ⟨b :: bs, ?_, .cons hb hmeans⟩
      have htokens : layout start ([] :: (kss' ++ kss)) = ⟨.newline, start⟩ ::
          (layout (start + 1) kss' ++ layout (start + 1 + kss'.length) kss) := by
        rw [layout, layout_append]
        rfl
      rw [htokens, readAll_newline, hread, hbs]
      rfl

theorem lexesLine_banner : LexesLine Printer.banner.toList [] :=
  LexesLine.comment (s := Printer.banner.toList.drop 2) (by decide)

/-- **The blocks of a text are read back**, if each of them is. -/
theorem Block.ofText_unlines
    (h : List.Forall₂ (fun ls c => BlockLines ls (Means · c)) blocks cs) :
    ∃ bs, ofText (unlines (Printer.banner :: blocks.flatMap ("" :: ·))) = .ok bs ∧
      List.Forall₂ Means bs cs := by
  obtain ⟨kss, hkss, hread⟩ := readAll_blocks h
  obtain ⟨bs, hbs, hmeans⟩ := hread (Token.lastLine (layout 1 ([] :: kss))) 2
  have hmark : Text.dropMark (unlines (Printer.banner :: blocks.flatMap ("" :: ·))).toList =
      (unlines (Printer.banner :: blocks.flatMap ("" :: ·))).toList := by
    rw [Printer.unlines_cons, String.append_assoc, String.toList_append]
    rfl
  have hscan : Token.tokenize (unlines (Printer.banner :: blocks.flatMap ("" :: ·))) =
      .ok (layout 1 ([] :: kss)) := by
    rw [Token.tokenize, hmark, Printer.toList_unlines]
    exact Token.scan_lines (.cons lexesLine_banner hkss) 1
  refine ⟨bs, ?_, hmeans⟩
  rw [ofText, hscan]
  show readAll _ [] (⟨.newline, 1⟩ :: layout 2 kss) = _
  rw [readAll_newline, hbs]

end

end Datamodel
