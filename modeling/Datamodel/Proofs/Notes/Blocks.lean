import Datamodel.Notes
import Datamodel.Proofs.Schema.Blocks
import Datamodel.Proofs.Text.Lines
import Datamodel.Proofs.Text.Search
import Mathlib.Data.List.ReduceOption

/-! The storage notes of a text of blocks.

A block that opens a model gives the notes of its lines, and any other block gives none, as long as
none of its lines is taken for one that opens a model (`BlockMeans`). The notes of a text of blocks
are those of the blocks (`extract_unlines`). -/

namespace Datamodel.Notes

open Printer (unlines blockLines docLines isBlankLine banner)
open Text (after? after?_eq_some_iff allBlank dropReturn dropWhile_append_of_stop exists_trimLeft
  isBlank isWordChar joinLines span_append trimLeft)

/-! ### The line that opens a model -/

/-- A name that the reader of notes takes as a whole. -/
def IsWord (name : List Char) : Prop :=
  name ≠ [] ∧ ∀ c ∈ name, isWordChar c = true ∧ isBlank c = false

/-- The code points of blanks. -/
theorem mem_of_isBlank {c : Char} (h : isBlank c = true) : c.toNat ∈
    List.range' 0x9 5 ++ [0x20, 0x85, 0xA0, 0x1680] ++ List.range' 0x2000 11 ++
      [0x2028, 0x2029, 0x202F, 0x205F, 0x3000] := by
  simp only [isBlank, Bool.or_eq_true, Bool.and_eq_true, decide_eq_true_eq, beq_iff_eq] at h
  simp only [List.mem_append, List.mem_range'_1, List.mem_cons, List.not_mem_nil]
  omega

/-- No blank is part of a word. -/
theorem isWordChar_of_isBlank {c : Char} (h : isBlank c = true) : isWordChar c = false := by
  have hall : ∀ n ∈ List.range' 0x9 5 ++ [0x20, 0x85, 0xA0, 0x1680] ++ List.range' 0x2000 11 ++
      [0x2028, 0x2029, 0x202F, 0x205F, 0x3000], isWordChar (Char.ofNat n) = false := by
    decide +kernel
  have hc := hall c.toNat (mem_of_isBlank h)
  rwa [Char.ofNat_toNat] at hc

theorem trimLeft_append {b s : List Char} (hb : allBlank b = true)
    (hs : ∀ c ∈ s.head?, isBlank c = false) : trimLeft (b ++ s) = s :=
  dropWhile_append_of_stop (by simpa [allBlank] using hb) hs

/-- A line that opens a model, whatever blanks stand in it. -/
theorem openedModel?_of_parts {keyword : String} {name b b' b'' : List Char}
    (hkeyword : keyword = "model" ∨ keyword = "view") (hname : IsWord name)
    (hb : allBlank b = true) (hb' : allBlank b' = true) (hgap : b' ≠ [])
    (hb'' : allBlank b'' = true) (s : List Char) :
    openedModel? (b ++ (keyword.toList ++ (b' ++ (name ++ (b'' ++ '{' :: s))))) =
      some (String.ofList name) := by
  obtain ⟨hne, hword⟩ := hname
  have hblanks : Text.span isBlank (b' ++ (name ++ (b'' ++ '{' :: s))) =
      (b', name ++ (b'' ++ '{' :: s)) := by
    refine span_append (by simpa [allBlank] using hb') ?_
    obtain ⟨c, name', rfl⟩ := List.exists_cons_of_ne_nil hne
    rintro _ ⟨⟩
    exact (hword c List.mem_cons_self).2
  have hwords : Text.span isWordChar (name ++ (b'' ++ '{' :: s)) = (name, b'' ++ '{' :: s) := by
    refine span_append (fun c hc => (hword c hc).1) ?_
    cases b'' with
    | nil => rintro _ ⟨⟩; decide
    | cons c b'' =>
      simp only [allBlank, List.all_cons, Bool.and_eq_true] at hb''
      rintro _ ⟨⟩
      exact isWordChar_of_isBlank hb''.1
  have hopen (r : List Char) : (after? "model".toList (trimLeft (b ++ (keyword.toList ++ r)))).or
      (after? "view".toList (trimLeft (b ++ (keyword.toList ++ r)))) = some r := by
    rcases hkeyword with rfl | rfl
    · rw [trimLeft_append hb (by rintro _ ⟨⟩; decide)]
      rfl
    · rw [trimLeft_append hb (by rintro _ ⟨⟩; decide)]
      rfl
  have hbrace : after? ['{'] (trimLeft (b'' ++ '{' :: s)) = some s := by
    rw [trimLeft_append hb'' (by rintro _ ⟨⟩; decide)]
    rfl
  have hne' : name.isEmpty = false := by simpa using hne
  have hgap' : b'.isEmpty = false := by simpa using hgap
  simp only [openedModel?, hopen, Option.bind_eq_bind, Option.bind_some, hblanks, hwords, hne',
    hgap', Bool.or_self, Bool.false_eq_true, if_false, hbrace]
  rfl

theorem openedModel?_header {keyword : String} {name : List Char}
    (hkeyword : keyword = "model" ∨ keyword = "view") (hname : IsWord name) :
    openedModel? (keyword.toList ++ ' ' :: (name ++ [' ', '{'])) = some (String.ofList name) :=
  @openedModel?_of_parts keyword name [] [' '] [' '] hkeyword hname rfl (by decide) nofun
    (by decide) []

/-- The parts of a line that opens a model. -/
theorem exists_parts_of_openedModel? {line : List Char} {n : String}
    (h : openedModel? line = some n) :
    ∃ keyword b b' s, (keyword = "model".toList ∨ keyword = "view".toList) ∧
      trimLeft line = keyword ++ (b ++ (n.toList ++ (b' ++ '{' :: s))) ∧
      b ≠ [] ∧ allBlank b = true ∧ allBlank b' = true ∧ n.toList ≠ [] ∧
      (∀ c ∈ n.toList, isWordChar c = true) ∧ ∀ c ∈ n.toList.head?, isBlank c = false := by
  simp only [openedModel?, Option.bind_eq_bind, Option.bind_eq_some_iff, Option.or_eq_some_iff,
    after?_eq_some_iff] at h
  obtain ⟨s, hs, h⟩ := h
  split at h
  · cases h
  next hne =>
  rw [Bool.or_eq_true, not_or, List.isEmpty_iff, List.isEmpty_iff] at hne
  obtain ⟨s', hs', h⟩ := Option.bind_eq_some_iff.mp h
  rw [after?_eq_some_iff] at hs'
  simp only [Text.span] at hne hs'
  obtain rfl : String.ofList ((s.dropWhile isBlank).takeWhile isWordChar) = n := Option.some.inj h
  have hkeyword : ∃ keyword, (keyword = "model".toList ∨ keyword = "view".toList) ∧
      trimLeft line = keyword ++ s :=
    hs.elim (fun h => ⟨_, .inl rfl, h⟩) fun h => ⟨_, .inr rfl, h.2⟩
  obtain ⟨keyword, hkeyword, hline⟩ := hkeyword
  obtain ⟨b', hb', hrest⟩ := exists_trimLeft ((s.dropWhile isBlank).dropWhile isWordChar)
  refine ⟨keyword, s.takeWhile isBlank, b', s', hkeyword, ?_, hne.1, ?_, hb', ?_, ?_, ?_⟩
  · rw [String.toList_ofList, hline]
    rw [hs'] at hrest
    show _ = keyword ++ (_ ++ (_ ++ (b' ++ (['{'] ++ s'))))
    rw [← hrest, List.takeWhile_append_dropWhile, List.takeWhile_append_dropWhile]
  · simp [allBlank]
  · rw [String.toList_ofList]
    exact hne.2
  · rw [String.toList_ofList]
    exact List.all_eq_true.mp List.all_takeWhile
  · rw [String.toList_ofList]
    intro c hc
    refine Text.head?_dropWhile isBlank s c ?_
    rw [List.head?_takeWhile] at hc
    exact (Option.mem_filter_iff.mp hc).1

/-- A line that opens a model starts with a keyword, blanks and a word character. -/
theorem exists_of_openedModel? {line : List Char} {n : String} (h : openedModel? line = some n) :
    ∃ keyword b c s, (keyword = "model".toList ∨ keyword = "view".toList) ∧
      trimLeft line = keyword ++ (b ++ c :: s) ∧ b ≠ [] ∧ allBlank b = true ∧
      isBlank c = false ∧ isWordChar c = true := by
  obtain ⟨keyword, b, b', s, hkeyword, hline, hb, hblank, -, hne, hword, hstart⟩ :=
    exists_parts_of_openedModel? h
  obtain ⟨c, name, hname⟩ := List.exists_cons_of_ne_nil hne
  rw [hname] at hline hword hstart
  exact ⟨keyword, b, c, _, hkeyword, hline, hb, hblank, hstart c rfl, hword c List.mem_cons_self⟩

/-! ### Lines that open no model -/

/-- A line that opens no model, with or without the carriage return at its end. -/
def IsSilent (line : List Char) : Prop :=
  openedModel? line = none ∧ openedModel? (dropReturn line) = none

theorem isSilent_append {front : List Char} (hfront : front.getLast? ≠ some '\r')
    (h : ∀ s, openedModel? (front ++ s) = none) (s : List Char) : IsSilent (front ++ s) := by
  obtain ⟨s', hs'⟩ := Text.exists_dropReturn_append hfront s
  exact ⟨h s, hs' ▸ h s'⟩

theorem ne_return_of_isBlank {c : Char} (h : isBlank c = false) : c ≠ '\r' := by
  rintro rfl
  exact absurd h (by decide)

/-- A line whose first visible character opens neither keyword. -/
theorem isSilent_of_head {b : List Char} {c : Char} (hb : allBlank b = true)
    (hc : isBlank c = false) (hm : c ≠ 'm') (hv : c ≠ 'v') (s : List Char) :
    IsSilent (b ++ c :: s) := by
  have hopen (s : List Char) : openedModel? ((b ++ [c]) ++ s) = none := by
    rw [Option.eq_none_iff_forall_ne_some]
    intro n h
    obtain ⟨keyword, b', c', s', hkeyword, htrim, -⟩ := exists_of_openedModel? h
    have hstop : ∀ d ∈ (c :: s).head?, isBlank d = false := by rintro _ ⟨⟩; exact hc
    rw [List.append_assoc, List.singleton_append, trimLeft_append hb hstop] at htrim
    rcases hkeyword with rfl | rfl
    · exact hm (List.cons.inj htrim).1
    · exact hv (List.cons.inj htrim).1
  have := isSilent_append (by simpa using ne_return_of_isBlank hc) hopen s
  rwa [List.append_assoc] at this

/-- A word with nothing or a sign behind it, that is no name for a model. -/
theorem openedModel?_word {b word rest : List Char} (hb : allBlank b = true) (hne : word ≠ [])
    (hword : ∀ c ∈ word, isBlank c = false)
    (hrest : ∀ c s, rest = c :: s → isBlank c = true ∧
      ∀ d ∈ s.head?, isBlank d = false ∧ isWordChar d = false) :
    openedModel? (b ++ (word ++ rest)) = none := by
  rw [Option.eq_none_iff_forall_ne_some]
  intro n h
  obtain ⟨keyword, b', c', s', hkeyword, htrim, hb', hblank', hc', hwordChar⟩ :=
    exists_of_openedModel? h
  have hstart : ∀ d ∈ (word ++ rest).head?, isBlank d = false := by
    obtain ⟨d, word', rfl⟩ := List.exists_cons_of_ne_nil hne
    rintro _ ⟨⟩
    exact hword d List.mem_cons_self
  rw [trimLeft_append hb hstart] at htrim
  -- The first blank ends the word on one side and the keyword on the other.
  have hends : rest = b' ++ c' :: s' := by
    have hkeyword' : ∀ c ∈ keyword, isBlank c = false := by
      rcases hkeyword with rfl | rfl <;> decide
    have hleft : (word ++ rest).dropWhile (!isBlank ·) = rest := by
      refine dropWhile_append_of_stop (by simpa using hword) ?_
      cases rest with
      | nil => nofun
      | cons c s => rintro _ ⟨⟩; simpa using (hrest c s rfl).1
    have hright : (keyword ++ (b' ++ c' :: s')).dropWhile (!isBlank ·) = b' ++ c' :: s' := by
      refine dropWhile_append_of_stop (by simpa using hkeyword') ?_
      obtain ⟨d, b'', rfl⟩ := List.exists_cons_of_ne_nil hb'
      rintro _ ⟨⟩
      simp only [allBlank, List.all_cons, Bool.and_eq_true] at hblank'
      simpa using hblank'.1
    rw [← hleft, htrim, hright]
  obtain ⟨d, b'', rfl⟩ := List.exists_cons_of_ne_nil hb'
  obtain ⟨-, hsign⟩ := hrest d (b'' ++ c' :: s') hends
  cases b'' with
  | nil => exact absurd (hsign c' rfl).2 (by simp [hwordChar])
  | cons d' b'' =>
    simp only [allBlank, List.all_cons, Bool.and_eq_true] at hblank'
    exact absurd (hsign d' rfl).1 (by simp [hblank'.2.1])

/-- A word with a sign behind it opens no model. -/
theorem isSilent_of_word {b word : List Char} {d : Char} (hb : allBlank b = true) (hne : word ≠ [])
    (hword : ∀ c ∈ word, isBlank c = false) (hd : isBlank d = false)
    (hsign : isWordChar d = false) (s : List Char) : IsSilent (b ++ (word ++ ' ' :: d :: s)) := by
  have hopen (s : List Char) : openedModel? ((b ++ (word ++ [' ', d])) ++ s) = none := by
    have hopen : openedModel? (b ++ (word ++ ' ' :: d :: s)) = none :=
      openedModel?_word hb hne hword (by
        rintro _ _ ⟨⟩
        exact ⟨by decide, by rintro _ ⟨⟩; exact ⟨hd, hsign⟩⟩)
    simpa using hopen
  have := isSilent_append (by simpa using ne_return_of_isBlank hd) hopen s
  simpa using this

/-- A word alone opens no model. -/
theorem isSilent_word {word : List Char} (hne : word ≠ [])
    (hword : ∀ c ∈ word, isBlank c = false) : IsSilent (' ' :: ' ' :: word) := by
  have hopen : openedModel? (' ' :: ' ' :: word) = none := by
    have hword' : openedModel? ([' ', ' '] ++ (word ++ [])) = none :=
      openedModel?_word (by decide) hne hword nofun
    simpa using hword'
  refine ⟨hopen, ?_⟩
  rw [Text.dropReturn_of_not_mem]
  · exact hopen
  · simp only [List.mem_cons, not_or]
    exact ⟨by decide, by decide, fun hr => ne_return_of_isBlank (hword _ hr) rfl⟩

theorem isSilent_docLine (line : String) : IsSilent (docLine line).toList := by
  have (s : List Char) : IsSilent ([] ++ '/' :: s) :=
    isSilent_of_head rfl (by decide) (by decide) (by decide) s
  rw [docLine]
  split
  · exact this ['/', '/']
  · rw [String.toList_append]
    exact this ('/' :: '/' :: ' ' :: line.toList)

/-! ### The lines of a piece -/

/-- A line as it was joined, and as it is read: the carriage return at its end may be dropped. -/
def Shown (line line' : List Char) : Prop := line' = line ∨ line' = dropReturn line

theorem forall₂_shown_lines {ls : List (List Char)} {line : List Char}
    (hline : ∀ l ∈ ls ++ [line], '\n' ∉ l) (hne : line ≠ []) :
    List.Forall₂ Shown (ls ++ [line]) (Text.lines (joinLines (ls ++ [line]))) := by
  rw [Text.lines_joinLines hline, if_neg (by simpa using hne)]
  refine List.rel_append ?_ (.cons (.inl rfl) .nil)
  rw [List.forall₂_map_right_iff, List.forall₂_same]
  exact fun _ _ => .inr rfl

theorem IsSilent.of_shown {line line' : List Char} (h : IsSilent line) (hs : Shown line line') :
    openedModel? line' = none := by
  rcases hs with rfl | rfl
  · exact h.1
  · exact h.2

/-- Lines that open no model give no notes. -/
theorem ofLines?_silent {ls ls' : List (List Char)} (hs : List.Forall₂ Shown ls ls')
    (h : ∀ l ∈ ls, IsSilent l) : ofLines? ls' = none := by
  induction hs with
  | nil => rfl
  | cons hs _ ih =>
    rw [ofLines?, (h _ List.mem_cons_self).of_shown hs]
    exact ih fun l hl => h l (List.mem_cons_of_mem _ hl)

/-- What a line of a model says, with or without the carriage return at its end. -/
structure LineMeans (line : List Char) (note? : Option LineNote) : Prop where
  oneLine : '\n' ∉ line
  means : ofLine? line = note?
  means_dropReturn : ofLine? (dropReturn line) = note?

/-- The end of a text is no blank. -/
def EndsVisible (s : List Char) : Prop := ∃ t c, s = t ++ [c] ∧ isBlank c = false

theorem EndsVisible.append {s : List Char} (h : EndsVisible s) (t : List Char) :
    EndsVisible (t ++ s) := by
  obtain ⟨s', c, rfl, hc⟩ := h
  exact ⟨t ++ s', c, by simp, hc⟩

theorem EndsVisible.getLast? {s : List Char} (h : EndsVisible s) :
    ∀ c ∈ s.getLast?, isBlank c = false := by
  obtain ⟨t, c, rfl, hc⟩ := h
  rw [List.getLast?_concat]
  rintro _ ⟨⟩
  exact hc

/-- A line that ends visibly has no carriage return to drop. -/
theorem LineMeans.of_endsVisible {line : List Char} (hn : '\n' ∉ line) (h : EndsVisible line) :
    LineMeans line (ofLine? line) := by
  have hkept : dropReturn line = line := by
    rw [dropReturn, if_neg]
    exact fun hlast => ne_return_of_isBlank (h.getLast? _ hlast) rfl
  exact ⟨hn, rfl, by rw [hkept]⟩

theorem trim_append {b s : List Char} (hb : allBlank b = true)
    (hs : ∀ c ∈ s.head?, isBlank c = false) (h : EndsVisible s) : Text.trim (b ++ s) = s := by
  have hright : Text.trimRight s = s := by
    have hstop : ([] ++ s.reverse).dropWhile isBlank = s.reverse :=
      dropWhile_append_of_stop nofun (by rw [List.head?_reverse]; exact h.getLast?)
    rw [List.nil_append] at hstop
    rw [Text.trimRight, hstop, List.reverse_reverse]
  rw [Text.trim, trimLeft_append hb hs, hright]

theorem filterMap_ofLine? {ls ls' : List (List Char)} {notes : List (Option LineNote)}
    (hs : List.Forall₂ Shown ls ls') (h : List.Forall₂ LineMeans ls notes) :
    ls'.filterMap ofLine? = notes.reduceOption := by
  induction h generalizing ls' with
  | nil => cases hs; rfl
  | @cons line note? ls notes hmeans _ ih =>
    obtain ⟨line', ls', hshown, hs', rfl⟩ := List.forall₂_cons_left_iff.mp hs
    have hline : ofLine? line' = note? := by
      rcases hshown with rfl | rfl
      · exact hmeans.means
      · exact hmeans.means_dropReturn
    cases note? with
    | none => rw [List.filterMap_cons_none hline, ih hs', List.reduceOption_cons_of_none]
    | some note => rw [List.filterMap_cons_some hline, ih hs', List.reduceOption_cons_of_some]

/-- The lines after the one that opens a model are its notes. -/
theorem exists_of_ofLines?_header {front body ls' : List (List Char)} {header : List Char}
    {name : String} (hs : List.Forall₂ Shown (front ++ header :: body) ls')
    (hfront : ∀ l ∈ front, IsSilent l)
    (hheader : ∀ line, Shown header line → openedModel? line = some name) :
    ∃ body', List.Forall₂ Shown body body' ∧
      ofLines? ls' = some ⟨name, body'.filterMap ofLine?⟩ := by
  induction front generalizing ls' with
  | nil =>
    obtain ⟨header', body', hshown, hbody, rfl⟩ := List.forall₂_cons_left_iff.mp hs
    refine ⟨body', hbody, ?_⟩
    rw [ofLines?, hheader header' hshown]
  | cons line front ih =>
    obtain ⟨line', ls', hshown, hs', rfl⟩ := List.forall₂_cons_left_iff.mp hs
    rw [ofLines?, (hfront line List.mem_cons_self).of_shown hshown]
    exact ih hs' fun l hl => hfront l (List.mem_cons_of_mem _ hl)

theorem ofLines?_model {front body ls' : List (List Char)} {header : List Char} {name : String}
    {notes : List (Option LineNote)} (hs : List.Forall₂ Shown (front ++ header :: body) ls')
    (hfront : ∀ l ∈ front, IsSilent l) (hheader : openedModel? header = some name)
    (hreturn : dropReturn header = header) (h : List.Forall₂ LineMeans body notes) :
    ofLines? ls' = some ⟨name, notes.reduceOption⟩ := by
  have hshown : ∀ line, Shown header line → openedModel? line = some name := by
    rintro line (rfl | rfl)
    · exact hheader
    · rw [hreturn, hheader]
  obtain ⟨body', hbody, heq⟩ := exists_of_ofLines?_header hs hfront hshown
  rw [heq, filterMap_ofLine? hbody h]

/-! ### Blocks -/

/-- What the lines of a block say about storage. -/
inductive BlockMeans : List String → Option ModelNotes → Prop where
  | model {keyword name : String} {lines : List String} {documentation : Option String}
    {notes : List (Option LineNote)} (hkeyword : keyword = "model" ∨ keyword = "view")
    (hname : IsWord name.toList) (hblank : ∀ line ∈ lines, isBlankLine line = false)
    (hlines : List.Forall₂ (fun line => LineMeans (' ' :: ' ' :: line.toList)) lines notes) :
    BlockMeans (blockLines keyword name lines documentation) (some ⟨name, notes.reduceOption⟩)
  | other {keyword name : String} {lines : List String} {documentation : Option String}
    (hheader : ∃ c s, keyword.toList = c :: s ∧ isBlank c = false ∧ c ≠ 'm' ∧ c ≠ 'v' ∧ c ≠ '}')
    (hkeyword : '\n' ∉ keyword.toList) (hname : '\n' ∉ name.toList)
    (hlines : ∀ line ∈ lines, '\n' ∉ line.toList ∧ IsSilent (' ' :: ' ' :: line.toList)) :
    BlockMeans (blockLines keyword name lines documentation) none

/-- A line of a block other than its closing brace. -/
def IsInner (line : List Char) : Prop :=
  '\n' ∉ line ∧ line ≠ [] ∧ line.head? ≠ some '}'

theorem isInner_docLine {documentation : Option String} {text : String}
    (h : text ∈ docTexts documentation) : IsInner (docLine text).toList := by
  have hone : '\n' ∉ text.toList := by
    cases documentation with
    | none => cases h
    | some d =>
      obtain ⟨s, hs, rfl⟩ := List.mem_map.mp h
      rw [String.toList_ofList]
      exact Text.not_mem_of_mem_splitOn hs
  rw [docLine]
  split
  · exact ⟨by decide, by decide, by decide⟩
  · refine ⟨by simpa using hone, by simp, by simp⟩

theorem isInner_indented {line : List Char} (h : '\n' ∉ line) : IsInner (' ' :: ' ' :: line) :=
  ⟨by simpa using h, nofun, nofun⟩

/-- The first line of a block behind its documentation. -/
def headerLine (keyword name : String) : List Char :=
  keyword.toList ++ ' ' :: (name.toList ++ [' ', '{'])

/-- The lines of a block up to its closing brace. -/
def innerLines (keyword name : String) (lines : List String) (documentation : Option String) :
    List (List Char) :=
  ((docTexts documentation).map fun text => (docLine text).toList) ++
    headerLine keyword name :: lines.map fun line => ' ' :: ' ' :: line.toList

theorem map_toList_blockLines (keyword name : String) (lines : List String)
    (documentation : Option String) :
    (blockLines keyword name lines documentation).map String.toList =
      innerLines keyword name (lines.filter (!isBlankLine ·)) documentation ++ [['}']] := by
  simp [blockLines, innerLines, headerLine, docLines_eq, Function.comp_def]

theorem isInner_innerLines {keyword name : String} {lines : List String}
    {documentation : Option String} (hheader : IsInner (headerLine keyword name))
    (hlines : ∀ line ∈ lines, '\n' ∉ line.toList) :
    ∀ l ∈ innerLines keyword name lines documentation, IsInner l := by
  simp only [innerLines, List.mem_append, List.mem_cons, List.mem_map]
  rintro l (⟨text, htext, rfl⟩ | rfl | ⟨line, hline, rfl⟩)
  · exact isInner_docLine htext
  · exact hheader
  · exact isInner_indented (hlines line hline)

theorem not_mem_headerLine {keyword name : String} {c : Char} (hkeyword : c ∉ keyword.toList)
    (hname : c ∉ name.toList) (hc : c ∉ [' ', '{']) : c ∉ headerLine keyword name := by
  simp only [List.mem_cons, List.not_mem_nil, or_false, not_or] at hc
  simp [headerLine, hkeyword, hname, hc]

theorem IsWord.not_mem {name : List Char} (h : IsWord name) {c : Char} (hc : isBlank c = true) :
    c ∉ name := by
  intro hmem
  rw [(h.2 c hmem).2] at hc
  cases hc

section
variable {keyword name : String} {lines : List String} {documentation : Option String}
  {front ls' : List (List Char)}

theorem isInner_headerLine {c : Char} {s : List Char} (hk : keyword.toList = c :: s) (hc : c ≠ '}')
    (hkeyword : '\n' ∉ keyword.toList) (hname : '\n' ∉ name.toList) :
    IsInner (headerLine keyword name) := by
  refine ⟨not_mem_headerLine hkeyword hname (by decide), by simp [headerLine], ?_⟩
  simpa [headerLine, hk] using hc

theorem exists_concat_innerLines (keyword name : String) (lines : List String)
    (documentation : Option String) :
    ∃ ls line, innerLines keyword name lines documentation = ls ++ [line] :=
  ⟨_, _, (List.dropLast_append_getLast (by simp [innerLines])).symm⟩

theorem isSilent_innerLines (hheader : IsSilent (headerLine keyword name))
    (hlines : ∀ line ∈ lines, IsSilent (' ' :: ' ' :: line.toList)) :
    ∀ l ∈ innerLines keyword name lines documentation, IsSilent l := by
  simp only [innerLines, List.mem_append, List.mem_cons, List.mem_map]
  rintro l (⟨text, -, rfl⟩ | rfl | ⟨line, hline, rfl⟩)
  · exact isSilent_docLine text
  · exact hheader
  · exact hlines line hline

/-- The lines of a model say what those of its body say. -/
theorem ofLines?_innerLines {notes : List (Option LineNote)}
    (hkeyword : keyword = "model" ∨ keyword = "view") (hname : IsWord name.toList)
    (hlines : List.Forall₂ (fun line => LineMeans (' ' :: ' ' :: line.toList)) lines notes)
    (hfront : ∀ l ∈ front, IsSilent l)
    (hs : List.Forall₂ Shown (front ++ innerLines keyword name lines documentation) ls') :
    ofLines? ls' = some ⟨name, notes.reduceOption⟩ := by
  have hopened : openedModel? (headerLine keyword name) = some name := by
    rw [headerLine, openedModel?_header hkeyword hname, String.ofList_toList]
  have hreturn : '\r' ∉ headerLine keyword name := by
    refine not_mem_headerLine ?_ (hname.not_mem (by decide)) (by decide)
    rcases hkeyword with rfl | rfl <;> decide
  rw [innerLines, ← List.append_assoc] at hs
  refine ofLines?_model hs ?_ hopened (Text.dropReturn_of_not_mem hreturn)
    (List.forall₂_map_left_iff.mpr hlines)
  exact List.forall_mem_append.mpr
    ⟨hfront, List.forall_mem_map.mpr fun text _ => isSilent_docLine text⟩

end

/-- The lines of a block up to its closing brace, and what they say behind lines that say
nothing. -/
theorem BlockMeans.exists_inner {block : List String} {r : Option ModelNotes}
    (h : BlockMeans block r) : ∃ inner : List (List Char),
      block.map String.toList = inner ++ [['}']] ∧ (∃ ls line, inner = ls ++ [line]) ∧
      (∀ l ∈ inner, IsInner l) ∧ ∀ front ls', (∀ l ∈ front, IsSilent l) →
        List.Forall₂ Shown (front ++ inner) ls' → ofLines? ls' = r := by
  cases h with
  | @model keyword name lines documentation notes hkeyword hname hblank hlines =>
    have hfilter : lines.filter (!isBlankLine ·) = lines :=
      List.filter_eq_self.mpr fun line hline => by rw [hblank line hline]; rfl
    have hheader : IsInner (headerLine keyword name) := by
      have hn : '\n' ∉ name.toList := hname.not_mem (by decide)
      rcases hkeyword with rfl | rfl
      · exact isInner_headerLine rfl (by decide) (by decide) hn
      · exact isInner_headerLine rfl (by decide) (by decide) hn
    have hone : ∀ line ∈ lines, '\n' ∉ line.toList := by
      refine ((List.forall₂_and_left lines notes).mp
        (hlines.imp fun line note h => ⟨fun hmem => h.oneLine ?_, h⟩)).1
      simp [hmem]
    refine ⟨innerLines keyword name lines documentation, ?_, exists_concat_innerLines ..,
      isInner_innerLines hheader hone, fun front ls' => ofLines?_innerLines hkeyword hname hlines⟩
    rw [map_toList_blockLines, hfilter]
  | @other keyword name lines documentation hheader hkeyword hname hlines =>
    obtain ⟨c, s, hk, hc, hm, hv, hbrace⟩ := hheader
    have hsilent : IsSilent (headerLine keyword name) := by
      rw [headerLine, hk]
      exact isSilent_of_head (b := []) rfl hc hm hv _
    have hkept : ∀ line ∈ lines.filter (!isBlankLine ·), '\n' ∉ line.toList ∧
        IsSilent (' ' :: ' ' :: line.toList) :=
      fun line hline => hlines line (List.mem_filter.mp hline).1
    refine ⟨innerLines keyword name (lines.filter (!isBlankLine ·)) documentation,
      map_toList_blockLines .., exists_concat_innerLines ..,
      isInner_innerLines (isInner_headerLine hk hbrace hkeyword hname)
        fun line hline => (hkept line hline).1,
      fun front ls' hfront hs => ofLines?_silent hs (List.forall_mem_append.mpr ⟨hfront, ?_⟩)⟩
    exact isSilent_innerLines hsilent fun line hline => (hkept line hline).2

/-! ### Texts of blocks -/

/-- Lines in front of a block: they say nothing, and close no block. -/
structure IsFront (front : List (List Char)) : Prop where
  ne_nil : front ≠ []
  oneLine : ∀ l ∈ front, '\n' ∉ l
  silent : ∀ l ∈ front, IsSilent l
  tail : ∀ l ∈ front.tail, l.head? ≠ some '}'

namespace IsFront
variable {front : List (List Char)}

theorem singleton {line : List Char} (hone : '\n' ∉ line) (hsilent : IsSilent line) :
    IsFront [line] where
  ne_nil := List.cons_ne_nil line []
  oneLine := List.forall_mem_singleton.mpr hone
  silent := List.forall_mem_singleton.mpr hsilent
  tail := nofun

/-- A text that ends without a block says nothing. -/
theorem extract_end (h : IsFront front) : extract (joinLines (front ++ [[]])) = [] := by
  have hone : ∀ l ∈ front ++ [[]], '\n' ∉ l :=
    List.forall_mem_append.mpr ⟨h.oneLine, List.forall_mem_singleton.mpr List.not_mem_nil⟩
  have htail : ∀ l ∈ (front ++ [[]]).tail, l.head? ≠ some '}' := by
    rw [List.tail_append_of_ne_nil h.ne_nil]
    exact List.forall_mem_append.mpr ⟨h.tail, List.forall_mem_singleton.mpr nofun⟩
  have hlines : Text.lines (joinLines (front ++ [[]])) = front.map dropReturn := by
    rw [Text.lines_joinLines hone, if_pos List.isEmpty_nil, List.append_nil]
  have hnone : ofLines? (front.map dropReturn) = none := by
    refine ofLines?_silent ?_ h.silent
    rw [List.forall₂_map_right_iff, List.forall₂_same]
    exact fun _ _ => .inr rfl
  rw [extract, Text.splitAtClosings_joinLines (by simp) hone htail, List.filterMap_cons_none]
  · rfl
  · rw [hlines, hnone]

/-- A block says what it means, and the lines behind it what they say without it. -/
theorem extract_block (h : IsFront front) {block : List String} {r : Option ModelNotes}
    (hblock : BlockMeans block r) (more : List (List Char)) :
    extract (joinLines (front ++ [] :: (block.map String.toList ++ more))) =
      r.toList ++ extract (joinLines ([] :: more)) := by
  obtain ⟨inner, hinner, ⟨ls, line, hlast⟩, hisInner, hmeans⟩ := hblock.exists_inner
  have htext : front ++ [] :: (block.map String.toList ++ more) =
      (front ++ [] :: inner) ++ ['}'] :: more := by
    simp [hinner]
  have hone : ∀ l ∈ front ++ [] :: inner, '\n' ∉ l :=
    List.forall_mem_append.mpr ⟨h.oneLine,
      List.forall_mem_cons.mpr ⟨List.not_mem_nil, fun l hl => (hisInner l hl).1⟩⟩
  have htail : ∀ l ∈ (front ++ [] :: inner).tail, l.head? ≠ some '}' := by
    rw [List.tail_append_of_ne_nil h.ne_nil]
    exact List.forall_mem_append.mpr ⟨h.tail,
      List.forall_mem_cons.mpr ⟨nofun, fun l hl => (hisInner l hl).2.2⟩⟩
  have hnotes : ofLines? (Text.lines (joinLines (front ++ [] :: inner))) = r := by
    have hsplit : front ++ [] :: inner = (front ++ [] :: ls) ++ [line] := by simp [hlast]
    refine hmeans (front ++ [[]]) _ ?_ ?_
    · exact List.forall_mem_append.mpr ⟨h.silent, List.forall_mem_singleton.mpr ⟨rfl, rfl⟩⟩
    · rw [List.append_assoc, List.singleton_append, hsplit]
      rw [hsplit] at hone
      exact forall₂_shown_lines hone (hisInner line (by simp [hlast])).2.1
  rw [htext, extract, Text.splitAtClosings_joinLines_closing (by simp) hone htail,
    filterMap_cons_toList, hnotes, extract]

/-- The notes of some lines and the blocks behind them. -/
theorem extract_blocks (h : IsFront front) {blocks : List (List String)}
    {notes : List (Option ModelNotes)} (hblocks : List.Forall₂ BlockMeans blocks notes) :
    extract (joinLines (front ++ ((blocks.flatMap ("" :: ·)).map String.toList ++ [[]]))) =
      notes.reduceOption := by
  induction hblocks generalizing front with
  | nil => exact h.extract_end
  | @cons block r blocks notes hblock _ ih =>
    have ih := ih (singleton List.not_mem_nil ⟨rfl, rfl⟩)
    rw [List.singleton_append] at ih
    rw [List.flatMap_cons, List.map_append, List.append_assoc, List.map_cons, List.cons_append,
      String.toList_empty, h.extract_block hblock, ih]
    exact (filterMap_cons_toList id r notes).symm

end IsFront

/-- **The notes of a text of blocks are those of the blocks.** -/
theorem extract_unlines {blocks : List (List String)} {notes : List (Option ModelNotes)}
    (h : List.Forall₂ BlockMeans blocks notes) :
    extract (unlines (banner :: blocks.flatMap ("" :: ·))).toList = notes.reduceOption := by
  have hbanner : banner.toList = [] ++ '/' :: banner.toList.tail := by decide
  have hsilent : IsSilent banner.toList := by
    rw [hbanner]
    exact isSilent_of_head rfl (by decide) (by decide) (by decide) _
  have hone : '\n' ∉ banner.toList := by decide
  rw [Printer.toList_unlines, Text.flatMap_newline, List.map_cons, List.cons_append]
  exact (IsFront.singleton hone hsilent).extract_blocks h

end Datamodel.Notes
