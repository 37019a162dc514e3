import Datamodel.Proofs.Token.Lexemes

/-! Where in a text a token stands.

The place of a token is what it is, with the lexemes in front of it, so that the text up to its
first character is known (`Place.text`). The lexer counts the line feeds that it takes as line
breaks. Of the other lexemes only a string literal can hold a line feed, namely behind a backslash
(`infix_of_newline_mem`), and that one is not counted: the line of a token is right exactly if no
literal in front of it holds one (`line_of_tokenize`). -/

namespace Datamodel

/-! ### Line feeds in literals -/

namespace Text.Quoted

/-- **A line feed in a literal** stands behind a backslash. -/
theorem infix_of_newline_mem {s v r body : List Char} (h : read s = .ok (v, r))
    (hs : s = body ++ '"' :: r) (hmem : '\n' ∈ body) : ['\\', '\n'] <:+: body := by
  fun_induction read s generalizing v r body with
  | case1 => cases h
  | case2 s =>
    cases h
    obtain rfl : body = [] := by
      have hlength := congrArg List.length hs
      simpa using hlength
    cases hmem
  | case3 => cases h
  | case4 => cases h
  | case5 s w r' h' _ ih =>
    obtain ⟨⟨w', rest⟩, hr, heq⟩ := exists_of_map h
    cases heq
    obtain ⟨escape, rfl, -, hescape⟩ := exists_of_readEscape h'
    obtain ⟨body', rfl, -, -⟩ := exists_of_read hr
    have hbody : '\\' :: (escape ++ body') ++ '"' :: r = body ++ '"' :: r := by
      rw [← hs, List.cons_append, List.append_assoc]
    obtain rfl := List.append_cancel_right hbody
    rcases List.mem_append.mp (List.mem_of_ne_of_mem (by decide) hmem) with hmem | hmem
    · obtain ⟨rfl, -⟩ := eq_of_readEscape h' rfl (by decide) hmem
      exact (List.prefix_append ['\\', '\n'] body').isInfix
    · exact ((ih hr rfl hmem).trans (List.suffix_append escape body').isInfix).trans
        (List.suffix_cons '\\' _).isInfix
  | case6 c s hquote hfeed hslash ih =>
    obtain ⟨⟨w, rest⟩, hr, heq⟩ := exists_of_map h
    cases heq
    obtain ⟨body', rfl, -, -⟩ := exists_of_read hr
    obtain rfl : c :: body' = body := List.append_cancel_right hs
    have hc : '\n' ≠ c := fun hc => hfeed hc.symm
    exact (ih hr rfl (List.mem_of_ne_of_mem hc hmem)).trans (List.suffix_cons c body').isInfix

end Text.Quoted

namespace Token

open Lexeme (text)

/-! ### Line feeds in lexemes -/

namespace Lexeme

/-- Whether a lexeme is a string literal. -/
def isLiteral (l : Lexeme) : Bool :=
  match l.kind with
  | some (.text _) => true
  | _ => false

/-- The number of line feeds in the string literals among lexemes. -/
def feedsInLiterals (ls : List Lexeme) : Nat := (text (ls.filter isLiteral)).count '\n'

theorem text_singleton (l : Lexeme) : text [l] = l.written := List.append_nil _

theorem feedsInLiterals_append (ls ls' : List Lexeme) :
    feedsInLiterals (ls ++ ls') = feedsInLiterals ls + feedsInLiterals ls' := by
  rw [feedsInLiterals, List.filter_append, text_append, List.count_append]
  rfl

theorem feedsInLiterals_eq_zero_iff {ls : List Lexeme} :
    feedsInLiterals ls = 0 ↔ ∀ l ∈ ls, l.isLiteral → '\n' ∉ l.written := by
  rw [feedsInLiterals, List.count_eq_zero]
  simp [text]

end Lexeme

open Lexeme (feedsInLiterals)

theorem newline_not_mem_of_all {p : Char → Bool} {s : List Char} (hp : p '\n' = false)
    (hs : s.all p = true) : '\n' ∉ s := by
  intro hmem
  rw [List.all_eq_true.mp hs _ hmem] at hp
  cases hp

section
variable {w r : List Char} {kind : Option Kind}

/-- Line breaks and string literals are the only lexemes that hold a line feed. -/
theorem Written.newline_not_mem (h : Written w kind r) (hkind : kind ≠ some .newline)
    (hliteral : Lexeme.isLiteral ⟨w, kind⟩ = false) : '\n' ∉ w := by
  cases h with
  | @char c kind r h =>
    intro hmem
    obtain rfl := List.mem_singleton.mp hmem
    exact hkind h.symm
  | blockMarker => decide
  | marker => decide
  | comment hs hr => simpa using hs
  | text h => cases hliteral
  | blank h hc => simpa using Ne.symm hc
  | @number c s r hc hs hr =>
    have htail : '\n' ∉ s := newline_not_mem_of_all (by decide) hs
    refine List.not_mem_cons_of_ne_of_not_mem ?_ htail
    rcases of_opensNumber hc with hc | rfl
    · rintro rfl
      exact absurd hc (by decide)
    · decide
  | @name c s r hc hs hr =>
    apply newline_not_mem_of_all (p := isNameChar) (by decide)
    rw [List.all_cons, isNameChar_of_isNameStart hc, hs, Bool.and_self]

/-- **One lexeme.** The line feeds of a lexeme are counted, but for those in a literal. -/
theorem Written.lineAfter_add (h : Written w kind r) (line : Nat) :
    Kind.lineAfter line kind + feedsInLiterals [⟨w, kind⟩] = line + w.count '\n' := by
  by_cases hnewline : kind = some .newline
  · subst hnewline
    rw [h.eq_of_newline]
    rfl
  have hline : Kind.lineAfter line kind = line := by
    unfold Kind.lineAfter
    split
    · exact absurd rfl hnewline
    · rfl
  rw [hline, Nat.add_left_cancel_iff]
  cases hliteral : Lexeme.isLiteral ⟨w, kind⟩ with
  | true =>
    rw [feedsInLiterals, List.filter_cons_of_pos hliteral]
    exact congrArg (List.count '\n') (Lexeme.text_singleton _)
  | false =>
    rw [List.count_eq_zero_of_not_mem (h.newline_not_mem hnewline hliteral), feedsInLiterals,
      List.filter_cons_of_neg (by simp [hliteral])]
    rfl

/-- A literal holds a line feed only behind a backslash. -/
theorem Written.newline_mem_iff (h : Written w kind r)
    (hliteral : Lexeme.isLiteral ⟨w, kind⟩ = true) : '\n' ∈ w ↔ ['\\', '\n'] <:+: w := by
  refine ⟨fun hmem => ?_, fun hinfix => hinfix.subset (by simp)⟩
  cases h with
  | @text body v r h =>
    have hbody : '\n' ∈ body := by simpa using hmem
    have hinfix := Text.Quoted.infix_of_newline_mem (h []) rfl hbody
    exact hinfix.trans ⟨['"'], ['"'], rfl⟩
  | char h =>
    unfold Kind.ofChar? at h
    split at h <;> cases h <;> cases hliteral
  | @comment s r hs hr =>
    unfold Kind.ofComment at hliteral
    split at hliteral <;> cases hliteral
  | _ => cases hliteral

end

/-! ### Places -/

/-- What a token is, and the lexemes in front of it. -/
structure Place where
  kind : Kind
  before : List Lexeme
  deriving DecidableEq, Repr

/-- The text in front of the first character of a token. -/
def Place.text (p : Place) : List Char := Lexeme.text p.before

/-- The places of the tokens of lexemes, which stand behind others and inside `depth` brackets. -/
def placesFrom (depth : Nat) (before : List Lexeme) : List Lexeme → List Place
  | [] => []
  | l :: ls =>
    (ofLexeme 0 depth l.kind).map (fun t => ⟨t.kind, before⟩) ++
      placesFrom (Kind.depthAfter depth l.kind) (before ++ [l]) ls

/-- The byte order mark at the head of a text, which stands for no token. -/
def markLexemes : List Char → List Lexeme
  | '\uFEFF' :: _ => [⟨['\uFEFF'], none⟩]
  | _ => []

/-- The places of the tokens of a source text, if it can be read. -/
def places (source : String) : Option (List Place) :=
  (lexemes (Text.dropMark source.toList)).map (placesFrom 0 (markLexemes source.toList))

theorem text_markLexemes_append (s : List Char) :
    text (markLexemes s) ++ Text.dropMark s = s := by
  unfold markLexemes
  split
  · rfl
  · next hmark =>
    unfold Text.dropMark
    split
    · next s => exact absurd rfl (hmark s)
    · rfl

theorem count_markLexemes (s : List Char) : (text (markLexemes s)).count '\n' = 0 := by
  unfold markLexemes
  split <;> rfl

theorem feedsInLiterals_markLexemes (s : List Char) : feedsInLiterals (markLexemes s) = 0 := by
  unfold markLexemes
  split <;> rfl

section
variable {line depth : Nat} {s : List Char} {ts : List Token}

/-- A text that has tokens has lexemes. -/
theorem exists_lexemes_of_scan (h : scan line depth s = .ok ts) : ∃ ls, lexemes s = some ls := by
  fun_induction scan line depth s generalizing ts with
  | case1 => exact ⟨[], by rw [lexemes]⟩
  | case2 => cases h
  | case3 line depth c s kind r hlexeme _ ih =>
    obtain ⟨more, hmore, -⟩ := exists_of_map h
    obtain ⟨ls, hls⟩ := ih hmore
    obtain ⟨t, rfl, hwritten⟩ := written_of_lexeme hlexeme
    refine ⟨⟨c :: t, kind⟩ :: ls, ?_⟩
    rw [← List.cons_append, lexemes_append hwritten, hls]
    rfl

theorem exists_written_of_mem {ls : List Lexeme} {l : Lexeme} (h : lexemes s = some ls)
    (hl : l ∈ ls) : ∃ r, Written l.written l.kind r := by
  induction ls generalizing s with
  | nil => cases hl
  | cons l' ls ih =>
    obtain ⟨r, -, hwritten, hr⟩ := exists_of_lexemes_cons h
    rcases List.mem_cons.mp hl with rfl | hl
    · exact ⟨r, hwritten⟩
    · exact ih hr hl

/-- In front of a token stand lexemes of its text. -/
theorem before_subset_of_mem_placesFrom {before ls : List Lexeme} {p : Place}
    (hp : p ∈ placesFrom depth before ls) : p.before ⊆ before ++ ls := by
  induction ls generalizing depth before with
  | nil => cases hp
  | cons l ls ih =>
    rw [placesFrom, List.mem_append] at hp
    rcases hp with hp | hp
    · obtain ⟨t, -, rfl⟩ := List.mem_map.mp hp
      exact List.subset_append_left _ _
    · simpa using ih hp

/-- A token is written at its place. -/
theorem exists_written_of_mem_placesFrom {before ls : List Lexeme} {p : Place}
    (h : lexemes s = some ls) (hp : p ∈ placesFrom depth before ls) :
    ∃ w r, Written w (some p.kind) r ∧ text before ++ s = p.text ++ w ++ r := by
  induction ls generalizing s depth before with
  | nil => cases hp
  | cons l ls ih =>
    obtain ⟨r, rfl, hwritten, hr⟩ := exists_of_lexemes_cons h
    rw [placesFrom, List.mem_append] at hp
    rcases hp with hp | hp
    · obtain ⟨t, ht, rfl⟩ := List.mem_map.mp hp
      obtain ⟨hkind, -⟩ := eq_of_mem_ofLexeme ht
      exact ⟨l.written, r, hkind ▸ hwritten, (List.append_assoc ..).symm⟩
    · obtain ⟨w, r', hw, heq⟩ := ih hr hp
      refine ⟨w, r', hw, ?_⟩
      rw [← heq, Lexeme.text_append, Lexeme.text_singleton, List.append_assoc]

/-- **The count of a run.** Lexeme by lexeme, the line number falls behind the line feeds of the
text exactly by those in literals. -/
theorem forall₂_placesFrom {before ls : List Lexeme} (h : scan line depth s = .ok ts)
    (hls : lexemes s = some ls)
    (hline : line + feedsInLiterals before = 1 + (text before).count '\n') :
    List.Forall₂ (fun t p => t.kind = p.kind ∧
        t.line + feedsInLiterals p.before = 1 + p.text.count '\n')
      ts (placesFrom depth before ls) := by
  induction ls generalizing s line depth before ts with
  | nil =>
    obtain rfl := lexemes_eq_nil hls
    rw [scan] at h
    cases h
    exact .nil
  | cons l ls ih =>
    obtain ⟨r, rfl, hwritten, hr⟩ := exists_of_lexemes_cons hls
    obtain ⟨c, t, heq, hlexeme⟩ := hwritten.lexeme
    rw [heq, List.cons_append, scan_cons (hlexeme line)] at h
    obtain ⟨more, hmore, rfl⟩ := exists_of_map h
    refine List.rel_append ?_ (ih hmore hr ?_)
    · unfold ofLexeme
      split
      · exact .nil
      · split
        · exact .cons ⟨rfl, hline⟩ .nil
        · exact .nil
      · exact .cons ⟨rfl, hline⟩ .nil
    · have hone : _ + feedsInLiterals [l] = _ := hwritten.lineAfter_add line
      rw [Lexeme.feedsInLiterals_append, Lexeme.text_append, List.count_append,
        Lexeme.text_singleton]
      omega

/-- A line is right exactly if the literals in front of its token hold no line feed. -/
theorem forall₂_line_iff {ps : List Place} (h : List.Forall₂ (fun t p => t.kind = p.kind ∧
      t.line + feedsInLiterals p.before = 1 + p.text.count '\n') ts ps) :
    List.Forall₂ (fun t p => t.kind = p.kind ∧ t.line = 1 + p.text.count '\n') ts ps ↔
      ∀ p ∈ ps, feedsInLiterals p.before = 0 := by
  induction h with
  | nil => simp
  | cons hhead _ ih =>
    rw [List.forall₂_cons, ih, List.forall_mem_cons]
    refine and_congr_left fun _ => ⟨fun hline => ?_, fun hzero => ⟨hhead.1, ?_⟩⟩ <;> omega

end

/-- **Where a token stands.** The tokens of a text are written at their places, one behind the
other. The line of a token is one more than the number of line feeds in front of its first
character, but for the line feeds in string literals, which are not counted. So all lines are right
exactly if no literal in front of a token holds a line feed behind a backslash. -/
theorem line_of_tokenize {source : String} {ts : List Token} (h : tokenize source = .ok ts) :
    ∃ ps, places source = some ps ∧
      (∀ p ∈ ps, ∃ w r, Written w (some p.kind) r ∧ source.toList = p.text ++ w ++ r) ∧
      List.Forall₂ (fun t p => t.kind = p.kind ∧
        t.line + feedsInLiterals p.before = 1 + p.text.count '\n') ts ps ∧
      (List.Forall₂ (fun t p => t.kind = p.kind ∧ t.line = 1 + p.text.count '\n') ts ps ↔
        ∀ p ∈ ps, ∀ l ∈ p.before, l.isLiteral → ¬['\\', '\n'] <:+: l.written) := by
  obtain ⟨ls, hls⟩ := exists_lexemes_of_scan h
  let mark := markLexemes source.toList
  have hstart : 1 + feedsInLiterals mark = 1 + (text mark).count '\n' := by
    rw [feedsInLiterals_markLexemes, count_markLexemes]
  have hlines := forall₂_placesFrom h hls hstart
  refine ⟨placesFrom 0 mark ls, by rw [places, hls]; rfl, fun p hp => ?_, hlines, ?_⟩
  · have hwritten := exists_written_of_mem_placesFrom hls hp
    rwa [text_markLexemes_append] at hwritten
  rw [forall₂_line_iff hlines]
  refine forall₂_congr fun p hp => ?_
  rw [Lexeme.feedsInLiterals_eq_zero_iff]
  refine forall₂_congr fun l hl => forall_congr' fun hliteral => not_congr ?_
  rcases List.mem_append.mp (before_subset_of_mem_placesFrom hp hl) with hmark | hmem
  · have hnone : l.kind = none := by
      simp only [mark, markLexemes] at hmark
      split at hmark
      · rw [List.mem_singleton.mp hmark]
      · cases hmark
    rw [Lexeme.isLiteral, hnone] at hliteral
    cases hliteral
  · obtain ⟨r, hwritten⟩ := exists_written_of_mem hls hmem
    exact hwritten.newline_mem_iff hliteral

/-- A line feed behind a backslash is not counted: the name behind the literal stands on line 2. -/
theorem line_of_tokenize_escaped :
    ∃ ts ps, tokenize "\"\\\n\" x" = .ok ts ∧ places "\"\\\n\" x" = some ps ∧
      ts.map (·.line) = [1, 1] ∧ ps.map (fun p => 1 + p.text.count '\n') = [1, 2] ∧
      ¬List.Forall₂ (fun t p => t.kind = p.kind ∧ t.line = 1 + p.text.count '\n') ts ps := by
  let literal : Lexeme := ⟨"\"\\\n\"".toList, some (.text "\\\n")⟩
  let ps : List Place := [⟨.text "\\\n", []⟩, ⟨.name "x", [literal, ⟨[' '], none⟩]⟩]
  have hts : tokenize "\"\\\n\" x" = .ok [⟨.text "\\\n", 1⟩, ⟨.name "x", 1⟩] :=
    eq_ok_of_toOption (by decide +kernel)
  have hps : places "\"\\\n\" x" = some ps := by decide +kernel
  obtain ⟨ps', hps', -, -, hiff⟩ := line_of_tokenize hts
  obtain rfl : ps = ps' := Option.some.inj (hps.symm.trans hps')
  refine ⟨_, ps, hts, hps, rfl, by decide, fun hright => ?_⟩
  exact hiff.mp hright ⟨.name "x", [literal, ⟨[' '], none⟩]⟩ (by decide) literal (by decide) rfl
    ⟨['"'], ['"'], rfl⟩

end Token

end Datamodel
