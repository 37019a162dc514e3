import Datamodel.Proofs.Notes.Models
import Datamodel.Proofs.Token.Lexemes

/-! What the reader of notes sees on a line that the lexer reads.

The reader of notes looks for words and blanks, the lexer for tokens. Both see the header of a model
(`openedModel?_of_kinds`, `kinds_of_openedModel?`) and the word at the head of a line
(`head?_kinds_of_ofLine?`) alike. -/

namespace Datamodel.Notes

open Text (after? allBlank dropReturn isBlank isWordChar trimLeft)
open Token (IsName Kind Lexeme Stops Written isBlank_of_isNameChar lexemes)
open Token.Lexeme (kinds)

section
variable {b s r w : List Char} {ls : List Lexeme} {k : Kind} {ks : List Kind} {n : String}

/-! ### The tokens of a line -/

theorem kinds_written (h : Written w (some k) r) (hls : lexemes (w ++ r) = some ls) :
    ∃ ls', lexemes r = some ls' ∧ kinds ls = k :: kinds ls' := by
  rw [Token.lexemes_append h] at hls
  obtain ⟨ls', hls', rfl⟩ := Option.map_eq_some_iff.mp hls
  exact ⟨ls', hls', rfl⟩

/-- Blanks at the head of a line stand for no token. -/
theorem kinds_blanks (hb : allBlank b = true) (hn : '\n' ∉ b) (h : lexemes (b ++ s) = some ls) :
    ∃ ls', lexemes s = some ls' ∧ kinds ls = kinds ls' := by
  induction b generalizing ls with
  | nil => exact ⟨ls, h, rfl⟩
  | cons c b ih =>
    simp only [allBlank, List.all_cons, Bool.and_eq_true] at hb
    simp only [List.mem_cons, not_or] at hn
    have hc : Written [c] none (b ++ s) := .blank hb.1 (Ne.symm hn.1)
    rw [List.cons_append, ← List.singleton_append, Token.lexemes_append hc] at h
    obtain ⟨more, hmore, rfl⟩ := Option.map_eq_some_iff.mp h
    obtain ⟨ls', hls', hkinds⟩ := ih hb.2 hn.2 hmore
    exact ⟨ls', hls', hkinds⟩

/-- A lexeme that stands for no token, with more of the line behind it, is a blank. -/
theorem exists_blank_of_written (h : Written w none r) (hn : '\n' ∉ w ++ r) (hr : r ≠ []) :
    ∃ c, isBlank c = true ∧ w = [c] := by
  generalize hkind : none = kind at h
  cases h with
  | @blank c r hc _ => exact ⟨c, hc, rfl⟩
  | @comment s r hs hnewline =>
    obtain ⟨c, r', rfl⟩ := List.exists_cons_of_ne_nil hr
    exact absurd (by simp [hnewline c rfl]) hn
  | char | blockMarker | marker | text | number | name => cases hkind

/-- The first token of a line, with the blanks before it. -/
theorem exists_of_kinds_cons (h : lexemes s = some ls) (hn : '\n' ∉ s) (hks : kinds ls = k :: ks) :
    ∃ b w r ls', s = b ++ (w ++ r) ∧ allBlank b = true ∧ Written w (some k) r ∧
      lexemes r = some ls' ∧ kinds ls' = ks := by
  induction ls generalizing s with
  | nil => cases hks
  | cons l ls ih =>
    obtain ⟨r, rfl, hwritten, hr⟩ := Token.exists_of_lexemes_cons h
    cases hkind : l.kind with
    | some k' =>
      have hcons : kinds (l :: ls) = k' :: kinds ls := by simp [kinds, hkind]
      obtain ⟨rfl, rfl⟩ := List.cons.inj (hcons.symm.trans hks)
      exact ⟨[], l.written, r, ls, rfl, rfl, hkind ▸ hwritten, hr, rfl⟩
    | none =>
      have hrest : kinds ls = k :: ks := by simpa [kinds, hkind] using hks
      obtain ⟨b, w, r', ls', rfl, hb, hw, hr', hks'⟩ :=
        ih hr (fun hmem => hn (List.mem_append_right _ hmem)) hrest
      rw [hkind] at hwritten
      obtain ⟨c, hc, hlw⟩ := exists_blank_of_written hwritten (by simpa using hn) (by
        obtain ⟨_, _, rfl, -⟩ := hw.lexeme
        simp)
      refine ⟨c :: b, w, r', ls', by rw [hlw]; rfl, ?_, hw, hr', hks'⟩
      rw [allBlank, List.all_cons, hc, Bool.true_and]
      exact hb

/-! ### Names and braces -/

theorem written_name (hname : IsName n) (hr : Stops r) : Written n.toList (some (.name n)) r := by
  obtain ⟨c, t, hct, hc, ht⟩ := hname
  obtain rfl : String.ofList (c :: t) = n := by rw [← hct, String.ofList_toList]
  rw [hct]
  exact .name hc ht hr

theorem eq_of_written_name (h : Written w (some (.name n)) r) :
    w = n.toList ∧ IsName n ∧ Stops r := by
  generalize hkind : some (Kind.name n) = kind at h
  cases h with
  | name hc hs hr =>
    cases hkind
    exact ⟨String.toList_ofList.symm, ⟨_, _, String.toList_ofList, hc, hs⟩, hr⟩
  | @char c kind r h =>
    obtain rfl : Kind.name n = kind := Option.some.inj hkind
    unfold Kind.ofChar? at h
    split at h <;> cases h
  | @comment s r =>
    unfold Kind.ofComment at hkind
    split at hkind <;> cases hkind
  | blockMarker | marker | text | number | blank => cases hkind

/-- A token of one character is written as that. -/
theorem eq_of_written_char {c : Char} (hc : Kind.ofChar? c = some k) (h : Written w (some k) r) :
    w = [c] := by
  generalize hkind : some k = kind at h
  cases h with
  | @char c' kind r h =>
    rw [← hkind] at h
    unfold Kind.ofChar? at hc h
    split at hc <;> cases hc <;> split at h <;> cases h <;> rfl
  | @comment s r =>
    unfold Kind.ofComment at hkind
    unfold Kind.ofChar? at hc
    split at hkind <;> cases hkind <;> split at hc <;> cases hc
  | blockMarker | marker | text | number | name =>
    cases hkind
    unfold Kind.ofChar? at hc
    split at hc <;> cases hc
  | blank => cases hkind

/-- The blanks between two names. -/
theorem ne_nil_of_stops {b s : List Char} (hname : IsName n) (h : Stops (b ++ (n.toList ++ s))) :
    b ≠ [] := by
  rintro rfl
  obtain ⟨c, t, hct, hc, -⟩ := hname
  rw [hct] at h
  exact absurd (h c rfl) (by simp [Token.isNameChar_of_isNameStart hc])

theorem stops_of_blank (h : ∀ c ∈ s.head?, isBlank c = true) : Stops s := by
  intro c hc
  refine Bool.eq_false_iff.mpr fun hchar => ?_
  exact absurd (h c hc) (by simp [isBlank_of_isNameChar hchar])

theorem head?_append_blank (hne : b ≠ []) (hb : allBlank b = true) :
    ∀ c ∈ (b ++ s).head?, isBlank c = true := by
  obtain ⟨c, t, rfl⟩ := List.exists_cons_of_ne_nil hne
  rintro _ ⟨⟩
  exact List.all_eq_true.mp hb c List.mem_cons_self

/-! ### Carriage returns -/

/-- Only blanks are dropped at the end of a line. -/
theorem Shown.exists_blanks {line line' : List Char} (h : Shown line line') :
    ∃ z, line = line' ++ z ∧ allBlank z = true := by
  rcases h with rfl | rfl
  · exact ⟨[], by simp, rfl⟩
  · rw [dropReturn]
    split
    · next hlast =>
      obtain ⟨front, rfl⟩ := List.getLast?_eq_some_iff.mp hlast
      exact ⟨['\r'], by simp, by decide⟩
    · exact ⟨[], by simp, rfl⟩

/-- What stands before a visible character is shown as it is. -/
theorem Shown.exists_append {front s line' : List Char} (h : Shown (front ++ s) line')
    (hfront : EndsVisible front) : ∃ s', line' = front ++ s' := by
  rcases h with rfl | rfl
  · exact ⟨s, rfl⟩
  · exact Text.exists_dropReturn_append
      (fun hlast => ne_return_of_isBlank (hfront.getLast? _ hlast) rfl) s

/-! ### The line that opens a model -/

section
variable {line line' : List Char} {keyword : String}

/-- The header of a model opens it. -/
theorem openedModel?_of_kinds (h : lexemes line = some ls) (hn : '\n' ∉ line)
    (hkeyword : keyword = "model" ∨ keyword = "view") (hword : IsWord n.toList)
    (hks : kinds ls = .name keyword :: .name n :: .openBrace :: ks) (hshown : Shown line line') :
    openedModel? line' = some n := by
  obtain ⟨b, w, r, ls, rfl, hb, hw, hr, hks⟩ := exists_of_kinds_cons h hn hks
  obtain ⟨rfl, -, hstops⟩ := eq_of_written_name hw
  simp only [List.mem_append, not_or] at hn
  obtain ⟨b', w', r', ls, rfl, hb', hw', hr', hks⟩ := exists_of_kinds_cons hr hn.2.2 hks
  obtain ⟨rfl, hname, -⟩ := eq_of_written_name hw'
  simp only [List.mem_append, not_or] at hn
  obtain ⟨b'', w'', r'', ls, rfl, hb'', hw'', -, -⟩ := exists_of_kinds_cons hr' hn.2.2.2.2 hks
  obtain rfl := eq_of_written_char (c := '{') rfl hw''
  have hline : b ++ (keyword.toList ++ (b' ++ (n.toList ++ (b'' ++ (['{'] ++ r''))))) =
      (b ++ (keyword.toList ++ (b' ++ (n.toList ++ (b'' ++ ['{']))))) ++ r'' := by simp
  rw [hline] at hshown
  obtain ⟨s', rfl⟩ := hshown.exists_append ⟨b ++ (keyword.toList ++ (b' ++ (n.toList ++ b''))), '{',
    by simp, by decide⟩
  have hopen := openedModel?_of_parts hkeyword hword hb hb' (ne_nil_of_stops hname hstops) hb'' s'
  simpa using hopen

/-- A line that opens a model starts with a keyword, and goes on with the name and a brace. -/
theorem exists_keyword_of_openedModel? (h : lexemes line = some ls) (hn : '\n' ∉ line)
    (hshown : Shown line line') (hopen : openedModel? line' = some n) :
    ∃ keyword b b' s ls', (keyword = "model" ∨ keyword = "view") ∧
      kinds ls = .name keyword :: kinds ls' ∧
      lexemes (b ++ (n.toList ++ (b' ++ '{' :: s))) = some ls' ∧
      allBlank b = true ∧ allBlank b' = true ∧ '\n' ∉ b ++ b' := by
  obtain ⟨keyword, b, b', s, hkeyword, hline, hne, hb, hb', -⟩ := exists_parts_of_openedModel? hopen
  obtain ⟨front, hfront, hline'⟩ := Text.exists_trimLeft line'
  obtain ⟨z, rfl, -⟩ := hshown.exists_blanks
  rw [hline', hline] at h hn
  simp only [List.append_assoc, List.cons_append, List.mem_append, List.mem_cons, not_or] at h hn
  obtain ⟨ls', hls', hkinds⟩ := kinds_blanks hfront hn.1 h
  have hstops : Stops (b ++ (n.toList ++ (b' ++ '{' :: (s ++ z)))) :=
    stops_of_blank (head?_append_blank hne hb)
  obtain ⟨name, hname, rfl, hisName⟩ : ∃ name, (name = "model" ∨ name = "view") ∧
      name.toList = keyword ∧ IsName name := by
    rcases hkeyword with rfl | rfl
    · exact ⟨"model", .inl rfl, rfl, by decide⟩
    · exact ⟨"view", .inr rfl, rfl, by decide⟩
  obtain ⟨ls'', hls'', hkinds'⟩ := kinds_written (written_name hisName hstops) hls'
  refine ⟨name, b, b', s ++ z, ls'', hname, hkinds.trans hkinds', hls'', hb, hb', ?_⟩
  rw [List.mem_append, not_or]
  exact ⟨hn.2.2.1, hn.2.2.2.2.1⟩

/-- A line that opens a model starts with a keyword. -/
theorem head?_kinds_of_openedModel? (h : lexemes line = some ls) (hn : '\n' ∉ line)
    (hshown : Shown line line') (hopen : openedModel? line' = some n) :
    (kinds ls).head? = some (.name "model") ∨ (kinds ls).head? = some (.name "view") := by
  obtain ⟨keyword, _, _, _, _, hkeyword, hkinds, -⟩ :=
    exists_keyword_of_openedModel? h hn hshown hopen
  rw [hkinds]
  rcases hkeyword with rfl | rfl
  · exact .inl rfl
  · exact .inr rfl

/-- The line that opens a model of that name is its header. -/
theorem kinds_of_openedModel? (h : lexemes line = some ls) (hn : '\n' ∉ line)
    (hshown : Shown line line') (hopen : openedModel? line' = some n) (hname : IsName n) :
    ∃ keyword ks, (keyword = "model" ∨ keyword = "view") ∧
      kinds ls = .name keyword :: .name n :: .openBrace :: ks := by
  obtain ⟨keyword, b, b', s, ls', hkeyword, hkinds, hls', hb, hb', hn'⟩ :=
    exists_keyword_of_openedModel? h hn hshown hopen
  rw [List.mem_append, not_or] at hn'
  obtain ⟨ls'', hls'', hkinds'⟩ := kinds_blanks hb hn'.1 hls'
  have hstops : Stops (b' ++ '{' :: s) := by
    cases b' with
    | nil => exact .cons (by decide)
    | cons c b' => exact stops_of_blank (head?_append_blank (List.cons_ne_nil c b') hb')
  obtain ⟨behind, hbehind, hname'⟩ := kinds_written (written_name hname hstops) hls''
  obtain ⟨brace, hbrace, hgap⟩ := kinds_blanks hb' hn'.2 hbehind
  have hopen : Written ['{'] (some .openBrace) s := .char rfl
  obtain ⟨body, -, hopen'⟩ := kinds_written hopen hbrace
  refine ⟨keyword, kinds body, hkeyword, ?_⟩
  rw [hkinds, hkinds', hname', hgap, hopen']

/-! ### The word at the head of a line -/

/-- The word that a field's line starts with, as the reader of notes takes it. -/
theorem exists_of_ofLine? {notes : FieldNotes} (h : ofLine? line = some (.field n notes)) :
    ∃ b r, line = b ++ (n.toList ++ r) ∧ allBlank b = true ∧ ∀ c ∈ r.head?, isBlank c = true := by
  simp only [ofLine?] at h
  split at h
  · cases h
  split at h
  · obtain ⟨_, -, heq⟩ := Option.map_eq_some_iff.mp h
    cases heq
  split at h
  · cases h
  cases h
  obtain ⟨b, hb, hleft⟩ := Text.exists_trimLeft line
  obtain ⟨b', hb', hright⟩ := Text.exists_trimRight (trimLeft line)
  refine ⟨b, (Text.trim line).dropWhile (!isBlank ·) ++ b', ?_, hb, ?_⟩
  · rw [String.toList_ofList, ← List.append_assoc (List.takeWhile _ _),
      List.takeWhile_append_dropWhile, Text.trim, ← hright]
    exact hleft
  · intro c hc
    cases hdrop : (Text.trim line).dropWhile (!isBlank ·) with
    | cons d r =>
      rw [hdrop] at hc
      have hd := Text.head?_dropWhile (!isBlank ·) (Text.trim line) d (by rw [hdrop]; rfl)
      cases hc
      simpa using hd
    | nil =>
      rw [hdrop, List.nil_append] at hc
      exact List.all_eq_true.mp hb' c (List.mem_of_mem_head? hc)

/-- Notes are taken for a field on a line that starts with its name. -/
theorem head?_kinds_of_ofLine? (h : lexemes line = some ls) (hn : '\n' ∉ line)
    (hshown : Shown line line') {notes : FieldNotes}
    (hnotes : ofLine? line' = some (.field n notes)) (hname : IsName n) :
    (kinds ls).head? = some (.name n) := by
  obtain ⟨b, r, rfl, hb, hr⟩ := exists_of_ofLine? hnotes
  obtain ⟨z, rfl, hz⟩ := hshown.exists_blanks
  simp only [List.append_assoc, List.mem_append, not_or] at h hn
  obtain ⟨ls', hls', hkinds⟩ := kinds_blanks hb hn.1 h
  have hstops : Stops (r ++ z) := by
    refine stops_of_blank fun c hc => ?_
    cases r with
    | nil => exact List.all_eq_true.mp hz c (List.mem_of_mem_head? hc)
    | cons d r => exact hr c hc
  obtain ⟨ls'', -, hkinds'⟩ := kinds_written (written_name hname hstops) hls'
  rw [hkinds, hkinds']
  rfl

/-- A line of two words at least gives the notes of the first. -/
theorem ofLine?_of_words {b' t : List Char} (hb : allBlank b = true) (hname : IsName n)
    (hb' : allBlank b' = true) (hgap : b' ≠ []) (ht : EndsVisible t) (r : List Char) :
    ∃ trimmed, ofLine? (b ++ (n.toList ++ (b' ++ (t ++ r)))) =
      if ofFieldLine (b ++ (n.toList ++ (b' ++ (t ++ r)))) trimmed = {} then none
      else some (.field n (ofFieldLine (b ++ (n.toList ++ (b' ++ (t ++ r)))) trimmed)) := by
  have hvisible : EndsVisible (n.toList ++ (b' ++ t)) := (ht.append b').append n.toList
  obtain ⟨r', -, hright⟩ := trimRight_append hvisible r
  have hleft : trimLeft (b ++ (n.toList ++ (b' ++ (t ++ r)))) = n.toList ++ (b' ++ (t ++ r)) := by
    refine trimLeft_append hb ?_
    obtain ⟨c, v, hcv, hc, -⟩ := id hname
    rw [hcv]
    rintro _ ⟨⟩
    exact isBlank_of_isNameChar (Token.isNameChar_of_isNameStart hc)
  have htrim : Text.trim (b ++ (n.toList ++ (b' ++ (t ++ r)))) = n.toList ++ (b' ++ (t ++ r')) := by
    simpa [Text.trim, hleft] using hright
  exact ⟨_, ofLine?_of_trim_name hname (head?_append_blank hgap hb') htrim⟩

/-- The line of a field gives its notes. -/
theorem ofLine?_of_kinds (h : lexemes line = some ls) (hn : '\n' ∉ line) {t : String}
    (hks : kinds ls = .name n :: .name t :: ks) (hshown : Shown line line') :
    ∃ trimmed, ofLine? line' = if ofFieldLine line' trimmed = {} then none
      else some (.field n (ofFieldLine line' trimmed)) := by
  obtain ⟨b, w, r, ls, rfl, hb, hw, hr, hks⟩ := exists_of_kinds_cons h hn hks
  obtain ⟨rfl, hname, hstops⟩ := eq_of_written_name hw
  simp only [List.mem_append, not_or] at hn
  obtain ⟨b', w', r', ls, rfl, hb', hw', -, -⟩ := exists_of_kinds_cons hr hn.2.2 hks
  obtain ⟨rfl, htype, -⟩ := eq_of_written_name hw'
  have hvisible : EndsVisible t.toList := endsVisible_of_isName htype
  have hline : b ++ (n.toList ++ (b' ++ (t.toList ++ r'))) =
      (b ++ (n.toList ++ (b' ++ t.toList))) ++ r' := by simp
  rw [hline] at hshown
  obtain ⟨s', rfl⟩ := hshown.exists_append (((hvisible.append b').append n.toList).append b)
  have hnotes := ofLine?_of_words hb hname hb' (ne_nil_of_stops htype hstops) hvisible s'
  simpa using hnotes

end

end

end Datamodel.Notes
