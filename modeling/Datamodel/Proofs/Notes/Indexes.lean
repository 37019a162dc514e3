import Datamodel.Proofs.Notes.Lexed
import Datamodel.Proofs.Notes.Lines
import Datamodel.Proofs.Spacing.Tokens

/-! Secondary indexes on lines that the lexer reads.

The reader of notes takes a secondary index from a line that starts with `@@`, up to the last
closing parenthesis in it. A comment behind the index may hold one as well, which stands for no
token. So what is taken has the tokens of the line (`Notes.exists_index_of_kinds`). -/

namespace Datamodel

open Text (after? allBlank isBlank trim trimLeft)
open Token (IsSpacing Kind Lexeme Written lexemes)
open Token.Lexeme (kinds)

/-! ### The end of a line -/

namespace Token

section
variable {s : List Char} {ls : List Lexeme} {k : Kind} {ks : List Kind}

theorem IsSpacing.cons {c : Char} (h : IsSpacing s) (hc : isBlank c = true) (hn : c ≠ '\n') :
    IsSpacing (c :: s) := by
  have hmem : '\n' ∉ c :: s := List.not_mem_cons_of_ne_of_not_mem (Ne.symm hn) h.1
  obtain ⟨-, hblank | ⟨blanks, text, rfl, hblanks, htext⟩⟩ := h
  · exact ⟨hmem, .inl (by rw [allBlank, List.all_cons, hc]; exact hblank)⟩
  · exact ⟨hmem, .inr ⟨c :: blanks, text, rfl, by rw [allBlank, List.all_cons, hc]; exact hblanks,
      htext⟩⟩

theorem isSpacing_of_written {w : List Char} (h : Written w none []) (hn : '\n' ∉ w) :
    IsSpacing w := by
  generalize hkind : none = kind at h
  cases h with
  | blank hc _ => exact ⟨hn, .inl (by simp [allBlank, hc])⟩
  | @comment s _ hs _ =>
    exact ⟨hn, .inr ⟨[], s, rfl, rfl, Kind.ofComment_eq_none_iff.mp hkind.symm⟩⟩
  | char | blockMarker | marker | text | number | name => cases hkind

/-- A line without tokens is one of spacing. -/
theorem isSpacing_of_kinds (h : lexemes s = some ls) (hn : '\n' ∉ s) (hks : kinds ls = []) :
    IsSpacing s := by
  induction ls generalizing s with
  | nil =>
    rw [lexemes_eq_nil h]
    exact ⟨nofun, .inl rfl⟩
  | cons l ls ih =>
    obtain ⟨r, rfl, hwritten, hr⟩ := exists_of_lexemes_cons h
    have hnone : l.kind = none ∧ kinds ls = [] := by
      cases hkind : l.kind with
      | none => simpa [kinds, hkind] using hks
      | some k => simp [kinds, hkind] at hks
    rw [hnone.1] at hwritten
    by_cases hnil : r = []
    · subst hnil
      rw [List.append_nil] at hn ⊢
      exact isSpacing_of_written hwritten hn
    · obtain ⟨c, hc, hw⟩ := Notes.exists_blank_of_written hwritten hn hnil
      rw [hw] at hn ⊢
      simp only [List.singleton_append, List.mem_cons, not_or] at hn
      exact (ih hr hn.2 hnone.2).cons hc (Ne.symm hn.1)

theorem lexemes_blanks {b : List Char} (hb : allBlank b = true) (hn : '\n' ∉ b)
    (h : lexemes s = some ls) : ∃ ls', lexemes (b ++ s) = some ls' ∧ kinds ls' = kinds ls := by
  induction b with
  | nil => exact ⟨ls, h, rfl⟩
  | cons c b ih =>
    simp only [allBlank, List.all_cons, Bool.and_eq_true] at hb
    simp only [List.mem_cons, not_or] at hn
    obtain ⟨ls', hls', hkinds⟩ := ih hb.2 hn.2
    have hc : Written [c] none (b ++ s) := .blank hb.1 (Ne.symm hn.1)
    refine ⟨⟨[c], none⟩ :: ls', ?_, hkinds⟩
    rw [List.cons_append, ← List.singleton_append, lexemes_append hc, hls']
    rfl

theorem lexemes_nil : lexemes [] = some [] := by rw [lexemes]

theorem IsSpacing.exists_lexemes (h : IsSpacing s) : ∃ ls, lexemes s = some ls ∧ kinds ls = [] := by
  obtain ⟨hn, hblank | ⟨blanks, text, rfl, hblanks, htext⟩⟩ := h
  · obtain ⟨ls, hls, hkinds⟩ := lexemes_blanks hblank hn lexemes_nil
    rw [List.append_nil] at hls
    exact ⟨ls, hls, hkinds⟩
  · simp only [List.mem_append, List.mem_cons, not_or] at hn
    have hcomment : Written ('/' :: '/' :: text) (Kind.ofComment text) [] :=
      .comment hn.2.2.2 nofun
    have hlexemes := lexemes_append hcomment
    rw [List.append_nil, lexemes_nil, Kind.ofComment_eq_none_iff.mpr htext] at hlexemes
    obtain ⟨ls, hls, hkinds⟩ := lexemes_blanks hblanks hn.1 hlexemes
    exact ⟨ls, hls, hkinds⟩

/-- A start of a line of spacing is spacing, unless it cuts the slashes of the comment. -/
theorem IsSpacing.of_prefix {s' : List Char} (h : IsSpacing s) (hs' : s' <+: s)
    (hlast : s'.getLast? ≠ some '/') : IsSpacing s' := by
  have hn : '\n' ∉ s' := fun hmem => h.1 (hs'.subset hmem)
  have hblank {b : List Char} (hb : allBlank b = true) (h : s' <+: b) : allBlank s' = true :=
    List.all_eq_true.mpr fun c hc => List.all_eq_true.mp hb c (h.subset hc)
  obtain ⟨-, hall | ⟨blanks, text, rfl, hblanks, htext⟩⟩ := h
  · exact ⟨hn, .inl (hblank hall hs')⟩
  · rcases List.prefix_or_prefix_of_prefix hs' (List.prefix_append blanks _) with h | ⟨t, rfl⟩
    · exact ⟨hn, .inl (hblank hblanks h)⟩
    · have ht := (List.prefix_append_right_inj blanks).mp hs'
      match t, ht with
      | [], _ => exact ⟨hn, .inl (by rwa [List.append_nil])⟩
      | [c], ht =>
        obtain ⟨rfl, -⟩ := List.cons_prefix_cons.mp ht
        simp at hlast
      | c :: d :: text', ht =>
        simp only [List.cons_prefix_cons] at ht
        obtain ⟨rfl, rfl, ht⟩ := ht
        refine ⟨hn, .inr ⟨blanks, text', rfl, hblanks, fun hhead => htext ?_⟩⟩
        obtain ⟨more, rfl⟩ := List.head?_eq_some_iff.mp hhead
        obtain ⟨_, rfl⟩ := ht
        rfl

/-- The last token of a line, and what may stand behind it instead. -/
theorem exists_of_kinds_concat (h : lexemes s = some ls) (hn : '\n' ∉ s)
    (hks : kinds ls = ks ++ [k]) : ∃ front w r, s = front ++ (w ++ r) ∧ Written w (some k) r ∧
      IsSpacing r ∧ ∀ r', IsSpacing r' → Written w (some k) r' →
        ∃ ls', lexemes (front ++ (w ++ r')) = some ls' ∧ kinds ls' = ks ++ [k] := by
  induction ls generalizing s ks with
  | nil => simp [kinds] at hks
  | cons l ls ih =>
    obtain ⟨r, rfl, hwritten, hr⟩ := exists_of_lexemes_cons h
    have hnr : '\n' ∉ r := fun hmem => hn (List.mem_append_right _ hmem)
    rw [Lexeme.kinds_cons] at hks
    rcases List.eq_nil_or_concat' (kinds ls) with hnil | ⟨ks', k', hkinds⟩
    · obtain ⟨hkind, rfl⟩ : l.kind = some k ∧ ks = [] := by
        rw [hnil, List.append_nil] at hks
        cases hkind : l.kind <;> simp_all [List.cons_eq_append_iff]
      rw [hkind] at hwritten
      refine ⟨[], l.written, r, rfl, hwritten, isSpacing_of_kinds hr hnr hnil, fun r' hr' hw => ?_⟩
      obtain ⟨ls', hls', hkinds⟩ := hr'.exists_lexemes
      refine ⟨⟨l.written, some k⟩ :: ls', ?_, by rw [Lexeme.kinds_cons, hkinds]; rfl⟩
      rw [List.nil_append, lexemes_append hw, hls']
      rfl
    · rw [hkinds, ← List.append_assoc] at hks
      obtain ⟨rfl, hlast⟩ := List.append_inj' hks rfl
      obtain rfl := List.singleton_inj.mp hlast
      obtain ⟨front, w, r, rfl, hw, hspacing, hmore⟩ := ih hr hnr hkinds
      refine ⟨l.written ++ front, w, r, by simp, hw, hspacing, fun r' hr' hw' => ?_⟩
      obtain ⟨ls', hls', hkinds'⟩ := hmore r' hr' hw'
      have hfirst : Written l.written l.kind (front ++ (w ++ r')) := by
        refine hwritten.of_head ?_
        obtain ⟨c, t, rfl, -⟩ := hw.lexeme
        simp [List.head?_append]
      refine ⟨l :: ls', ?_, by rw [Lexeme.kinds_cons, hkinds', List.append_assoc]⟩
      rw [List.append_assoc, lexemes_append hfirst, hls']
      rfl

end

end Token

namespace Notes

/-! ### The secondary index of a line -/

/-- The secondary index on a line of a model. -/
def indexNote? (line : List Char) : Option String :=
  (ofLine? line).bind LineNote.secondaryIndex?

section
variable {line s : List Char} {ls : List Lexeme} {ks : List Kind} {t : String}

theorem indexNote?_of_trim (h : trim line = "@@".toList ++ s) :
    indexNote? line = secondaryIndex? ("@@".toList ++ s) := by
  rw [indexNote?, ofLine?_of_trim h]
  cases secondaryIndex? ("@@".toList ++ s) <;> rfl

theorem indexNote?_of_indexMark (h : trim line = indexMark ++ s) :
    indexNote? line = secondaryIndex? (indexMark ++ s) := by
  have hmark : indexMark = "@@".toList ++ "index(".toList := by decide
  rw [hmark, List.append_assoc] at h ⊢
  exact indexNote?_of_trim h

theorem exists_of_indexNote? (h : indexNote? line = some t) :
    ∃ s, trim line = "@@".toList ++ s ∧ secondaryIndex? (trim line) = some t := by
  cases hmark : after? "@@".toList (trim line) with
  | some s =>
    rw [Text.after?_eq_some_iff] at hmark
    rw [indexNote?_of_trim hmark, ← hmark] at h
    exact ⟨s, hmark, h⟩
  | none =>
    obtain ⟨note, hnote, h⟩ := Option.bind_eq_some_iff.mp h
    simp only [ofLine?, hmark] at hnote
    split at hnote
    · cases hnote
    · split at hnote
      · contradiction
      · split at hnote <;> cases hnote
        cases h

/-- A secondary index is taken from a line that starts with the marker of a block attribute, and
holds what is looked for. -/
theorem head?_kinds_of_indexNote? (h : lexemes line = some ls) (hn : '\n' ∉ line)
    (hnote : indexNote? line = some t) :
    (kinds ls).head? = some .blockMarker ∧ indexMark <:+: line := by
  obtain ⟨s, htrim, hindex⟩ := exists_of_indexNote? hnote
  constructor
  · obtain ⟨b, hb, hleft⟩ := Text.exists_trimLeft line
    obtain ⟨b', -, hright⟩ := Text.exists_trimRight (trimLeft line)
    rw [show Text.trimRight (trimLeft line) = _ from htrim] at hright
    rw [hleft, hright] at h hn
    rw [List.mem_append, not_or] at hn
    obtain ⟨ls', hls', hkinds⟩ := kinds_blanks hb hn.1 h
    have hmarker : Written ['@', '@'] (some .blockMarker) (s ++ b') := .blockMarker
    obtain ⟨more, -, hkinds'⟩ := kinds_written hmarker hls'
    rw [hkinds, hkinds']
    rfl
  · by_contra hnone
    have hclear := opensWith_index.firstMatch_eq_none_of_not_infix fun hinside =>
      hnone (hinside.trans (Text.trim_infix line))
    rw [secondaryIndex?_eq, hclear] at hindex
    cases hindex

theorem secondaryIndex?_indexMark (args r : List Char) (hn : '\n' ∉ args ++ ')' :: r) :
    ∃ r', r' <+: r ∧ (∀ c ∈ r'.getLast?, c = ')') ∧
      secondaryIndex? (indexMark ++ (args ++ ')' :: r)) =
        some (String.ofList (indexMark ++ (args ++ ')' :: r'))) := by
  obtain ⟨r', hr', hlast, hthrough⟩ := Text.exists_throughLast?_append ')' args r
  refine ⟨r', hr', hlast, Text.firstMatch_of_some nofun ?_⟩
  show indexArgument? _ = _
  rw [indexArgument?, Text.after?_eq_some_iff.mpr rfl, Option.bind_some,
    List.takeWhile_eq_self_iff.mpr (Text.bne_of_not_mem hn), hthrough, Option.bind_some]

/-- What is looked for stands for three tokens. -/
theorem kinds_of_indexMark (h : lexemes line = some ls) (hn : '\n' ∉ line)
    (hmark : indexMark <+: trimLeft line) :
    ∃ args, kinds ls = .blockMarker :: .name "index" :: .openParen :: args := by
  obtain ⟨b, hb, hleft⟩ := Text.exists_trimLeft line
  obtain ⟨s, hs⟩ := hmark
  rw [hleft, ← hs] at h hn
  rw [List.mem_append, not_or] at hn
  obtain ⟨ls₁, hls₁, hkinds₁⟩ := kinds_blanks hb hn.1 h
  have hmarker : Written ['@', '@'] (some .blockMarker) ("index".toList ++ '(' :: s) := .blockMarker
  obtain ⟨ls₂, hls₂, hkinds₂⟩ := kinds_written hmarker hls₁
  have hname : Written "index".toList (some (.name "index")) (['('] ++ s) :=
    written_name (by decide) (by rintro _ ⟨⟩; decide)
  obtain ⟨ls₃, hls₃, hkinds₃⟩ := kinds_written hname hls₂
  have hparen : Written ['('] (some .openParen) s := .char rfl
  obtain ⟨ls₄, -, hkinds₄⟩ := kinds_written hparen hls₃
  exact ⟨kinds ls₄, by rw [hkinds₁, hkinds₂, hkinds₃, hkinds₄]⟩

/-- **What is taken for a secondary index** has the tokens of its line. -/
theorem exists_index_of_kinds (h : lexemes line = some ls) (hn : '\n' ∉ line)
    (hmark : indexMark <+: trimLeft line) (hks : kinds ls = ks ++ [.closeParen]) :
    ∃ entry ls', indexNote? line = some (String.ofList entry) ∧ lexemes entry = some ls' ∧
      '\n' ∉ entry ∧ kinds ls' = kinds ls := by
  obtain ⟨b, hb, hleft⟩ := Text.exists_trimLeft line
  rw [hleft] at h hn
  rw [List.mem_append, not_or] at hn
  obtain ⟨ls', hls', hkinds⟩ := kinds_blanks hb hn.1 h
  rw [hkinds] at hks
  obtain ⟨front, w, r, hline, hw, hspacing, hmore⟩ :=
    Token.exists_of_kinds_concat hls' hn.2 hks
  obtain rfl := eq_of_written_char (c := ')') rfl hw
  rw [hline] at hmark hn hleft
  obtain ⟨args, rfl⟩ : ∃ args, front = indexMark ++ args := by
    obtain ⟨x, hx⟩ := hmark
    rcases exists_of_append_eq_append_cons hx with ⟨c, hc, -⟩ | ⟨args, hargs, -⟩
    · exact absurd (show ')' ∈ indexMark by rw [hc]; simp) (by decide)
    · exact ⟨args, hargs⟩
  obtain ⟨r₁, hr₁, htrim⟩ := trimRight_append
    (s := indexMark ++ args ++ [')']) ⟨_, ')', rfl, by decide⟩ r
  have hkept {r' : List Char} (hr' : r' <+: r) : '\n' ∉ indexMark ++ (args ++ ')' :: r') := by
    obtain ⟨more, rfl⟩ := hr'
    intro hmem
    refine hn.2 ?_
    have hsplit : indexMark ++ args ++ ([')'] ++ (r' ++ more)) =
        (indexMark ++ (args ++ ')' :: r')) ++ more := by simp
    rw [hsplit]
    exact List.mem_append_left more hmem
  obtain ⟨r₂, hr₂, hlast, hindex⟩ := secondaryIndex?_indexMark args r₁ fun hmem =>
    hkept hr₁ (List.mem_append_right _ hmem)
  obtain ⟨ls₂, hls₂, hkinds₂⟩ := hmore r₂
    (hspacing.of_prefix (hr₂.trans hr₁) fun hslash => absurd (hlast _ hslash) (by decide))
    (.char rfl)
  refine ⟨indexMark ++ (args ++ ')' :: r₂), ls₂, ?_, by simpa using hls₂,
    hkept (hr₂.trans hr₁), ?_⟩
  · rw [← hindex]
    refine indexNote?_of_indexMark ?_
    rw [trim, hline, ← List.append_assoc, htrim]
    simp
  · rw [hkinds₂, hkinds, hks]

end

end Notes

end Datamodel
