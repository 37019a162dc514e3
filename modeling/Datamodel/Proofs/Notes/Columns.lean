import Datamodel.Proofs.Notes.Lexed

/-! The column name that the reader of notes finds on a line.

The reader looks for `@map("...")` character by character. On a line where that stands as the lexer
reads it, and nothing before it looks like it, the reader finds the name that the lexer reads
(`columnName?_of_mapping`); on a line without it, the reader finds none
(`columnName?_of_unmapped`). -/

namespace Datamodel.Notes

open Text (Clear after?_eq_some_iff clear_of_not_mem firstMatch_eq_none)
open Token (Kind Lexeme Written exists_of_lexemes_cons lexemes text_of_lexemes)
open Token.Lexeme (kinds kinds_append text text_append)

/-- `@map("...")` without blanks, the name standing as it is between the quotes. -/
def mapping (name : String) : List Lexeme :=
  [⟨['@'], some .marker⟩, ⟨"map".toList, some (.name "map")⟩, ⟨['('], some .openParen⟩,
    ⟨'"' :: (name.toList ++ ['"']), some (.text name)⟩, ⟨[')'], some .closeParen⟩]

/-- Lexemes among which no `@map(` stands in front of a literal and no `@@`, and no literal or
comment that holds `@map("`. -/
structure Unmapped (ls : List Lexeme) : Prop where
  marker : ∀ n, ¬[.marker, .name "map", .openParen, .text n] <:+: kinds ls
  blockMarker : .blockMarker ∉ kinds ls
  written : ∀ l ∈ ls, ¬"@map(\"".toList <:+: l.written

section
variable {s s' w r : List Char} {k : Option Kind} {l : Lexeme} {ls pre post : List Lexeme}
  {name : String}

theorem Unmapped.of_suffix (h : Unmapped ls) (hpost : post <:+ ls) : Unmapped post where
  marker := fun n hn => h.marker n (hn.trans (hpost.filterMap _).isInfix)
  blockMarker := fun hmem => h.blockMarker ((hpost.filterMap _).subset hmem)
  written := fun l hl => h.written l (hpost.subset hl)

theorem Unmapped.kind_ne (h : Unmapped ls) (hl : l ∈ ls) : l.kind ≠ some .blockMarker :=
  fun hkind => h.blockMarker (List.mem_filterMap.mpr ⟨l, hl, hkind⟩)

theorem eq_of_written_marker (h : Written w (some .marker) r) : w = ['@'] ∧ r.head? ≠ some '@' := by
  generalize hkind : some Kind.marker = kind at h
  cases h with
  | marker h => exact ⟨rfl, h⟩
  | @char c kind r h =>
    obtain rfl : Kind.marker = kind := Option.some.inj hkind
    unfold Kind.ofChar? at h
    split at h <;> cases h
  | @comment s r =>
    unfold Kind.ofComment at hkind
    split at hkind <;> cases hkind
  | blockMarker | text | number | blank | name => cases hkind

/-- Which lexemes hold an `@`. -/
theorem mem_at_of_written (h : Written w k r) : '@' ∉ w ∨ k = some .blockMarker ∨
    (k = some .marker ∧ r.head? ≠ some '@') ∨ (∃ body, w = body ++ ['"']) ∨
      ∀ c ∈ r.head?, c = '\n' := by
  cases h with
  | blockMarker => exact .inr (.inl rfl)
  | marker h => exact .inr (.inr (.inl ⟨rfl, h⟩))
  | @text body v r h => exact .inr (.inr (.inr (.inl ⟨'"' :: body, rfl⟩)))
  | comment hs hr => exact .inr (.inr (.inr (.inr hr)))
  | char h =>
    refine .inl fun hmem => ?_
    obtain rfl := List.mem_singleton.mp hmem
    cases h
  | blank h =>
    refine .inl fun hmem => ?_
    obtain rfl := List.mem_singleton.mp hmem
    exact absurd h (by decide)
  | number hc hs =>
    refine .inl fun hmem => ?_
    rcases List.mem_cons.mp hmem with rfl | hmem
    · exact absurd hc (by simp [Token.opensNumber, show '@'.isDigit = false from rfl])
    · exact absurd (List.all_eq_true.mp hs _ hmem) (by decide)
  | name hc hs =>
    refine .inl fun hmem => ?_
    rcases List.mem_cons.mp hmem with rfl | hmem
    · exact absurd hc (by decide)
    · exact absurd (List.all_eq_true.mp hs _ hmem) (by decide)

/-- In the lexemes in front of others, `@map("` starts nowhere but at a marker. -/
theorem clear_of_written (h : Written w k r) (hn : '\n' ∉ r) (hr : r ≠ [])
    (hw : ¬"@map(\"".toList <:+: w) (hmarker : k ≠ some .marker) (hblock : k ≠ some .blockMarker) :
    Clear "@map(\"".toList w := by
  rcases mem_at_of_written h with hat | hk | ⟨hk, -⟩ | ⟨body, rfl⟩ | hnewline
  · exact clear_of_not_mem rfl hat
  · exact absurd hk hblock
  · exact absurd hk hmarker
  · exact Text.clear_concat_of_dropLast hw (by decide)
  · obtain ⟨c, r', rfl⟩ := List.exists_cons_of_ne_nil hr
    exact absurd (by simp [hnewline c rfl]) hn

/-- In front of a marker stands another character. -/
theorem ne_of_written {c : Char} (h : Written (w ++ [c]) k r) (hr : r.head? = some '@')
    (hblock : k ≠ some .blockMarker) : c ≠ '@' := by
  rintro rfl
  rcases mem_at_of_written h with hat | hk | ⟨-, hhead⟩ | ⟨body, hbody⟩ | hnewline
  · exact hat (by simp)
  · exact hblock hk
  · exact hhead hr
  · exact absurd (List.append_inj' hbody rfl).2 (by decide)
  · exact absurd (hnewline '@' hr) (by decide)

/-- A literal that is written as its value holds no quote. -/
theorem not_mem_of_written_text
    (h : Written ('"' :: (name.toList ++ ['"'])) (some (.text name)) r) : '"' ∉ name.toList := by
  generalize hw : '"' :: (name.toList ++ ['"']) = w at h
  generalize hkind : some (Kind.text name) = kind at h
  cases h with
  | @text body v r h =>
    obtain rfl : name = String.ofList v := by
      cases hkind
      rfl
    obtain rfl : body = (String.ofList v).toList :=
      (List.append_inj' (List.cons.inj hw).2 rfl).1.symm
    rw [String.toList_ofList] at h ⊢
    exact Text.Quoted.not_mem_of_read_self (h r) rfl
  | @char c kind r h =>
    obtain rfl : Kind.text name = kind := Option.some.inj hkind
    unfold Kind.ofChar? at h
    split at h <;> cases h
  | @comment s r =>
    unfold Kind.ofComment at hkind
    split at hkind <;> cases hkind
  | blockMarker | marker | number | blank | name => cases hkind

theorem exists_of_written_quote (h : Written ('"' :: w) k r) : ∃ n, k = some (.text n) := by
  generalize hw : '"' :: w = w' at h
  cases h with
  | text => exact ⟨_, rfl⟩
  | char h =>
    cases hw
    cases h
  | blank h =>
    cases hw
    exact absurd h (by decide)
  | number hc =>
    cases hw
    exact absurd hc (by simp [Token.opensNumber, show '"'.isDigit = false from rfl])
  | name hc =>
    cases hw
    exact absurd hc (by decide)
  | blockMarker | marker | comment => cases hw

/-- Where the text goes on with `map("`, the lexer reads a name, a parenthesis and a literal. -/
theorem exists_kinds_of_prefix (h : lexemes s = some ls)
    (hstarts : "@map(\"".toList <+: '@' :: s) :
    ∃ n, [.name "map", .openParen, .text n] <+: kinds ls := by
  obtain ⟨t, ht⟩ := hstarts
  obtain rfl : "map".toList ++ (['('] ++ '"' :: t) = s := (List.cons.inj ht).2
  have hname : Written "map".toList (some (.name "map")) (['('] ++ '"' :: t) :=
    written_name (by decide) (.cons (by decide))
  have hparen : Written ['('] (some .openParen) ('"' :: t) := .char rfl
  obtain ⟨ls', hls', hkinds⟩ := kinds_written hname h
  obtain ⟨ls'', hls'', hkinds'⟩ := kinds_written hparen hls'
  cases ls'' with
  | nil => exact absurd (Token.lexemes_eq_nil hls'') (List.cons_ne_nil _ _)
  | cons l ls'' =>
    obtain ⟨r, hl, hwritten, -⟩ := exists_of_lexemes_cons hls''
    obtain ⟨c, w, hcw, -⟩ := hwritten.lexeme
    rw [hcw] at hl hwritten
    obtain rfl : '"' = c := (List.cons.inj hl).1
    obtain ⟨n, hn⟩ := exists_of_written_quote hwritten
    have hliteral : kinds (l :: ls'') = .text n :: kinds ls'' := List.filterMap_cons_some hn
    exact ⟨n, kinds ls'', by rw [hkinds, hkinds', hliteral]; rfl⟩

theorem prefix_of_prefix_append {α : Type} {us xs ys : List α} (h : us <+: xs ++ ys)
    (hys : ∀ y ∈ ys.head?, y ∉ us) : us <+: xs := by
  rcases List.prefix_or_prefix_of_prefix h (List.prefix_append xs ys) with hshort | ⟨c, rfl⟩
  · exact hshort
  · cases c with
    | nil =>
      rw [List.append_nil]
    | cons y c =>
      obtain ⟨more, rfl⟩ := (List.prefix_append_right_inj xs).mp h
      exact absurd (by simp) (hys y rfl)

theorem exists_of_lexemes_append (h : lexemes s = some (pre ++ ls)) :
    ∃ r, s = text pre ++ r ∧ lexemes r = some ls := by
  induction pre generalizing s with
  | nil => exact ⟨s, rfl, h⟩
  | cons l pre ih =>
    obtain ⟨r, rfl, -, hr⟩ := exists_of_lexemes_cons h
    obtain ⟨r', rfl, hr'⟩ := ih hr
    exact ⟨r', by simp [text], hr'⟩

/-- Within a lexeme `@map("` starts nowhere but at a marker. -/
theorem not_prefix_of_written (hwritten : Written l.written l.kind r) (hr : lexemes r = some ls)
    (hn : '\n' ∉ r) (hliteral : ¬"@map(\"".toList <:+: l.written)
    (hblock : l.kind ≠ some .blockMarker)
    (hmarker : l.kind = some .marker → ∀ n, ¬[.name "map", .openParen, .text n] <+: kinds ls)
    (hw : w <:+ l.written) (hne : w ≠ []) : ¬"@map(\"".toList <+: w ++ r := by
  by_cases hend : r = []
  · rw [hend, List.append_nil]
    exact fun hstarts => hliteral (hstarts.isInfix.trans hw.isInfix)
  by_cases hkind : l.kind = some .marker
  · rw [hkind] at hwritten
    obtain ⟨hat, -⟩ := eq_of_written_marker hwritten
    obtain rfl : w = ['@'] := by
      rw [hat] at hw
      exact hw.eq_of_length_le (List.length_pos_iff.mpr hne)
    intro hstarts
    obtain ⟨n, hkinds⟩ := exists_kinds_of_prefix hr hstarts
    exact hmarker hkind n hkinds
  · have hclear := clear_of_written hwritten hn hend hliteral hkind hblock
    exact (hclear.of_suffix hw).not_isPrefix hne r

/-- **`@map("` starts nowhere** in unmapped lexemes, whatever stands behind them. -/
theorem Unmapped.not_prefix (hpre : Unmapped pre) (h : lexemes s = some (pre ++ ls))
    (hn : '\n' ∉ s) (hls : ∀ k ∈ (kinds ls).head?, k = .marker) :
    ∀ u, u <:+ text pre → u ≠ [] → ¬"@map(\"".toList <+: u ++ text ls := by
  induction pre generalizing s with
  | nil =>
    intro u hu hne
    exact absurd (List.suffix_nil.mp hu) hne
  | cons l pre ih =>
    intro u hu hne
    obtain ⟨r, rfl, hwritten, hr⟩ := exists_of_lexemes_cons h
    have hr : lexemes r = some (pre ++ ls) := hr
    have hrn : '\n' ∉ r := fun hmem => hn (List.mem_append_right _ hmem)
    have hrtext : text pre ++ text ls = r := (text_append pre ls).symm.trans (text_of_lexemes hr)
    have hmore := ih (hpre.of_suffix (List.suffix_cons l pre)) hr hrn
    rw [text, List.flatMap_cons, ← text] at hu
    rcases List.suffix_or_suffix_of_suffix hu (List.suffix_append l.written (text pre)) with hu | hu
    · exact hmore u hu hne
    obtain ⟨w, rfl⟩ := hu
    by_cases hw : w = []
    · rw [hw, List.nil_append] at hne ⊢
      exact hmore _ List.suffix_rfl hne
    rw [List.append_assoc, hrtext]
    refine not_prefix_of_written hwritten hr hrn (hpre.written l List.mem_cons_self)
      (hpre.kind_ne List.mem_cons_self) (fun hkind n hkinds => hpre.marker n ?_)
      (List.suffix_append_self_iff.mp hu) hw
    rw [kinds_append] at hkinds
    obtain ⟨ks, hks⟩ := prefix_of_prefix_append hkinds fun k hk hmem => by
      rw [hls k hk] at hmem
      simp at hmem
    rw [kinds, List.filterMap_cons_some hkind, ← kinds, ← hks]
    exact ⟨[], ks, rfl⟩

/-! ### The name -/

theorem prefix_of_columnArgument? {v : String} (h : columnArgument? s = some v) :
    "@map(\"".toList <+: s := by
  unfold columnArgument? at h
  obtain ⟨r, hr, h⟩ := Option.bind_eq_some_iff.mp h
  obtain ⟨⟨value, r'⟩, hvalue, -⟩ := Option.bind_eq_some_iff.mp h
  rw [after?_eq_some_iff] at hr
  unfold Text.quotedPrefix? at hvalue
  split at hvalue
  · next r'' =>
    rw [hr]
    exact ⟨r'', rfl⟩
  · cases hvalue

/-- A line that maps nothing has no column name. -/
theorem columnName?_of_unmapped (h : lexemes s = some ls) (hn : '\n' ∉ s) (hls : Unmapped ls)
    (hshown : Shown s s') : columnName? s' = none := by
  obtain ⟨z, rfl, -⟩ := hshown.exists_blanks
  rw [columnName?_eq]
  apply firstMatch_eq_none
  intro u hu hne
  obtain ⟨c, t, rfl⟩ := List.exists_cons_of_ne_nil hne
  rw [columnBehind?]
  split
  · rfl
  · rw [Option.eq_none_iff_forall_ne_some]
    intro v hv
    have hstarts : "@map(\"".toList <+: t ++ z :=
      (prefix_of_columnArgument? hv).trans (List.prefix_append t z)
    have hsuffix : t ++ z <:+ text ls := by
      rw [text_of_lexemes h]
      exact List.suffix_append_self_iff.mpr ((List.suffix_cons c t).trans hu)
    have hne : t ++ z ≠ [] := by
      intro hnil
      rw [hnil] at hstarts
      exact absurd (List.prefix_nil.mp hstarts) (by decide)
    have h : lexemes (s' ++ z) = some (ls ++ []) := by rw [List.append_nil, h]
    refine hls.not_prefix h hn (by simp [kinds]) _ hsuffix hne ?_
    simpa [text] using hstarts

theorem text_mapping (name : String) :
    text (mapping name) = '@' :: ("map(".toList ++ ('"' :: (name.toList ++ ['"', ')']))) := by
  simp [text, mapping]

theorem not_mem_of_mapping (h : lexemes s = some (mapping name ++ post)) : '"' ∉ name.toList := by
  have hfront : mapping name ++ post = (mapping name).take 3 ++ ((mapping name).drop 3 ++ post) :=
    rfl
  rw [hfront] at h
  obtain ⟨_, -, htext⟩ := exists_of_lexemes_append h
  obtain ⟨_, -, hwritten, -⟩ := exists_of_lexemes_cons htext
  exact not_mem_of_written_text hwritten

/-- Unmapped lexemes in front of a marker end with another character. -/
theorem Unmapped.exists_concat (hpre : Unmapped pre) (hne : pre ≠ [])
    (h : lexemes s = some (pre ++ ls)) (hls : (text ls).head? = some '@') :
    ∃ front c, text pre = front ++ [c] ∧ c ≠ '@' := by
  obtain ⟨init, l, rfl⟩ := (List.eq_nil_or_concat' pre).resolve_left hne
  rw [List.append_assoc] at h
  obtain ⟨_, -, hl⟩ := exists_of_lexemes_append h
  obtain ⟨r, -, hwritten, hr⟩ := exists_of_lexemes_cons hl
  have hhead : r.head? = some '@' := by
    rw [← text_of_lexemes hr]
    exact hls
  obtain ⟨c, t, hct, -⟩ := hwritten.lexeme
  obtain ⟨w, d, hw⟩ := (List.eq_nil_or_concat' l.written).resolve_left (hct ▸ List.cons_ne_nil c t)
  rw [hw] at hwritten
  refine ⟨text init ++ w, d, ?_, ne_of_written hwritten hhead (hpre.kind_ne (by simp))⟩
  rw [text_append]
  simp [text, hw]

/-- The reader skips unmapped lexemes in front of a mapping. -/
theorem Unmapped.firstMatch_append {front : List Char} {c : Char} (hpre : Unmapped pre)
    (h : lexemes s = some (pre ++ (mapping name ++ post))) (hn : '\n' ∉ s)
    (hfront : text pre = front ++ [c]) (x : List Char) :
    Text.firstMatch columnBehind? (front ++ c :: (text (mapping name) ++ x)) =
      Text.firstMatch columnBehind? (c :: (text (mapping name) ++ x)) := by
  apply Text.firstMatch_append
  intro u hu hne
  obtain ⟨d, t, rfl⟩ := List.exists_cons_of_ne_nil hne
  rw [List.cons_append, columnBehind?]
  split
  · rfl
  rw [Option.eq_none_iff_forall_ne_some]
  intro v hv
  -- What starts in front of the mapping ends within it, so it does not depend on `x`.
  have hstarts := prefix_of_columnArgument? hv
  rw [List.append_cons, ← List.append_assoc] at hstarts
  have hopens : "@map(\"".toList <+: text (mapping name) := ⟨_, (text_mapping name).symm⟩
  have hshort : "@map(\"".toList <+: (t ++ [c]) ++ text (mapping name) := by
    refine List.prefix_of_prefix_length_le hstarts (List.prefix_append _ x) ?_
    rw [List.length_append]
    exact hopens.length_le.trans (Nat.le_add_left _ _)
  have hsuffix : t ++ [c] <:+ text pre := by
    rw [hfront]
    exact List.suffix_append_self_iff.mpr ((List.suffix_cons d t).trans hu)
  refine hpre.not_prefix h hn (by rintro _ ⟨⟩; rfl) _ hsuffix (by simp) ?_
  rw [text_append, ← List.append_assoc]
  exact hshort.trans (List.prefix_append _ _)

/-- **The column name of a line** is the one that the lexer reads, where it is written as it is. -/
theorem columnName?_of_mapping (h : lexemes s = some (pre ++ (mapping name ++ post)))
    (hn : '\n' ∉ s) (hpre : Unmapped pre) (hne : pre ≠ []) (hshown : Shown s s') :
    columnName? s' = some name := by
  obtain ⟨r, rfl, hr⟩ := exists_of_lexemes_append h
  obtain ⟨r', rfl, -⟩ := exists_of_lexemes_append hr
  have hat : (text (mapping name ++ post)).head? = some '@' := by
    rw [text_append, text_mapping]
    rfl
  obtain ⟨front, c, hfront, hc⟩ := hpre.exists_concat hne h hat
  have hvisible : EndsVisible (text (mapping name)) := by
    refine ⟨'@' :: ("map(".toList ++ ('"' :: (name.toList ++ ['"']))), ')', ?_, by decide⟩
    rw [text_mapping]
    simp
  rw [← List.append_assoc] at hshown
  obtain ⟨x, rfl⟩ := hshown.exists_append (hvisible.append (text pre))
  have hline : text pre ++ text (mapping name) ++ x =
      front ++ c :: (text (mapping name) ++ x) := by simp [hfront]
  rw [columnName?_eq, hline, hpre.firstMatch_append h hn hfront]
  apply Text.firstMatch_of_some (List.cons_ne_nil _ _)
  rw [columnBehind?, if_neg hc, text_mapping]
  have hmatch := columnArgument?_quoted (not_mem_of_mapping hr) x
  simpa using hmatch

end

end Datamodel.Notes
