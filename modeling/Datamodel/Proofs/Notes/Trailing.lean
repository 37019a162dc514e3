import Datamodel.Proofs.Notes.Models
import Datamodel.Proofs.Notes.Pieces

/-! Comments behind the lines of a text.

The reader of notes does not know where a comment starts and looks for its patterns in there as
well. So a comment has a say in the notes of its line, unless it is quiet there: it holds nothing
that is looked for, and nothing that ends what the line left open (`Notes.ofLine?_comment_append`).
It never has a say in which model a line opens (`Notes.openedModel?_comment_append`). -/

namespace Datamodel

open Text (after? after?_append allBlank firstMatch firstMatch_append_right isBlank joinLines
  trimLeft)

namespace Notes

variable {text line x p : List Char} {c : Char}

/-! ### What stands behind a line -/

/-- A comment with a start of `text` in it, behind blanks. -/
def IsRemark (text x : List Char) : Prop := ∃ blanks text',
  x = blanks ++ ' ' :: '/' :: '/' :: text' ∧ allBlank blanks = true ∧ text' <+: text

theorem isRemark_comment (text : List Char) : IsRemark text (' ' :: '/' :: '/' :: text) :=
  ⟨[], text, rfl, rfl, List.prefix_rfl⟩

namespace IsRemark

theorem head? (h : IsRemark text x) : ∀ c ∈ x.head?, isBlank c = true := by
  obtain ⟨blanks, text', rfl, hblanks, -⟩ := h
  cases blanks with
  | nil => rintro _ ⟨⟩; decide
  | cons c blanks =>
    rintro _ ⟨⟩
    exact List.all_eq_true.mp hblanks c List.mem_cons_self

theorem not_mem (h : IsRemark text x) (hc : c ∉ text) (hblank : isBlank c = false)
    (hslash : c ≠ '/') : c ∉ x := by
  obtain ⟨blanks, text', rfl, hblanks, htext⟩ := h
  have hspace : c ≠ ' ' := by
    rintro rfl
    exact absurd hblank (by decide)
  simp only [List.mem_append, List.mem_cons, not_or]
  refine ⟨fun hmem => ?_, hspace, hslash, hslash, fun hmem => hc (htext.subset hmem)⟩
  exact absurd (List.all_eq_true.mp hblanks c hmem) (by simp [hblank])

theorem not_infix (h : IsRemark text x) (hp : ¬p <:+: text)
    (hsign : ∀ c ∈ p, isBlank c = false ∧ c ≠ '/') : ¬p <:+: x := by
  obtain ⟨blanks, text', rfl, hblanks, htext⟩ := h
  have hspace : ' ' ∉ p := fun hmem => absurd (hsign ' ' hmem).1 (by decide)
  have hslash : '/' ∉ p := fun hmem => (hsign '/' hmem).2 rfl
  intro hinside
  rcases Text.infix_or_infix_of_append_cons hspace hinside with h | h
  · cases p with
    | nil => exact hp List.nil_infix
    | cons c p =>
      have hc := List.all_eq_true.mp hblanks c (h.subset List.mem_cons_self)
      exact absurd (hsign c List.mem_cons_self).1 (by simp [hc])
  · have htext' := Text.infix_of_infix_cons hslash (Text.infix_of_infix_cons hslash h)
    exact hp (htext'.trans htext.isInfix)

theorem not_infix_append (h : IsRemark text x) (hp : ¬p <:+: text) (hline : ¬p <:+: line)
    (hsign : ∀ c ∈ p, isBlank c = false ∧ c ≠ '/') : ¬p <:+: line ++ x := by
  intro hinside
  cases x with
  | nil => exact hline (by simpa using hinside)
  | cons c x =>
    have hc : c ∉ p := fun hmem => absurd (hsign c hmem).1 (by simp [h.head? c rfl])
    rcases Text.infix_or_infix_of_append_cons hc hinside with hinside | hinside
    · exact hline hinside
    · exact h.not_infix hp hsign (hinside.trans (List.suffix_cons c x).isInfix)

theorem trimLeft_append (h : IsRemark text x) (s : List Char) :
    trimLeft (s ++ x) = trimLeft s ++ x ∨
      allBlank s = true ∧ ∃ r, trimLeft (s ++ x) = '/' :: r := by
  by_cases hs : allBlank s = true
  · obtain ⟨blanks, text', rfl, hblanks, -⟩ := h
    refine .inr ⟨hs, '/' :: text', ?_⟩
    have hall : allBlank (s ++ (blanks ++ [' '])) = true := by
      simp only [allBlank, List.all_append, Bool.and_eq_true] at hs hblanks ⊢
      exact ⟨hs, hblanks, by decide⟩
    have htext : s ++ (blanks ++ ' ' :: '/' :: '/' :: text') =
        (s ++ (blanks ++ [' '])) ++ '/' :: '/' :: text' := by simp
    rw [htext]
    exact Notes.trimLeft_append hall (by rintro _ ⟨⟩; decide)
  · exact .inl (Text.trimLeft_append_right (Bool.eq_false_iff.mpr hs) x)

end IsRemark

/-- A line with a comment behind it, trimmed. -/
theorem exists_trim_append (h : allBlank line = false) (text : List Char) : ∃ x,
    IsRemark text x ∧ Text.trim (line ++ ' ' :: '/' :: '/' :: text) = Text.trim line ++ x := by
  obtain ⟨b, hb, hline⟩ := Text.exists_trimRight (trimLeft line)
  have hvisible : EndsVisible (trimLeft line ++ [' ', '/', '/']) :=
    ⟨trimLeft line ++ [' ', '/'], '/', by simp, by decide⟩
  obtain ⟨text', hprefix, htrim⟩ := trimRight_append hvisible text
  refine ⟨b ++ ' ' :: '/' :: '/' :: text', ⟨b, text', rfl, hb, hprefix⟩, ?_⟩
  have hsplit : line ++ ' ' :: '/' :: '/' :: text = line ++ ([' ', '/', '/'] ++ text) := rfl
  rw [Text.trim, hsplit, Text.trimLeft_append_right h, ← List.append_assoc, htrim, Text.trim,
    ← List.append_assoc, ← hline]
  simp

/-! ### The patterns -/

theorem parenthesized_append (hx : ∀ c ∈ x.head?, isBlank c = true) (hparen : ')' ∉ x)
    (s : List Char) : parenthesized (s ++ x) = parenthesized s := by
  have hnone {s : List Char} (h : s.head? ≠ some '(') : parenthesized s = [] := by
    unfold parenthesized
    split
    · exact absurd rfl h
    · rfl
  cases s with
  | nil =>
    rw [List.nil_append, hnone, hnone (by simp)]
    exact fun hhead => absurd (hx _ hhead) (by decide)
  | cons c s =>
    by_cases hc : c = '('
    · subst hc
      by_cases hs : ')' ∈ s
      · obtain ⟨u, v, rfl, hu⟩ := List.eq_append_cons_of_mem hs
        rw [List.cons_append, List.append_assoc, List.cons_append]
        cases u with
        | nil => rfl
        | cons c u =>
          rw [parenthesized_args (List.cons_ne_nil c u) hu,
            parenthesized_args (List.cons_ne_nil c u) hu]
      · have hopen {r : List Char} (hr : ')' ∉ r) : parenthesized ('(' :: r) = [] := by
          have hspan := Text.span_append (t := []) (Text.bne_of_not_mem hr) nofun
          rw [List.append_nil] at hspan
          rw [parenthesized, hspan]
          cases r <;> rfl
        rw [List.cons_append, hopen hs, hopen (by simp [hs, hparen])]
    · rw [List.cons_append, hnone (by simpa using hc), hnone (by simpa using hc)]

theorem nativePrefix?_append (hx : ∀ c ∈ x.head?, isBlank c = true) (hparen : ')' ∉ x)
    (s : List Char) : nativePrefix? (s ++ x) = nativePrefix? s := by
  have hstop : ∀ c ∈ x.head?, (!(isBlank c || c == '(' || c == ')')) = false := by
    intro c hc
    simp [hx c hc]
  rw [nativePrefix?, nativePrefix?,
    after?_append (not_mem_of_head_isBlank hx (p := "@db.".toList) (by decide))]
  cases after? "@db.".toList s with
  | none => rfl
  | some r =>
    simp only [Option.map_some, Option.bind_some, Text.span_append_right hstop]
    rcases Text.span (fun c => !(isBlank c || c == '(' || c == ')')) r with ⟨_ | ⟨c, name⟩, r'⟩
    · rfl
    · simp only [parenthesized_append hx hparen]

theorem opensWith_native : Text.OpensWith "@db.".toList nativePrefix? := opensWith_bind

theorem nativeType?_append (hx : ∀ c ∈ x.head?, isBlank c = true) (hparen : ')' ∉ x)
    (hword : ¬"@db.".toList <:+: x) (line : List Char) :
    nativeType? (line ++ x) = nativeType? line :=
  firstMatch_append_right (fun u _ => nativePrefix?_append hx hparen u)
    (opensWith_native.firstMatch_eq_none_of_not_infix hword) line

theorem relationPart_cons (c : Char) (s : List Char) : relationPart (c :: s) =
    if (after? "@relation(".toList (c :: s)).isSome then c :: s else relationPart s := by
  rw [relationPart, relationPart, firstMatch]
  cases after? "@relation(".toList (c :: s) <;> rfl

theorem relationPart_suffix (s : List Char) : relationPart s <:+ s := by
  induction s with
  | nil => exact List.suffix_rfl
  | cons c s ih =>
    rw [relationPart_cons]
    split
    · exact List.suffix_rfl
    · exact ih.trans (List.suffix_cons c s)

/-- The arguments of a relation go on to the end of the line, whatever stands there. -/
theorem relationPart_append (hx : ∀ c ∈ x.head?, isBlank c = true) (line : List Char) :
    relationPart (line ++ x) = relationPart line ++ x ∨
      relationPart line = [] ∧ relationPart (line ++ x) <:+ x := by
  induction line with
  | nil => exact .inr ⟨rfl, relationPart_suffix x⟩
  | cons c s ih =>
    have hafter := after?_append (not_mem_of_head_isBlank hx (p := "@relation(".toList) (by decide))
      (c :: s)
    rw [List.cons_append] at hafter ⊢
    rw [relationPart_cons, relationPart_cons, hafter, Option.isSome_map]
    split
    · exact .inl rfl
    · exact ih

theorem actionPrefix?_append (hx : ∀ c ∈ x.head?, isBlank c = true) (s : List Char) :
    actionPrefix? (s ++ x) = actionPrefix? s := by
  refine congrArg (List.find? · ReferentialAction.all) (funext fun action => ?_)
  have hvisible : ∀ c ∈ action.toText.toList, isBlank c = false := by cases action <;> decide
  rw [after?_append (not_mem_of_head_isBlank hx hvisible), Option.isSome_map]

theorem updateArgument?_append (h : IsRemark text x) (s : List Char) :
    updateArgument? (s ++ x) = updateArgument? s := by
  rw [updateArgument?, updateArgument?,
    after?_append (not_mem_of_head_isBlank h.head? (p := "onUpdate:".toList) (by decide))]
  cases after? "onUpdate:".toList s with
  | none => rfl
  | some r =>
    rw [Option.map_some, Option.bind_some, Option.bind_some]
    rcases h.trimLeft_append r with htrim | ⟨hr, r', htrim⟩
    · rw [htrim, actionPrefix?_append h.head?]
    · rw [htrim, Text.trimLeft_eq_nil_iff.mpr hr]
      rfl

/-- The update action of a relation is read from the line in front of a comment that names none. -/
theorem onUpdate?_append (h : IsRemark text x) (hword : ¬"onUpdate:".toList <:+: x)
    (line : List Char) : onUpdate? (relationPart (line ++ x)) = onUpdate? (relationPart line) := by
  rw [onUpdate?_eq, onUpdate?_eq]
  rcases relationPart_append h.head? line with hpart | ⟨hnone, hsuffix⟩
  · rw [hpart]
    exact firstMatch_append_right (fun u _ => updateArgument?_append h u)
      (opensWith_update.firstMatch_eq_none_of_not_infix hword) _
  · rw [hnone]
    exact opensWith_update.firstMatch_eq_none_of_not_infix
      fun hinside => hword (hinside.trans hsuffix.isInfix)

theorem mapArgument?_eq_none {s : List Char} (h : '"' ∉ s) : mapArgument? s = none := by
  cases s with
  | nil => rfl
  | cons c s =>
    rw [mapArgument?]
    split
    · rfl
    · cases hafter : after? "map:".toList s with
      | none => rfl
      | some r =>
        have hr : '"' ∉ (trimLeft r).tail := by
          intro hmem
          have hmem' := (List.dropWhile_suffix isBlank).subset (List.mem_of_mem_tail hmem)
          rw [Text.after?_eq_some_iff.mp hafter] at h
          exact h (by simp [hmem'])
        rw [Option.bind_some, Text.quotedPrefix?_eq_none hr, Option.bind_none]

theorem mapArgument?_append (h : IsRemark text x) (hquote : '"' ∉ x) {s : List Char}
    (hs : s ≠ []) : mapArgument? (s ++ x) = mapArgument? s := by
  obtain ⟨c, s, rfl⟩ := List.exists_cons_of_ne_nil hs
  rw [List.cons_append, mapArgument?, mapArgument?,
    after?_append (not_mem_of_head_isBlank h.head? (p := "map:".toList) (by decide))]
  split
  · rfl
  · cases after? "map:".toList s with
    | none => rfl
    | some r =>
      rw [Option.map_some, Option.bind_some, Option.bind_some]
      rcases h.trimLeft_append r with htrim | ⟨hr, r', htrim⟩
      · rw [htrim, Text.quotedPrefix?_append hquote]
        cases Text.quotedPrefix? (trimLeft r) <;> rfl
      · rw [htrim, Text.trimLeft_eq_nil_iff.mpr hr]
        rfl

/-- The name of a constraint is read from the line in front of a comment without quotes. -/
theorem relationMap?_append (h : IsRemark text x) (hquote : '"' ∉ x) (line : List Char) :
    relationMap? (relationPart (line ++ x)) = relationMap? (relationPart line) := by
  have hnone {s : List Char} (hs : '"' ∉ s) : firstMatch mapArgument? s = none :=
    Text.firstMatch_eq_none fun u hu _ => mapArgument?_eq_none fun hmem => hs (hu.subset hmem)
  rw [relationMap?_eq, relationMap?_eq]
  rcases relationPart_append h.head? line with hpart | ⟨hnil, hsuffix⟩
  · rw [hpart]
    exact firstMatch_append_right (fun u hu => mapArgument?_append h hquote hu) (hnone hquote) _
  · rw [hnil]
    exact hnone fun hmem => hquote (hsuffix.subset hmem)

theorem indexArgument?_append (hx : ∀ c ∈ x.head?, isBlank c = true) (hparen : ')' ∉ x)
    (s : List Char) : indexArgument? (s ++ x) = indexArgument? s := by
  rw [indexArgument?, indexArgument?,
    after?_append (not_mem_of_head_isBlank hx (p := indexMark) (by decide))]
  cases after? indexMark s with
  | none => rfl
  | some r =>
    obtain ⟨x', htake, hx'⟩ := Text.takeWhile_append_subset (· != '\n') r x
    rw [Option.map_some, Option.bind_some, Option.bind_some, htake,
      Text.throughLast?_append fun hmem => hparen (hx'.subset hmem)]

theorem indexArgument?_eq_none {s : List Char} (h : ')' ∉ s) : indexArgument? s = none := by
  rw [indexArgument?]
  cases hafter : after? indexMark s with
  | none => rfl
  | some r =>
    have hr : ')' ∉ r.takeWhile (· != '\n') := by
      intro hmem
      rw [Text.after?_eq_some_iff.mp hafter] at h
      exact h (List.mem_append_right _ ((List.takeWhile_prefix _).subset hmem))
    rw [Option.bind_some, Text.throughLast?_eq_none hr, Option.bind_none]

/-- A secondary index is read from the line in front of a comment without a closing parenthesis. -/
theorem secondaryIndex?_append (hx : ∀ c ∈ x.head?, isBlank c = true) (hparen : ')' ∉ x)
    (line : List Char) : secondaryIndex? (line ++ x) = secondaryIndex? line := by
  rw [secondaryIndex?_eq, secondaryIndex?_eq]
  exact firstMatch_append_right (fun u _ => indexArgument?_append hx hparen u)
    (Text.firstMatch_eq_none fun u hu _ =>
      indexArgument?_eq_none fun hmem => hparen (hu.subset hmem)) line

/-! ### Quiet comments -/

/-- A comment with that text has no say in what the line in front of it says. -/
structure Quiet (line text : List Char) : Prop where
  index : "@@".toList <+: Text.trim line → ')' ∈ text →
    ¬indexMark <:+: line ∧ ¬indexMark <:+: text
  quoted : ¬"@@".toList <+: Text.trim line → '"' ∈ text →
    ∀ word ∈ ["@map(".toList, "map:".toList], ¬word <:+: line ∧ ¬word <:+: text
  native : ¬"@@".toList <+: Text.trim line → ¬"@db.".toList <:+: text ∧
    (')' ∈ text → ¬"@db.".toList <:+: line)
  update : ¬"@@".toList <+: Text.trim line → ¬"onUpdate:".toList <:+: text

/-- A quiet comment has no say in the notes of a field. -/
theorem Quiet.ofFieldLine_append (h : Quiet line text)
    (hfield : ¬"@@".toList <+: Text.trim line) (hx : IsRemark text x) :
    ofFieldLine (line ++ ' ' :: '/' :: '/' :: text) (Text.trim line ++ x) =
      ofFieldLine line (Text.trim line) := by
  have hcomment := isRemark_comment text
  have htrim {p : List Char} (hp : ¬p <:+: line) : ¬p <:+: Text.trim line :=
    fun hinside => hp (hinside.trans (Text.trim_infix line))
  have hpart {p : List Char} {s : List Char} (hp : ¬p <:+: s) : ¬p <:+: relationPart s :=
    fun hinside => hp (hinside.trans (relationPart_suffix s).isInfix)
  obtain ⟨hnative, hnativeLine⟩ := h.native hfield
  have hcolumn : columnName? (line ++ ' ' :: '/' :: '/' :: text) = columnName? line := by
    by_cases hquote : '"' ∈ text
    · obtain ⟨hline, htext⟩ := h.quoted hfield hquote "@map(".toList (by simp)
      rw [columnName?_eq, columnName?_eq, opensBehind_column.firstMatch_eq_none_of_not_infix hline,
        opensBehind_column.firstMatch_eq_none_of_not_infix
          (hcomment.not_infix_append htext hline (by decide))]
    · exact columnName?_append hcomment.head?
        (hcomment.not_mem hquote (by decide) (by decide)) line
  have htype : nativeType? (Text.trim line ++ x) = nativeType? (Text.trim line) := by
    by_cases hparen : ')' ∈ text
    · have hline := htrim (hnativeLine hparen)
      exact (opensWith_native.firstMatch_eq_none_of_not_infix
        (hx.not_infix_append hnative hline (by decide))).trans
          (opensWith_native.firstMatch_eq_none_of_not_infix hline).symm
    · exact nativeType?_append hx.head? (hx.not_mem hparen (by decide) (by decide))
        (hx.not_infix hnative (by decide)) _
  have hmap : relationMap? (relationPart (Text.trim line ++ x)) =
      relationMap? (relationPart (Text.trim line)) := by
    by_cases hquote : '"' ∈ text
    · obtain ⟨hline, htext⟩ := h.quoted hfield hquote "map:".toList (by simp)
      rw [relationMap?_eq, relationMap?_eq,
        opensBehind_map.firstMatch_eq_none_of_not_infix (hpart (htrim hline)),
        opensBehind_map.firstMatch_eq_none_of_not_infix
          (hpart (hx.not_infix_append htext (htrim hline) (by decide)))]
    · exact relationMap?_append hx (hx.not_mem hquote (by decide) (by decide)) _
  have hupdate := onUpdate?_append hx (hx.not_infix (h.update hfield) (by decide)) (Text.trim line)
  rw [ofFieldLine, ofFieldLine, hcolumn, htype, hmap, hupdate]

/-- A quiet comment has no say in a secondary index. -/
theorem Quiet.secondaryIndex?_append (h : Quiet line text)
    (hmark : "@@".toList <+: Text.trim line) (hx : IsRemark text x) :
    secondaryIndex? (Text.trim line ++ x) = secondaryIndex? (Text.trim line) := by
  by_cases hparen : ')' ∈ text
  · obtain ⟨hline, htext⟩ := h.index hmark hparen
    have hline' : ¬indexMark <:+: Text.trim line :=
      fun hinside => hline (hinside.trans (Text.trim_infix line))
    rw [secondaryIndex?_eq, secondaryIndex?_eq,
      opensWith_index.firstMatch_eq_none_of_not_infix hline',
      opensWith_index.firstMatch_eq_none_of_not_infix
        (hx.not_infix_append htext hline' (by decide))]
  · exact Notes.secondaryIndex?_append hx.head? (hx.not_mem hparen (by decide) (by decide)) _

theorem after?_isSome_append (hx : ∀ c ∈ x.head?, isBlank c = true) {p : List Char}
    (hp : ∀ c ∈ p, isBlank c = false) (s : List Char) :
    (after? p (s ++ x)).isSome = (after? p s).isSome := by
  rw [after?_append (not_mem_of_head_isBlank hx hp), Option.isSome_map]

/-- **A quiet comment** has no say in what the line in front of it says. -/
theorem ofLine?_comment_append (h : allBlank line = true ∨ Quiet line text) :
    ofLine? (line ++ ' ' :: '/' :: '/' :: text) = ofLine? line := by
  by_cases hblank : allBlank line = true
  · have hblanks : allBlank (line ++ [' ']) = true := by
      simpa [allBlank] using ⟨by simpa [allBlank] using hblank, by decide⟩
    have hcomment := ofLine?_comment hblanks text
    rw [List.append_assoc] at hcomment
    exact hcomment.trans (ofLine?_of_allBlank hblank).symm
  · have hquiet : Quiet line text := h.resolve_left hblank
    rw [Bool.not_eq_true] at hblank
    obtain ⟨x, hx, htrim⟩ := exists_trim_append hblank text
    obtain ⟨c, r, htext⟩ := List.exists_cons_of_ne_nil (Text.trim_ne_nil hblank)
    have hempty : (Text.trim line ++ x).isEmpty = (Text.trim line).isEmpty := by
      rw [htext]
      rfl
    have hword : (Text.trim line ++ x).takeWhile (!isBlank ·) =
        (Text.trim line).takeWhile (!isBlank ·) := by
      have hstop : ∀ c ∈ x.head?, (!isBlank c) = false := fun c hc => by simp [hx.head? c hc]
      exact congrArg Prod.fst (Text.span_append_right hstop (Text.trim line))
    simp only [ofLine?, htrim, hempty, hword,
      after?_isSome_append hx.head? (p := "//".toList) (by decide),
      after?_isSome_append hx.head? (p := "@@".toList) (by decide)]
    split
    · rfl
    split
    · next hmark =>
      have hmark : "@@".toList <+: Text.trim line := by
        obtain ⟨s, hs⟩ := Option.isSome_iff_exists.mp hmark
        exact ⟨s, (Text.after?_eq_some_iff.mp hs).symm⟩
      rw [hquiet.secondaryIndex?_append hmark hx]
    · next hmark =>
      have hfield : ¬"@@".toList <+: Text.trim line := by
        rintro ⟨s, hs⟩
        exact hmark (by rw [Text.after?_eq_some_iff.mpr hs.symm]; rfl)
      rw [hquiet.ofFieldLine_append hfield hx]

/-- A comment has no say in which model the line in front of it opens. -/
theorem openedModel?_comment_append (line text : List Char) :
    openedModel? (line ++ ' ' :: '/' :: '/' :: text) = openedModel? line := by
  refine openedModel?_append (fun u s h => ?_) line
  rcases List.cons_eq_append_iff.mp h with ⟨-, hbrace⟩ | ⟨u, rfl, hslash⟩
  · exact absurd (List.cons.inj hbrace).1 (by decide)
  rcases List.cons_eq_append_iff.mp hslash with ⟨-, hbrace⟩ | ⟨u, rfl, -⟩
  · exact absurd (List.cons.inj hbrace).1 (by decide)
  exact ⟨'/', by simp, by decide, by decide⟩

/-! ### Whole texts -/

/-- Lines that the reader of notes takes for the same, wherever they stand. -/
structure Alike (l l' : List Char) : Prop where
  oneLine : '\n' ∉ l ∧ '\n' ∉ l'
  within : isWithin l = isWithin l'
  opens : openedModel? (pastClosing l) = openedModel? (pastClosing l')
  note : ofLine? l = ofLine? l'

section
variable {l l' first first' : List Char} {ls ls' more more' : List (List Char)}

theorem alike_refl (h : '\n' ∉ l) : Alike l l := ⟨⟨h, h⟩, rfl, rfl, rfl⟩

theorem pastClosing_of_isWithin (h : isWithin l = true) : pastClosing l = l :=
  pastClosing_of_head (isWithin_iff.mp h)

theorem openedModel?_closing (s : List Char) : openedModel? ('}' :: s) = none :=
  (isSilent_of_head (b := []) rfl (by decide) (by decide) (by decide) s).1

/-- A closing brace at its head does not matter for whether lines open the same model. -/
theorem Alike.openedModel?_eq (h : Alike l l') : openedModel? l = openedModel? l' := by
  cases hl : isWithin l with
  | true =>
    have hopens := h.opens
    rwa [pastClosing_of_isWithin hl, pastClosing_of_isWithin (h.within ▸ hl)] at hopens
  | false =>
    have hclosing {l : List Char} (hl : isWithin l = false) : openedModel? l = none := by
      have hhead : l.head? = some '}' := by simpa [isWithin] using hl
      rw [eq_cons_of_head hhead, openedModel?_closing]
    rw [hclosing hl, hclosing (h.within ▸ hl)]

theorem filterMap_ofLine?_congr (h : List.Forall₂ Alike ls ls') :
    ls.filterMap ofLine? = ls'.filterMap ofLine? := by
  induction h with
  | nil => rfl
  | cons hl _ ih => rw [List.filterMap_cons, List.filterMap_cons, hl.note, ih]

theorem ofLines?_congr (hfirst : openedModel? first = openedModel? first')
    (hmore : List.Forall₂ Alike more more') :
    ofLines? (first :: more) = ofLines? (first' :: more') := by
  induction hmore generalizing first first' with
  | nil => simp only [ofLines?, hfirst]
  | @cons l l' more more' hl hmore ih =>
    have hnotes := filterMap_ofLine?_congr (.cons hl hmore)
    have hlines := ih hl.openedModel?_eq
    cases hopened : openedModel? first' with
    | some model => simp only [ofLines?, hfirst, hopened, hnotes]
    | none => simpa only [ofLines?, hfirst, hopened] using hlines

/-- The notes of a piece are those of the piece with lines that are taken for the same. -/
theorem extract_piece_congr (hn : '\n' ∉ first ∧ '\n' ∉ first')
    (hfirst : openedModel? first = openedModel? first') (hmore : List.Forall₂ Alike more more')
    (hwithin : ∀ l ∈ more, isWithin l = true) :
    extract (joinLines (first :: more)) = extract (joinLines (first' :: more')) := by
  have hleft : ∀ l ∈ more, '\n' ∉ l ∧ isWithin l = true := fun l hl => by
    obtain ⟨l', -, h⟩ := exists_of_forall₂_left hmore l hl
    exact ⟨h.oneLine.1, hwithin l hl⟩
  have hright : ∀ l ∈ more', '\n' ∉ l ∧ isWithin l = true := fun l' hl' => by
    obtain ⟨l, hl, h⟩ := exists_of_forall₂_right hmore l' hl'
    exact ⟨h.oneLine.2, h.within ▸ hwithin l hl⟩
  rw [extract_cons hn.1 hleft, extract_cons hn.2 hright, ofLines?_congr hfirst hmore]

/-- The notes of a text whose first piece goes on behind `more`. -/
theorem extract_congr_append (hn : '\n' ∉ first ∧ '\n' ∉ first')
    (hfirst : openedModel? first = openedModel? first') (hmore : List.Forall₂ Alike more more')
    (hwithin : ∀ l ∈ more, isWithin l = true) (hls : List.Forall₂ Alike ls ls') :
    extract (joinLines (first :: more ++ ls)) = extract (joinLines (first' :: more' ++ ls')) := by
  induction hls generalizing first first' more more' with
  | nil =>
    rw [List.append_nil, List.append_nil]
    exact extract_piece_congr hn hfirst hmore hwithin
  | @cons l l' ls ls' hl hls ih =>
    cases hw : isWithin l with
    | true =>
      have hmore' := List.rel_append hmore (.cons hl .nil : List.Forall₂ Alike [l] [l'])
      have hwithin' : ∀ k ∈ more ++ [l], isWithin k = true :=
        List.forall_mem_append.mpr ⟨hwithin, List.forall_mem_singleton.mpr hw⟩
      simpa using ih hn hfirst hmore' hwithin'
    | false =>
      -- The next piece starts behind the closing brace of this line.
      have hhead (k : List Char) (hk : isWithin k = false) : k = '}' :: pastClosing k :=
        eq_cons_of_head (by simpa [isWithin] using hk)
      have hpast := hl.oneLine.imp not_mem_pastClosing not_mem_pastClosing
      have hbehind := ih hpast hl.opens .nil (List.forall_mem_nil _)
      rw [hhead l hw, hhead l' (hl.within ▸ hw), extract_joinLines_append (List.cons_ne_nil _ _),
        extract_joinLines_append (List.cons_ne_nil _ _),
        extract_piece_congr hn hfirst hmore hwithin]
      exact congrArg _ hbehind

/-- **The notes of a text** are those of the text with lines that are taken for the same. -/
theorem extract_congr (h : List.Forall₂ Alike ls ls') :
    extract (joinLines ls) = extract (joinLines ls') := by
  cases h with
  | nil => rfl
  | cons hfirst hls =>
    exact extract_congr_append hfirst.oneLine hfirst.openedModel?_eq .nil nofun hls

theorem alike_comment (hline : '\n' ∉ l) {text : List Char} (htext : '\n' ∉ text)
    (hnote : ofLine? (l ++ ' ' :: '/' :: '/' :: text) = ofLine? l) :
    Alike (l ++ ' ' :: '/' :: '/' :: text) l where
  oneLine := ⟨by simp [hline, htext], hline⟩
  within := by cases l <;> rfl
  opens := by
    have hpast : pastClosing (l ++ ' ' :: '/' :: '/' :: text) =
        pastClosing l ++ ' ' :: '/' :: '/' :: text := by
      cases l with
      | nil => rfl
      | cons c l =>
        rw [List.cons_append]
        unfold pastClosing
        split <;> simp_all
    rw [hpast, openedModel?_comment_append]
  note := hnote

end

end Notes

end Datamodel
