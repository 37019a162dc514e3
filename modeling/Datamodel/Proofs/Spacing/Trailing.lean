import Datamodel.Proofs.Notes.Trailing
import Datamodel.Proofs.Spacing.Insertion

/-! A comment behind a line of a schema text.

To the reader of tokens it is nothing, so a text with it is refused for the same cause as without
it, or for none. The reader of notes looks for its patterns in it as well. So the text is loaded as
the same fragment just as far as the comment has no say in what its line says, and it has none if
it is quiet (`Fragment.load_trailing_comment`). -/

namespace Datamodel

open Text (allBlank joinLines)

theorem Text.dropMark_suffix (s : List Char) : dropMark s <:+ s := by
  unfold dropMark
  split
  · exact List.suffix_cons _ _
  · exact List.suffix_rfl

section
variable {line depth : Nat} {a text : List Char} {ts : List Token}

/-- **A comment behind a line** changes none of the tokens, if the line in front of it holds no
comment. -/
theorem Token.scan_comment_append (h : scan line depth a = .ok ts)
    (hlast : ¬"//".toList <:+: Text.lastLine a) (htext : '\n' ∉ text)
    (hslash : text.head? ≠ some '/') (b : List Char) :
    scan line depth (a ++ ' ' :: '/' :: '/' :: (text ++ '\n' :: b)) =
      scan line depth (a ++ '\n' :: b) := by
  obtain ⟨line', depth', hscan⟩ := exists_scan_append_of_written h
  have hwritten {x : List Char} (hx : ∀ c ∈ x.head?, Text.isBlank c = true) :
      ∀ w kind r, w ++ r <:+ a → Written w kind r → Written w kind (r ++ x) := by
    intro w kind r hsuffix hw
    refine hw.append_blank hx fun hcomment hn hr => absurd ?_ hlast
    rw [hr, List.append_nil] at hsuffix
    exact hcomment.isInfix.trans (Text.suffix_lastLine hsuffix hn).isInfix
  have hspacing : IsSpacing (' ' :: '/' :: '/' :: text) :=
    ⟨by simp [htext], .inr ⟨[' '], text, rfl, by decide, hslash⟩⟩
  rw [hscan _ (hwritten (by rintro _ ⟨⟩; decide)), hscan _ (hwritten (by rintro _ ⟨⟩; decide)),
    ← hspacing.scan (x := '\n' :: b) (by simp)]
  rfl

/-- A comment behind a line has no say in the notes of a text if it has none in those of its
line. -/
theorem Notes.extract_comment_append (htext : '\n' ∉ text)
    (hnote : ofLine? (Text.lastLine a ++ ' ' :: '/' :: '/' :: text) = ofLine? (Text.lastLine a))
    (b : List Char) :
    extract (a ++ ' ' :: '/' :: '/' :: (text ++ '\n' :: b)) = extract (a ++ '\n' :: b) := by
  obtain ⟨front, hsplit, hjoin⟩ := Text.exists_splitOn_eq_concat a
  have hfront : ∀ l ∈ front, '\n' ∉ l := fun l hl =>
    Text.not_mem_of_mem_splitOn (hsplit ▸ List.mem_append_left _ hl)
  have hb : joinLines (b.splitOn '\n') = b := List.intercalate_splitOn '\n'
  have hne := List.splitOn_ne_nil '\n' b
  have hsame (ls : List (List Char)) (h : ∀ l ∈ ls, '\n' ∉ l) : List.Forall₂ Alike ls ls :=
    List.forall₂_same.mpr fun l hl => alike_refl (h l hl)
  have halike : List.Forall₂ Alike
      (front ++ (Text.lastLine a ++ ' ' :: '/' :: '/' :: text) :: b.splitOn '\n')
      (front ++ Text.lastLine a :: b.splitOn '\n') :=
    List.rel_append (hsame front hfront) (.cons
      (alike_comment (Text.not_mem_lastLine a) htext hnote)
      (hsame _ fun l hl => Text.not_mem_of_mem_splitOn hl))
  have hrows (line : List Char) : joinLines (front ++ line :: b.splitOn '\n') =
      joinLines (front ++ [line]) ++ '\n' :: b := by
    rw [List.append_cons, Text.joinLines_append (by simp) hne, hb]
  have hcongr := extract_congr halike
  rwa [hrows, hrows, Text.joinLines_concat_append, hjoin, List.append_assoc, List.cons_append,
    List.cons_append, List.cons_append] at hcongr

end

/-- **A comment behind a line** changes nothing of what the text in front of it makes of the rest,
but what the reader of notes finds in it. The text is refused for the same cause as without the
comment, and it is loaded as the same fragment if the comment has no say in what its line says. It
has none if the line is blank or the comment is quiet there. -/
theorem Fragment.load_trailing_comment {a t : String} (ha : ∃ ts, Token.tokenize a = .ok ts)
    (hlast : ¬"//".toList <:+: Text.lastLine a.toList) (ht : '\n' ∉ t.toList)
    (hslash : t.toList.head? ≠ some '/') (b origin : String) :
    let line := Text.lastLine (Text.dropMark a.toList)
    let plain := load origin (a ++ "\n" ++ b)
    let commented := load origin (a ++ " //" ++ t ++ "\n" ++ b)
    (∀ cause, commented = .error cause ↔ plain = .error cause) ∧
      (Notes.ofLine? (line ++ (" //" ++ t).toList) = Notes.ofLine? line → commented = plain) ∧
      (allBlank line = true ∨ Notes.Quiet line t.toList → commented = plain) := by
  intro line plain commented
  obtain ⟨ts, hts⟩ := ha
  have hkept : Text.dropMark (Text.dropMark a.toList) = Text.dropMark a.toList :=
    Token.dropMark_of_scan hts
  have hlast' : ¬"//".toList <:+: line := fun h => hlast
    (h.trans (Text.suffix_lastLine ((Text.lastLine_suffix _).trans (Text.dropMark_suffix a.toList))
      (Text.not_mem_lastLine _)).isInfix)
  have htext : Text.dropMark (a ++ "\n" ++ b).toList =
      Text.dropMark a.toList ++ '\n' :: b.toList := by
    rw [← Text.dropMark_append]
    simp
  have htext' : Text.dropMark (a ++ " //" ++ t ++ "\n" ++ b).toList =
      Text.dropMark a.toList ++ ' ' :: '/' :: '/' :: (t.toList ++ '\n' :: b.toList) := by
    rw [← Text.dropMark_append_of_head (by simp)]
    simp
  have htokens : Token.tokenize (String.ofList (Text.dropMark (a ++ " //" ++ t ++ "\n" ++ b).toList)) =
      Token.tokenize (String.ofList (Text.dropMark (a ++ "\n" ++ b).toList)) := by
    rw [Token.tokenize, Token.tokenize, String.toList_ofList, String.toList_ofList, htext, htext',
      Text.dropMark_append_of_head (by simp), Text.dropMark_append, hkept]
    exact Token.scan_comment_append hts hlast' ht hslash b.toList
  have hschema : Schema.ofText (String.ofList (Text.dropMark (a ++ " //" ++ t ++ "\n" ++ b).toList)) =
      Schema.ofText (String.ofList (Text.dropMark (a ++ "\n" ++ b).toList)) := by
    rw [Schema.ofText, Schema.ofText, Block.ofText, Block.ofText, htokens]
  have hsame (hnote : Notes.ofLine? (line ++ ' ' :: '/' :: '/' :: t.toList) = Notes.ofLine? line) :
      commented = plain := by
    have hnotes := Notes.extract_comment_append ht hnote b.toList
    rw [← htext, ← htext'] at hnotes
    simp only [commented, plain, load, hschema, hnotes]
  refine ⟨fun cause => ?_, ?_, fun hquiet => hsame (Notes.ofLine?_comment_append hquiet)⟩
  · simp only [commented, plain, load, hschema]
    split <;> simp
  · rw [String.toList_append]
    exact hsame

/-- A comment that mentions another model in quotes and parentheses is quiet behind a field without
a name of its own for its column. -/
theorem Fragment.load_trailing_comment_user :
    let a := "model User \x7b\n  id Int @id"
    let t := " the key (as in \"Account\")"
    let b := "  name String @map(\"full_name\")\n\x7d\n"
    (∃ ts, Token.tokenize a = .ok ts) ∧ ¬"//".toList <:+: Text.lastLine a.toList ∧
      '\n' ∉ t.toList ∧ t.toList.head? ≠ some '/' ∧
      Notes.Quiet (Text.lastLine (Text.dropMark a.toList)) t.toList ∧
      load "user.prisma" (a ++ " //" ++ t ++ "\n" ++ b) = load "user.prisma" (a ++ "\n" ++ b) ∧
      ∃ F, load "user.prisma" (a ++ "\n" ++ b) = .ok F ∧
        F.schema.models.flatMap (·.fields.map fun f => (f.name, f.columnName)) =
          [("id", none), ("name", some "full_name")] := by
  intro a t b
  have ha : ∃ ts, Token.tokenize a = .ok ts :=
    ⟨_, eq_ok_of_toOption (Option.eq_some_of_isSome (by decide +kernel))⟩
  have hlast : ¬"//".toList <:+: Text.lastLine a.toList := by decide +kernel
  have hquiet : Notes.Quiet (Text.lastLine (Text.dropMark a.toList)) t.toList :=
    ⟨by decide +kernel, by decide +kernel, by decide +kernel, by decide +kernel⟩
  obtain ⟨-, -, hsame⟩ :=
    load_trailing_comment ha hlast (t := t) (by decide) (by decide) b "user.prisma"
  exact ⟨ha, hlast, by decide, by decide, hquiet, hsame (.inr hquiet),
    _, eq_ok_of_toOption (Option.eq_some_of_isSome (by decide +kernel)), by decide +kernel⟩

/-- A comment that is not quiet is read as a part of its line. -/
example :
    (Fragment.load "user.prisma" "model User \x7b\n  id Int // was @map(\"key\")\n\x7d\n").toOption.map
      (·.schema.models.flatMap (·.fields.map (·.columnName))) = some [some "key"] := by
  decide +kernel

end Datamodel
