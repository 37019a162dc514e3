import Datamodel.Proofs.Loading.Declared
import Datamodel.Proofs.Notes.Pieces

/-! The storage notes of texts that are joined behind a closing brace.

A brace at the start of a line closes a block, and with it the piece of the text in which the reader
of notes looks for a model. So the notes of two texts, joined by a line with such a brace, are those
of the first and then those of the second (`Notes.extract_join_closing`). A model that comes up on
both sides has its notes from both: what the second says about a field counts more, and its
secondary indexes come behind those of the first. -/

namespace Datamodel

namespace Text

theorem lines_newline_cons (s : List Char) : lines ('\n' :: s) = [] :: lines s := by
  obtain ⟨line, ls, hs⟩ := List.exists_cons_of_ne_nil (List.splitOn_ne_nil '\n' s)
  have hsplit : ('\n' :: s).splitOn '\n' = [] :: line :: ls := by
    rw [List.splitOn_cons_eq_if_modifyHead, if_pos (by simp), hs]
  rw [lines, lines, hsplit, hs]
  rfl

end Text

namespace Notes

/-- What notes say about a field of a model. -/
def fieldOf? (as : Notes) (model field : String) : Option FieldNotes :=
  (as.linesOf? model).bind (LineNote.fieldIn? · field)

/-! ### Notes one behind the other -/

section
variable (as bs : Notes) (model : String)

theorem isSome_linesOf? : (as.linesOf? model).isSome = as.any (·.model == model) := by
  rw [linesOf?]
  split <;> simp_all

/-- The lines of a model, none if the notes do not have it. -/
theorem linesOf?_getD : (as.linesOf? model).getD [] =
    (as.filter (·.model == model)).flatMap (·.lines) := by
  rw [linesOf?]
  split
  · rfl
  · next hnone =>
    have hfilter : as.filter (·.model == model) = [] :=
      List.filter_eq_nil_iff.mpr fun a ha h => hnone (List.any_eq_true.mpr ⟨a, ha, h⟩)
    rw [hfilter]
    rfl

theorem linesOf?_append_getD : (linesOf? (as ++ bs) model).getD [] =
    (as.linesOf? model).getD [] ++ (bs.linesOf? model).getD [] := by
  rw [linesOf?_getD, linesOf?_getD, linesOf?_getD, List.filter_append, List.flatMap_append]

theorem fieldOf?_eq (field : String) :
    as.fieldOf? model field = LineNote.fieldIn? ((as.linesOf? model).getD []) field := by
  rw [fieldOf?]
  cases as.linesOf? model <;> rfl

theorem secondaryIndexesOf_eq :
    as.secondaryIndexesOf model = LineNote.secondaryIndexesIn ((as.linesOf? model).getD []) := by
  rw [secondaryIndexesOf]
  cases as.linesOf? model <;> rfl

/-- Of the lines about a field the later ones count. -/
theorem fieldOf?_append (field : String) : fieldOf? (as ++ bs) model field =
    (bs.fieldOf? model field).or (as.fieldOf? model field) := by
  rw [fieldOf?_eq, fieldOf?_eq, fieldOf?_eq, linesOf?_append_getD, LineNote.fieldIn?,
    LineNote.fieldIn?, LineNote.fieldIn?, List.filterMap_append, List.getLast?_append]

theorem secondaryIndexesOf_append : secondaryIndexesOf (as ++ bs) model =
    as.secondaryIndexesOf model ++ bs.secondaryIndexesOf model := by
  rw [secondaryIndexesOf_eq, secondaryIndexesOf_eq, secondaryIndexesOf_eq, linesOf?_append_getD,
    LineNote.secondaryIndexesIn, LineNote.secondaryIndexesIn, LineNote.secondaryIndexesIn,
    List.filterMap_append]

end

/-! ### The rest of the line with the brace -/

/-- An empty line in front of a text opens no model, and belongs to the first piece if that does
not start with a closing brace. -/
theorem extract_newline_cons {s : List Char} (h : s.head? ≠ some '}') :
    extract ('\n' :: s) = extract s := by
  obtain ⟨piece, pieces, hs⟩ := List.exists_cons_of_ne_nil (Text.splitAtClosings_ne_nil s)
  have hpiece : ofLines? (Text.lines ('\n' :: piece)) = ofLines? (Text.lines piece) := by
    rw [Text.lines_newline_cons]
    rfl
  rw [extract, extract, Text.splitAtClosings_cons fun _ => h, hs, List.modifyHead_cons,
    List.filterMap_cons, List.filterMap_cons, hpiece]

/-- **Notes are taken block by block.** Whatever stands in front of a line with a closing brace,
what is read behind it is what would be read without the front. The models are those of both sides.
What the text behind says about a field stands in place of what the text in front says, and its
secondary indexes are added at the end. -/
theorem extract_join_closing (a b : List Char) (hb : b.head? ≠ some '}') :
    let whole := extract (a ++ '\n' :: '}' :: '\n' :: b)
    whole = extract a ++ extract b ∧
    (∀ model, (whole.linesOf? model).isSome ↔
      ((extract a).linesOf? model).isSome ∨ ((extract b).linesOf? model).isSome) ∧
    (∀ model field, whole.fieldOf? model field =
      ((extract b).fieldOf? model field).or ((extract a).fieldOf? model field)) ∧
    ∀ model, whole.secondaryIndexesOf model =
      (extract a).secondaryIndexesOf model ++ (extract b).secondaryIndexesOf model := by
  intro whole
  have hwhole : whole = extract a ++ extract b := by
    rw [← extract_newline_cons hb, ← extract_append_closing]
  refine ⟨hwhole, fun model => ?_, fun model field => ?_, fun model => ?_⟩
  · rw [hwhole, isSome_linesOf?, isSome_linesOf?, isSome_linesOf?, List.any_append, Bool.or_eq_true]
  · rw [hwhole, fieldOf?_append]
  · rw [hwhole, secondaryIndexesOf_append]

/-- Both sides open the model, and the first of them is no schema text. -/
theorem extract_join_closing_user :
    let a := "x \"\nmodel User \x7b\n  id Int @map(\"a\")\n  age Int @db.SmallInt\n  @@index([id])"
    let b := " view User \x7b\n  id Int @map(\"b\") @db.BigInt\n  @@index([id, age])\n\x7d\n"
    let whole := extract (a.toList ++ '\n' :: '}' :: '\n' :: b.toList)
    b.toList.head? ≠ some '}' ∧ whole = extract a.toList ++ extract b.toList ∧
    whole.fieldOf? "User" "id" =
      some { columnName := some "b", nativeType := some "@db.BigInt" } ∧
    whole.fieldOf? "User" "age" = some { nativeType := some "@db.SmallInt" } ∧
    whole.secondaryIndexesOf "User" = ["@@index([id])", "@@index([id, age])"] := by
  intro a b whole
  have hb : b.toList.head? ≠ some '}' := by decide +kernel
  obtain ⟨happend, -, hfield, hindexes⟩ := extract_join_closing a.toList b.toList hb
  refine ⟨hb, happend, ?_, ?_, ?_⟩
  · exact (hfield "User" "id").trans (by decide +kernel)
  · exact (hfield "User" "age").trans (by decide +kernel)
  · exact (hindexes "User").trans (by decide +kernel)

end Notes

end Datamodel
