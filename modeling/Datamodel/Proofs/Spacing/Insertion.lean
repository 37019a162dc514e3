import Datamodel.Proofs.Spacing.Notes
import Datamodel.Proofs.Spacing.Schemas

/-! A line without tokens that is put into a schema text.

Neither reader of the text makes anything of a line that is blank or holds nothing but a plain
comment. So the text is loaded as the same fragment with that line and without it, wherever it
stands (`Fragment.load_insert_spacing`). -/

namespace Datamodel

section
variable {ε α β : Type}

theorem toOption_eq_some_iff {x : Except ε α} {a : α} : x.toOption = some a ↔ x = .ok a := by
  refine ⟨eq_ok_of_toOption, ?_⟩
  rintro rfl
  rfl

/-- Two computations give the same up to `f` if each of them follows the other. -/
theorem toOption_map_congr {x y : Except ε α} {f : α → β} (hxy : Follows (Agree f) x y)
    (hyx : Follows (Agree f) y x) : x.toOption.map f = y.toOption.map f := by
  cases x with
  | ok a =>
    obtain ⟨b, rfl, hab⟩ := hxy a rfl
    exact congrArg some hab
  | error e =>
    cases y with
    | ok b =>
      obtain ⟨a, ha, -⟩ := hyx b rfl
      cases ha
    | error e' => rfl

end

/-! ### Byte order marks -/

theorem Text.dropMark_append_of_head {x : List Char} (hx : x.head? ≠ some '\uFEFF')
    (a : List Char) : dropMark (a ++ x) = dropMark a ++ x := by
  cases a with
  | nil =>
    cases x with
    | nil => rfl
    | cons c x => exact dropMark_cons fun hc => hx (congrArg some hc)
  | cons c s =>
    by_cases hc : c = '\uFEFF'
    · subst hc
      rfl
    · rw [List.cons_append, dropMark_cons hc, dropMark_cons hc, List.cons_append]

theorem Text.dropMark_append (a x : List Char) :
    dropMark (a ++ '\n' :: x) = dropMark a ++ '\n' :: x :=
  dropMark_append_of_head (by simp) a

section
variable {a b line : List Char} {ts : List Token}

theorem Token.tokenize_append (h : scan 1 0 a = .ok ts) (x : List Char) :
    tokenize (String.ofList (a ++ '\n' :: x)) = scan 1 0 (a ++ '\n' :: x) := by
  rw [tokenize, String.toList_ofList, Text.dropMark_append, dropMark_of_scan h]

/-! ### Schemas -/

theorem Schema.toOption_ofText (source : String) : (ofText source).toOption =
    ((Block.ofText source).toOption.map (List.map Block.unlined)).bind
      fun bs => (resolve bs).toOption := by
  rw [ofText, toOption_bind, Option.bind_map]
  exact Option.bind_congr fun bs _ => (toOption_resolve_unlined bs).symm

/-- The blocks of a text are the same with a line without tokens in it, but for their lines. -/
theorem Block.toOption_ofText_insert (ha : Token.scan 1 0 a = .ok ts)
    (hline : Token.IsSpacing line) (b : List Char) :
    (ofText (String.ofList (a ++ '\n' :: b))).toOption.map (List.map unlined) =
      (ofText (String.ofList (a ++ '\n' :: (line ++ '\n' :: b)))).toOption.map
        (List.map unlined) := by
  rw [ofText, ofText, Token.tokenize_append ha, Token.tokenize_append ha]
  rcases Token.alike_of_isSpacing (b := b) ha hline with
    ⟨ts, us, hts, hus, halike⟩ | ⟨e, e', he, he'⟩
  · rw [hts, hus]
    exact toOption_map_congr (follows_ofTokens halike) (follows_ofTokens halike.symm)
  · rw [he, he']
    rfl

theorem Schema.toOption_ofText_insert (ha : Token.scan 1 0 a = .ok ts)
    (hline : Token.IsSpacing line) (b : List Char) :
    (ofText (String.ofList (a ++ '\n' :: b))).toOption =
      (ofText (String.ofList (a ++ '\n' :: (line ++ '\n' :: b)))).toOption := by
  rw [toOption_ofText, toOption_ofText, Block.toOption_ofText_insert ha hline]

end

/-! ### Fragments -/

theorem Fragment.toOption_load (origin source : String) : (load origin source).toOption =
    (Schema.ofText (String.ofList (Text.dropMark source.toList))).toOption.map fun schema =>
      { origin, schema := { schema with
        models := (Notes.extract (Text.dropMark source.toList)).overlay schema.models } } := by
  simp only [load]
  split <;> next h => rw [h]; rfl

/-- **Spacing does not matter.** A line that is blank or holds nothing but a plain comment may be
put in behind any line break of a schema text: the text is loaded as the same fragment, if what
stands in front of that line break is read as tokens on its own. -/
theorem Fragment.load_insert_spacing {a line : String} (ha : ∃ ts, Token.tokenize a = .ok ts)
    (hline : Token.IsSpacing line.toList) (b origin : String) (F : Fragment) :
    load origin (a ++ "\n" ++ b) = .ok F ↔
      load origin (a ++ "\n" ++ line ++ "\n" ++ b) = .ok F := by
  obtain ⟨ts, hts⟩ := ha
  have hwithout : (a ++ "\n" ++ b).toList = a.toList ++ '\n' :: b.toList := by simp
  have hwith : (a ++ "\n" ++ line ++ "\n" ++ b).toList =
      a.toList ++ '\n' :: (line.toList ++ '\n' :: b.toList) := by simp
  rw [← toOption_eq_some_iff, ← toOption_eq_some_iff, toOption_load, toOption_load, hwithout,
    hwith, Text.dropMark_append, Text.dropMark_append, Schema.toOption_ofText_insert hts hline,
    Notes.extract_of_isSpacing hline]

/-- A comment between two fields of a model says nothing, whatever attributes it names. -/
theorem Fragment.load_insert_spacing_post :
    let above := "model Post \x7b\n  id Int @id"
    let comment := "  // slug String @map(\"path\")"
    let below := "  slug String @map(\"slug_text\")\n\x7d\n"
    (∃ ts, Token.tokenize above = .ok ts) ∧ Token.IsSpacing comment.toList ∧
      ∃ F, load "post.prisma" (above ++ "\n" ++ comment ++ "\n" ++ below) = .ok F ∧
        F.schema.models.flatMap (·.fields.map fun f => (f.name, f.columnName)) =
          [("id", none), ("slug", some "slug_text")] := by
  intro above comment below
  have ha : ∃ ts, Token.tokenize above = .ok ts :=
    ⟨_, eq_ok_of_toOption (Option.eq_some_of_isSome (by decide +kernel))⟩
  have hcomment : Token.IsSpacing comment.toList :=
    ⟨by decide, .inr ⟨[' ', ' '], comment.toList.drop 4, by decide, by decide, by decide⟩⟩
  obtain ⟨F, hF, hcolumns⟩ : ∃ F, load "post.prisma" (above ++ "\n" ++ below) = .ok F ∧
      F.schema.models.flatMap (·.fields.map fun f => (f.name, f.columnName)) =
        [("id", none), ("slug", some "slug_text")] :=
    ⟨_, eq_ok_of_toOption (Option.eq_some_of_isSome (by decide +kernel)), by decide +kernel⟩
  exact ⟨ha, hcomment, F, (load_insert_spacing ha hcomment below "post.prisma" F).mp hF, hcolumns⟩

end Datamodel
