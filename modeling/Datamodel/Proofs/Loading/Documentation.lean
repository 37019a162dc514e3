import Datamodel.Proofs.Loading.Attributes
import Datamodel.Proofs.Loading.Declared
import Mathlib.Data.List.DropRight

/-! The documentation of fields.

What stands between the braces of a model are parts: documentation comments on lines of their own,
and items with the rest of their lines (`BodyPart`). A field is documented by the comments behind
the field in front of it. An attribute of the model takes no comment, and leaves those in front of
it to the next field (`Block.documentedIn_of_ofTokens`). -/

namespace Datamodel

open Token (EndsItem Kind Reading onLine)

/-! ### Parts of a body -/

/-- The text of a documentation comment. -/
def Token.doc? (t : Token) : Option String :=
  match t.kind with
  | .doc text => some text
  | _ => none

/-- The tokens between the braces of each block. -/
def Token.bodies : List Token → List (List Token)
  | [] => []
  | ⟨.openBrace, _⟩ :: ts => ts.takeWhile (·.kind != .closeBrace) :: bodies ts
  | _ :: ts => bodies ts

/-- A documentation comment on a line of its own, or an item with the rest of its line. -/
inductive BodyPart where
  | doc (text : String)
  | item (first : Token) (more : List Token)

namespace BodyPart

/-- The parts that the tokens of a body make. -/
def ofTokens : List Token → List BodyPart
  | [] => []
  | ⟨.newline, _⟩ :: ts => ofTokens ts
  | ⟨.doc text, _⟩ :: ts => .doc text :: ofTokens ts
  | t :: ts =>
    have : (ts.dropWhile (·.kind != .newline)).length ≤ ts.length :=
      (List.dropWhile_suffix _).length_le
    .item t (ts.takeWhile (·.kind != .newline)) :: ofTokens (ts.dropWhile (·.kind != .newline))
termination_by ts => ts.length

def doc? : BodyPart → Option String
  | doc text => some text
  | item _ _ => none

/-- The part is a field or an attribute of the model. -/
def isItem : BodyPart → Bool
  | doc _ => false
  | item _ _ => true

/-- The part is a field: it starts with a name. -/
def isField : BodyPart → Bool
  | item ⟨.name _, _⟩ _ => true
  | _ => false

/-- The documentation comments behind the last part that is a `stop`. -/
def docsBehind (stop : BodyPart → Bool) (parts : List BodyPart) : List String :=
  (parts.rtakeWhile (!stop ·)).filterMap doc?

theorem docsBehind_concat (stop : BodyPart → Bool) (parts : List BodyPart) (p : BodyPart) :
    docsBehind stop (parts ++ [p]) =
      if stop p then [] else docsBehind stop parts ++ p.doc?.toList := by
  rw [docsBehind, List.rtakeWhile_concat]
  cases stop p with
  | true => rfl
  | false =>
    show ((parts.rtakeWhile (!stop ·)) ++ [p]).filterMap doc? = _
    rw [List.filterMap_append]
    cases p <;> rfl

end BodyPart

/-- Where a field stands in a body: behind which parts, at which token, and what else is on its
line. -/
structure FieldSite where
  before : List BodyPart
  first : Token
  more : List Token

namespace FieldSite

/-- The sites among parts that stand behind others. -/
def listFrom (before : List BodyPart) : List BodyPart → List FieldSite
  | [] => []
  | .doc text :: parts => listFrom (before ++ [.doc text]) parts
  | .item first more :: parts =>
    (if (BodyPart.item first more).isField then [⟨before, first, more⟩] else []) ++
      listFrom (before ++ [.item first more]) parts

/-- The sites of a body. -/
def ofBody (body : List Token) : List FieldSite := listFrom [] (BodyPart.ofTokens body)

/-- The comments behind the last `stop` in front of the field, line by line; without them the
comment on the field's own line, if there is one. -/
def documentation (stop : BodyPart → Bool) (s : FieldSite) : Option String :=
  (joinDocs (BodyPart.docsBehind stop s.before)).or (s.more.findSome? Token.doc?)

end FieldSite

/-- The field is declared at its site and documented by the comments there. -/
structure FieldDecl.DocumentedBy (stop : BodyPart → Bool) (f : FieldDecl) (s : FieldSite) :
    Prop where
  first : s.first = ⟨.name f.name, f.line⟩
  documentation : f.documentation = s.documentation stop

/-- The fields of each model or view stand in the body of its block, one by one, and are documented
there. -/
def Block.DocumentedIn (stop : BodyPart → Bool) (ts : List Token) (blocks : List Block) : Prop :=
  List.Forall₂ (fun block body => ∀ b, block = .model b →
    List.Forall₂ (FieldDecl.DocumentedBy stop) b.fields (FieldSite.ofBody body))
    blocks (Token.bodies ts)

/-! ### Items -/

section
variable {last : Nat} {docs : List String} {ts : List Token}

/-- A comment that a declaration takes at its end is the only one of the tokens taken there. -/
theorem Block.exists_of_trailingDoc (ts : List Token) : ∃ used,
    ts = used ++ (trailingDoc ts).rest ∧ (∀ t ∈ used, t.kind.isInline = true) ∧
      used.findSome? Token.doc? = (trailingDoc ts).value := by
  unfold trailingDoc
  split
  · next text line rest =>
    exact ⟨[⟨.doc text, line⟩], rfl, List.forall_mem_singleton.mpr rfl, rfl⟩
  · exact ⟨[], rfl, nofun, rfl⟩

theorem Token.doc?_of_isMarked {t : Token} (h : t.kind.isMarked = true) : t.doc? = none := by
  obtain ⟨kind, line⟩ := t
  cases kind <;> first | rfl | cases h

/-- A field is read with the rest of its line. -/
theorem FieldDecl.exists_of_read {r : Reading FieldDecl ts}
    (h : FieldDecl.read last docs ts = .ok r) : ∃ used mid,
      ts = ⟨.name r.value.name, r.value.line⟩ :: (used ++ mid) ∧
      (∀ t ∈ used, t.kind.isInline = true) ∧ EndsItem mid r.rest ∧
      r.value.documentation = (joinDocs docs).or (used.findSome? Token.doc?) := by
  obtain ⟨_, marked, hts, ⟨used, rfl, -, hused⟩, hdocumentation, hends⟩ :=
    FieldDecl.exists_marked_of_read h
  obtain ⟨trailing, hmarked, htrailing, hdoc⟩ := Block.exists_of_trailingDoc marked
  have hnone : used.findSome? Token.doc? = none :=
    List.findSome?_eq_none_iff.mpr fun t ht => Token.doc?_of_isMarked (hused t ht)
  refine ⟨used ++ trailing, (Block.trailingDoc marked).rest, ?_, ?_, hends, ?_⟩
  · exact hts.trans (by rw [List.append_assoc, ← hmarked])
  · have hinline : ∀ t ∈ used, t.kind.isInline = true := fun t ht =>
      Kind.isInline_of_isDeclared (Kind.isDeclared_of_isMarked (hused t ht))
    exact List.forall_mem_append.mpr ⟨hinline, htrailing⟩
  · rw [List.findSome?_append, hnone, Option.none_or, hdoc]
    exact hdocumentation

/-- The end of an item is no part of the body. -/
theorem BodyPart.ofTokens_of_endsItem {mid rest : List Token} (h : EndsItem mid rest) :
    ((mid.takeWhile (·.kind != .closeBrace)).takeWhile (·.kind != .newline)) = [] ∧
      ofTokens ((mid.takeWhile (·.kind != .closeBrace)).dropWhile (·.kind != .newline)) =
        ofTokens (rest.takeWhile (·.kind != .closeBrace)) := by
  rcases h with ⟨n, rfl⟩ | ⟨rfl, hhead⟩
  · refine ⟨rfl, ?_⟩
    show ofTokens (⟨.newline, n⟩ :: _) = _
    rw [ofTokens]
  · cases rest with
    | nil => exact ⟨rfl, rfl⟩
    | cons t rest =>
      rw [List.takeWhile_cons_of_neg (by simp [hhead t rfl])]
      exact ⟨rfl, rfl⟩

/-- An item and what is behind it, up to the brace that closes the block. -/
theorem BodyPart.ofTokens_item {t : Token} {used mid rest : List Token}
    (ht : t.kind.isInline = true) (hdoc : ∀ text, t.kind ≠ .doc text)
    (hused : ∀ u ∈ used, u.kind.isInline = true) (hends : EndsItem mid rest) :
    ofTokens ((t :: (used ++ mid)).takeWhile (·.kind != .closeBrace)) =
      .item t used :: ofTokens (rest.takeWhile (·.kind != .closeBrace)) := by
  have hinline {u : Token} (hu : u.kind.isInline = true) :
      (u.kind != .closeBrace) = true ∧ (u.kind != .newline) = true := by
    constructor <;> refine bne_iff_ne.mpr fun heq => ?_ <;> rw [heq] at hu <;> cases hu
  have hclose : ∀ u ∈ t :: used, (u.kind != .closeBrace) = true :=
    List.forall_mem_cons.mpr ⟨(hinline ht).1, fun u hu => (hinline (hused u hu)).1⟩
  have hline : ∀ u ∈ used, (u.kind != .newline) = true := fun u hu => (hinline (hused u hu)).2
  obtain ⟨hmid, hrest⟩ := ofTokens_of_endsItem hends
  rw [← List.cons_append, List.takeWhile_append_of_pos hclose, List.cons_append, ofTokens,
    List.takeWhile_append_of_pos hline, List.dropWhile_append_of_pos hline, hmid, hrest,
    List.append_nil]
  · rintro line rfl
    cases ht
  · rintro text line rfl
    exact hdoc text rfl

/-- **One step.** An item of a model is a part of its body. If the comments that wait are those
behind the last field in front, so they are behind the item. A field is documented by them, and an
attribute of the model leaves them as they are. -/
theorem ModelItem.exists_part_of_read {t : Token} {r : Reading (ModelItem × List String) (t :: ts)}
    {before : List BodyPart} (h : ModelItem.read last docs (t :: ts) = .ok r)
    (hdocs : docs = BodyPart.docsBehind BodyPart.isField before) : ∃ used,
      BodyPart.ofTokens ((t :: ts).takeWhile (·.kind != .closeBrace)) =
        .item t used :: BodyPart.ofTokens (r.rest.takeWhile (·.kind != .closeBrace)) ∧
      r.value.2 = BodyPart.docsBehind BodyPart.isField (before ++ [.item t used]) ∧
      List.Forall₂ (FieldDecl.DocumentedBy BodyPart.isField) r.value.1.field?.toList
        (if (BodyPart.item t used).isField then [⟨before, t, used⟩] else []) := by
  rcases ModelItem.cases_read h with
    ⟨n, ts', a, heq, ha, hrest, hvalue⟩ | ⟨f, hf, hrest, hvalue⟩
  · obtain ⟨rfl, rfl⟩ := List.cons.inj heq
    obtain ⟨mid, ⟨used, rfl, -, hused⟩, hends⟩ := Attribute.tookItem_of_readLine ha
    have hinline : ∀ u ∈ used, u.kind.isInline = true :=
      fun u hu => Kind.isInline_of_isDeclared (hused u hu)
    have hattribute : (BodyPart.item ⟨.blockMarker, n⟩ used).isField = false := rfl
    rw [hrest, hvalue]
    refine ⟨used, BodyPart.ofTokens_item rfl nofun hinline hends, ?_, .nil⟩
    rw [BodyPart.docsBehind_concat, hattribute, hdocs]
    exact (List.append_nil _).symm
  · obtain ⟨used, mid, hts, hused, hends, hdocumentation⟩ := FieldDecl.exists_of_read hf
    obtain ⟨ht, rfl⟩ := List.cons.inj hts
    have hinline : t.kind.isInline = true := by rw [ht]; rfl
    have hdoc : ∀ text, t.kind ≠ .doc text := by rw [ht]; exact nofun
    have hfield : (BodyPart.item t used).isField = true := by rw [ht]; rfl
    rw [hdocs] at hdocumentation
    rw [hrest, hvalue]
    refine ⟨used, BodyPart.ofTokens_item hinline hdoc hused hends, ?_, ?_⟩
    · rw [BodyPart.docsBehind_concat, hfield]
      rfl
    · rw [hfield]
      exact .cons ⟨ht, hdocumentation⟩ .nil

/-- **The run through a body.** From the first item to the closing brace, the comments that wait for
a field are those behind the last field in front. -/
theorem ModelItem.documented_of_readBody {name : String} {r : Reading (List ModelItem) ts}
    {before : List BodyPart}
    (h : Block.readBody last name (ModelItem.read last) docs ts = .ok r)
    (hdocs : docs = BodyPart.docsBehind BodyPart.isField before) :
    List.Forall₂ (FieldDecl.DocumentedBy BodyPart.isField) (r.value.filterMap field?)
      (FieldSite.listFrom before (BodyPart.ofTokens (ts.takeWhile (·.kind != .closeBrace)))) := by
  fun_induction Block.readBody last name (ModelItem.read last) docs ts generalizing before with
  | case1 => cases h
  | case2 docs line rest =>
    cases h
    rw [List.takeWhile_cons_of_neg (by simp), BodyPart.ofTokens]
    exact .nil
  | case3 docs line rest ih =>
    obtain ⟨more, hmore, rfl⟩ := exists_of_map h
    rw [List.takeWhile_cons_of_pos rfl, BodyPart.ofTokens]
    exact ih hmore hdocs
  | case4 docs text line rest ih =>
    obtain ⟨more, hmore, rfl⟩ := exists_of_map h
    rw [List.takeWhile_cons_of_pos rfl, BodyPart.ofTokens, FieldSite.listFrom]
    refine ih hmore ?_
    rw [BodyPart.docsBehind_concat, hdocs]
    rfl
  | case5 => cases h
  | case6 docs t rest _ _ _ first hfirst _ ih =>
    obtain ⟨more, hmore, rfl⟩ := exists_of_map h
    obtain ⟨used, hparts, hbehind, hfield⟩ := ModelItem.exists_part_of_read hfirst hdocs
    show List.Forall₂ _ ((first.value.1 :: more.value).filterMap field?) _
    rw [filterMap_cons_toList, hparts, FieldSite.listFrom]
    exact List.rel_append hfield (ih hmore hbehind)

/-! ### The whole text -/

theorem Token.bodies_append {used : List Token} (h : ∀ t ∈ used, t.kind.isBody = true) :
    bodies (used ++ ts) = bodies ts := by
  induction used with
  | nil => rfl
  | cons t used ih =>
    obtain ⟨ht, hused⟩ := List.forall_mem_cons.mp h
    rw [List.cons_append, bodies, ih hused]
    rintro line rfl
    cases ht

theorem BlocksIn.documentedIn {blocks : List Block} (h : BlocksIn last ts blocks) :
    Block.DocumentedIn BodyPart.isField ts blocks := by
  induction h with
  | nil => exact .nil
  | newline _ ih => exact ih
  | doc _ ih => exact ih
  | @block keyword name line n n' stop body rest block bs hheader htook _ ih =>
    obtain ⟨used, rfl, -, hused⟩ := htook
    have hbodies : Token.bodies (used ++ ⟨.closeBrace, stop⟩ :: rest) = Token.bodies rest :=
      Token.bodies_append hused
    refine .cons ?_ ?_
    · rintro b rfl
      obtain ⟨-, -, r, hr, hfields, -⟩ := hheader
      rw [hfields]
      exact ModelItem.documented_of_readBody hr rfl
    · show List.Forall₂ _ bs (Token.bodies (used ++ ⟨.closeBrace, stop⟩ :: rest))
      rw [hbodies]
      exact ih

/-- **Documentation belongs to the next field.** In every text that is read, the documentation of
each field are the comments behind the field in front of it, or behind the opening brace; without
them it is the comment on the field's own line. -/
theorem Block.documentedIn_of_ofText {source : String} {blocks : List Block}
    (h : ofText source = .ok blocks) :
    ∃ ts, Token.tokenize source = .ok ts ∧ DocumentedIn BodyPart.isField ts blocks := by
  obtain ⟨ts, hts, h⟩ := exists_of_bind h
  exact ⟨ts, hts, (blocksIn_of_readAll h).documentedIn⟩

/-- Both comments in front of the field `id` are its documentation, though the first stands in front
of an attribute. -/
theorem Block.documentedIn_of_ofText_mapped : ∃ source ts blocks, ofText source = .ok blocks ∧
    Token.tokenize source = .ok ts ∧ DocumentedIn BodyPart.isField ts blocks ∧
    ((blocks.filterMap model?).flatMap (·.fields)).map (fun f => (f.name, f.documentation)) =
      [("id", some "Table.\nKey."), ("name", some "Own.")] := by
  let source := "model A \x7b\n/// Table.\n@@map(\"a\")\n/// Key.\nid Int\n" ++
    "name String /// Own.\n\x7d\n"
  have hfields : (ofText source).toOption.map (fun blocks =>
      ((blocks.filterMap model?).flatMap (·.fields)).map fun f => (f.name, f.documentation)) =
        some [("id", some "Table.\nKey."), ("name", some "Own.")] := by
    decide +kernel
  obtain ⟨blocks, hblocks, hfields⟩ := Option.map_eq_some_iff.mp hfields
  have hread : ofText source = .ok blocks := eq_ok_of_toOption hblocks
  obtain ⟨ts, hts, hdocumented⟩ := documentedIn_of_ofText hread
  exact ⟨source, ts, blocks, hread, hts, hdocumented, hfields⟩

/-- Comments are not those behind the last item: an attribute in front of the field takes none. -/
theorem Block.not_documentedIn_isItem : ∃ source ts blocks, ofText source = .ok blocks ∧
    Token.tokenize source = .ok ts ∧ ¬DocumentedIn BodyPart.isItem ts blocks := by
  let source := "model A \x7b\n  /// Table.\n  @@map(\"a\")\n  id Int\n\x7d\n"
  let body := onLine 1 [.newline] ++ onLine 2 [.doc "Table.", .newline] ++
    onLine 3 [.blockMarker, .name "map", .openParen, .text "a", .closeParen, .newline] ++
    onLine 4 [.name "id", .name "Int", .newline]
  let ts := onLine 1 [.name "model", .name "A", .openBrace] ++ body ++
    onLine 5 [.closeBrace, .newline]
  have hts : Token.tokenize source = .ok ts := eq_ok_of_toOption (by decide +kernel)
  have hmodels : (ofText source).toOption.map (fun blocks =>
      (blocks.filterMap model?).map fun b => b.fields.map (·.documentation)) =
        some [[some "Table."]] := by
    decide +kernel
  obtain ⟨blocks, hblocks, hmodels⟩ := Option.map_eq_some_iff.mp hmodels
  refine ⟨source, ts, blocks, eq_ok_of_toOption hblocks, hts, fun h => ?_⟩
  obtain ⟨b, hmodel, hfields⟩ := List.map_eq_singleton_iff.mp hmodels
  have hb : .model b ∈ blocks := mem_of_model? (hmodel ▸ List.mem_singleton_self b)
  have hbodies : Token.bodies ts = [body] := by rfl
  rw [DocumentedIn, hbodies] at h
  obtain ⟨_, hbody, hdocumented⟩ := exists_of_forall₂_left h _ hb
  obtain rfl := List.mem_singleton.mp hbody
  have hsites : (FieldSite.ofBody body).map (·.documentation BodyPart.isItem) = [none] := by
    decide +kernel
  have heq : b.fields.map (·.documentation) =
      (FieldSite.ofBody body).map (·.documentation BodyPart.isItem) :=
    map_eq_of_forall₂ (hdocumented b rfl) fun _ _ h => h.documentation
  rw [hfields, hsites] at heq
  cases heq

end

end Datamodel
