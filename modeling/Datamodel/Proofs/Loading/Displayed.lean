import Datamodel.Proofs.Expr.Reading
import Datamodel.Proofs.Loading.Taken

/-! The text of an expression is read back as that expression.

An expression can stand in an argument of an attribute or as the value of a property, and it holds
others (`Expr.all`). All those of a text are lexical (`Block.lexical_of_mem_exprs`), so the text of
each is made of its own tokens, and these are read as nothing else (`Expr.ReadBack`). -/

namespace Datamodel

open Token (Answers onLine)

/-! ### The expressions of a block -/

mutual

/-- The expression and those that stand in it, however deep. -/
def Expr.all : Expr → List Expr
  | .call function args => .call function args :: Argument.allList args
  | .array items => .array items :: Expr.allList items
  | e => [e]

def Expr.allList : List Expr → List Expr
  | [] => []
  | e :: es => e.all ++ Expr.allList es

def Argument.allList : List Argument → List Expr
  | [] => []
  | ⟨_, value⟩ :: as => value.all ++ Argument.allList as

end

theorem Expr.allList_eq_flatMap (es : List Expr) : allList es = es.flatMap all := by
  induction es with
  | nil => rfl
  | cons e es ih => rw [allList, ih, List.flatMap_cons]

theorem Argument.allList_eq_flatMap (as : List Argument) :
    allList as = as.flatMap (·.value.all) := by
  induction as with
  | nil => rfl
  | cons a as ih =>
    obtain ⟨label, value⟩ := a
    rw [allList, ih, List.flatMap_cons]

/-- The attributes of a block and of what is declared in it. -/
def Block.attributes : Block → List Attribute
  | model b => b.fields.flatMap (·.attributes) ++ b.attributes
  | enum b => b.values.flatMap (·.attributes) ++ b.attributes
  | datasource _ | generator _ => []

def Block.properties : Block → List Property
  | model _ | enum _ => []
  | datasource b | generator b => b.properties

/-- The expressions of a block. -/
def Block.exprs (b : Block) : List Expr :=
  (b.attributes.flatMap (fun a => a.args.map (·.value)) ++ b.properties.map (·.value)).flatMap
    Expr.all

/-! ### Lexical expressions -/

theorem Expr.Lexical.all {e : Expr} (h : e.Lexical) : ∀ e' ∈ e.all, e'.Lexical := by
  induction h with
  | text value => exact List.forall_mem_singleton.mpr (.text value)
  | number h => exact List.forall_mem_singleton.mpr (.number h)
  | name h => exact List.forall_mem_singleton.mpr (.name h)
  | call h labels values ih =>
    refine List.forall_mem_cons.mpr ⟨.call h labels values, fun e' he' => ?_⟩
    rw [Argument.allList_eq_flatMap] at he'
    obtain ⟨a, ha, he'⟩ := List.mem_flatMap.mp he'
    exact ih a ha e' he'
  | array h ih =>
    refine List.forall_mem_cons.mpr ⟨.array h, fun e' he' => ?_⟩
    rw [allList_eq_flatMap] at he'
    obtain ⟨e, he, he'⟩ := List.mem_flatMap.mp he'
    exact ih e he e' he'

section
variable {b : Block} {source : String} {blocks : List Block}

theorem Block.Lexical.attributes (h : b.Lexical) : ∀ a ∈ b.attributes, a.Lexical := by
  intro a ha
  cases b with
  | model b =>
    have h : b.Lexical := h
    rcases List.mem_append.mp ha with ha | ha
    · obtain ⟨d, hd, ha⟩ := List.mem_flatMap.mp ha
      exact (h.fields d hd).attributes a ha
    · exact h.attributes a ha
  | enum b =>
    have h : b.Lexical := h
    rcases List.mem_append.mp ha with ha | ha
    · obtain ⟨v, hv, ha⟩ := List.mem_flatMap.mp ha
      exact (h.values v hv).attributes a ha
    · exact h.attributes a ha
  | datasource b | generator b => cases ha

theorem Block.Lexical.properties (h : b.Lexical) : ∀ p ∈ b.properties, p.value.Lexical := by
  intro p hp
  cases b with
  | model b | enum b => cases hp
  | datasource b | generator b =>
    have h : b.Lexical := h
    exact (h.properties p hp).2

/-- The expressions of a text are made of texts of the lexer. -/
theorem Block.lexical_of_mem_exprs (h : ofText source = .ok blocks) (hb : b ∈ blocks) :
    ∀ e ∈ b.exprs, e.Lexical := by
  have hlexical : b.Lexical := lexical_of_ofText h b hb
  intro e' he'
  obtain ⟨e, he, he'⟩ := List.mem_flatMap.mp he'
  refine Expr.Lexical.all ?_ e' he'
  rcases List.mem_append.mp he with he | he
  · obtain ⟨a, ha, he⟩ := List.mem_flatMap.mp he
    obtain ⟨arg, harg, rfl⟩ := List.mem_map.mp he
    exact (hlexical.attributes a ha arg harg).value
  · obtain ⟨p, hp, rfl⟩ := List.mem_map.mp he
    exact hlexical.properties p hp

/-! ### Reading back -/

/-- The text of the expression, alone, has no line break among its tokens, and they are read as the
expression, with none left. -/
def Expr.ReadBack (e : Expr) : Prop :=
  ∃ ts, Token.tokenize e.toText = .ok ts ∧ (∀ t ∈ ts, t.kind ≠ .newline) ∧
    ∀ last, Answers (Expr.read last ts) e []

theorem Expr.tokenize_toText {e : Expr} (h : e.Lexical) :
    Token.tokenize e.toText = .ok (onLine 1 e.kinds) := by
  have hscan : Token.scan 1 0 e.toText.toList = .ok (onLine 1 e.kinds) := by
    have hlexes := Expr.lexes h 1 0 [] Token.Stops.nil
    rw [List.append_nil] at hlexes
    rw [hlexes, Token.scan]
    exact congrArg Except.ok (List.append_nil _)
  rw [Token.tokenize, Token.dropMark_of_scan hscan, hscan]

theorem Expr.read_onLine (e : Expr) (last : Nat) :
    Answers (Expr.read last (onLine 1 e.kinds)) e [] := by
  have hread := e.read_kinds last (onLine 1 e.kinds) [] (Token.map_kind_onLine 1 e.kinds) nofun
  rwa [List.append_nil] at hread

theorem Expr.Lexical.readBack {e : Expr} (h : e.Lexical) : e.ReadBack := by
  refine ⟨onLine 1 e.kinds, tokenize_toText h, fun t ht => ?_, e.read_onLine⟩
  -- All of these tokens are taken as an expression, and no line break is.
  obtain ⟨_, hread⟩ := e.read_onLine 1
  obtain ⟨used, hused, -, hinner⟩ := Expr.took_of_read hread
  rw [List.append_nil] at hused
  intro hnewline
  have hkind := hinner t (hused ▸ ht)
  rw [hnewline] at hkind
  cases hkind

/-- **Displayed expressions are read back.** Each expression of a text, at any depth, is read from
its own text alone, and nothing is left of it. -/
theorem Block.readBack_of_ofText (h : ofText source = .ok blocks) :
    ∀ b ∈ blocks, ∀ e ∈ b.exprs, e.ReadBack :=
  fun _ hb e he => (lexical_of_mem_exprs h hb e he).readBack

/-- The call `g("a\"")` stands in a list, which is a labelled argument of another call. -/
theorem Block.readBack_of_ofText_nested : ∃ source blocks, ofText source = .ok blocks ∧
    ∃ b ∈ blocks, ∃ e ∈ b.exprs, e.toText = "g(\"a\\\"\")" ∧ e.ReadBack := by
  let source := "model A \x7b\n  a Int @default(f(x: [1, g(\"a\\\"\")], y))\n\x7d\n"
  have hfound : ∃ texts ∈ (ofText source).toOption.map fun blocks =>
      blocks.map fun b => b.exprs.map Expr.toText, ∃ text ∈ texts, "g(\"a\\\"\")" ∈ text := by
    decide +kernel
  obtain ⟨_, htexts, _, htext, hmem⟩ := hfound
  obtain ⟨blocks, hblocks, rfl⟩ := Option.map_eq_some_iff.mp htexts
  obtain ⟨b, hb, rfl⟩ := List.mem_map.mp htext
  obtain ⟨e, he, heq⟩ := List.mem_map.mp hmem
  have hread : ofText source = .ok blocks := eq_ok_of_toOption hblocks
  exact ⟨source, blocks, hread, b, hb, e, he, heq, readBack_of_ofText hread b hb e he⟩

end

end Datamodel
