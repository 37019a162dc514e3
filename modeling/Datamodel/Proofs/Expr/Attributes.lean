import Datamodel.Proofs.Expr.Reading

/-! Attributes as texts.

A `PrintedAttribute` is a text that the lexer and the grammar take for one attribute, wherever it
stands on a line. There is one for each name, with arguments or without, and a list of them is read
back as the attributes that they are (`Attribute.readAll_printed`). -/

namespace Datamodel

open Token (Kind IsName Lexes Stops Balanced Answers NoParen Passing onLine)

/-- The sign that an attribute starts with, and its token. -/
inductive Token.Sign : String → Kind → Prop where
  | field : Sign "@" .marker
  | block : Sign "@@" .blockMarker

theorem Token.Sign.lexes {sign : String} {mark : Kind} (h : Sign sign mark) {n : String}
    {s : List Char} {ks : List Kind} (hn : IsName n) (hstop : Stops s) (hs : Lexes s ks) :
    Lexes ((sign ++ n).toList ++ s) (mark :: .name n :: ks) := by
  cases h with
  | field => simpa using Lexes.marker hn hstop hs
  | block => simpa using Lexes.blockMarker hn hstop hs

theorem Token.Sign.head? {sign : String} {mark : Kind} (h : Sign sign mark) (s : String) :
    (sign ++ s).toList.head? = some '@' := by
  cases h <;> simp

/-- An attribute, on whatever line it stands. -/
structure Attribute.Form where
  name : String
  args : List Argument

def Attribute.Form.toAttribute (a : Attribute.Form) (line : Nat) : Attribute := ⟨a.name, a.args, line⟩

/-- A text that is read as one attribute, wherever it stands. -/
structure PrintedAttribute (mark : Kind) extends Attribute.Form where
  text : String
  /-- The tokens after the sign. -/
  kinds : List Kind
  head : text.toList.head? = some '@'
  lexes : Lexes text.toList (mark :: kinds)
  balanced : Balanced kinds
  reads : ∀ last line rest, NoParen rest →
    Answers (Attribute.read last (onLine line kinds ++ rest)) ⟨name, args, line⟩ rest

section
variable {last line line' : Nat} {rest rest' : List Token}

theorem Attribute.read_name {name : String} (h : NoParen rest) :
    Answers (Attribute.read last (⟨.name name, line⟩ :: rest)) ⟨name, [], line⟩ rest := by
  refine ⟨Nat.lt_succ_self _, ?_⟩
  rw [Attribute.read]
  rintro l rest rfl
  exact h _ rfl rfl

theorem Attribute.read_call {name : String} {args : List Argument}
    (h : Answers (Argument.readAll last rest) args rest') :
    Answers (Attribute.read last (⟨.name name, line⟩ :: ⟨.openParen, line'⟩ :: rest))
      ⟨name, args, line⟩ rest' := by
  obtain ⟨hlt, h⟩ := h
  refine ⟨by simp; omega, ?_⟩
  rw [Attribute.read, h]

end

namespace PrintedAttribute
variable {mark : Kind} {sign : String}

theorem text_ne_empty (a : PrintedAttribute mark) : a.text.isEmpty = false := by
  have h := a.head
  rw [Bool.eq_false_iff]
  intro he
  rw [String.isEmpty_iff.mp he] at h
  cases h

/-- The attribute without arguments. -/
def bare (h : Token.Sign sign mark) {n : String} (hn : IsName n) : PrintedAttribute mark where
  text := sign ++ n
  kinds := [.name n]
  name := n
  args := []
  head := h.head? n
  lexes := by simpa using h.lexes hn .nil .nil
  balanced := Balanced.nil.cons fun _ => rfl
  reads := fun _ _ _ hrest => Attribute.read_name hrest

/-- The attribute with arguments, which may be none. -/
def call (h : Token.Sign sign mark) {n : String} (hn : IsName n) {args : List Argument}
    (hargs : ∀ a ∈ args, a.Lexical) : PrintedAttribute mark where
  text := sign ++ n ++ "(" ++ ", ".intercalate (args.map Argument.toText) ++ ")"
  kinds := .name n :: .openParen :: (Kind.separated (args.map Argument.kinds) ++ [.closeParen])
  name := n
  args := args
  head := by
    rw [String.append_assoc, String.append_assoc, String.append_assoc]
    exact h.head? _
  lexes := by
    have hargs := Lexes.separated fun a ha =>
      Argument.lexes (hargs a ha).label (Expr.lexes (hargs a ha).value)
    have := h.lexes hn (Stops.cons (by decide)) (Lexes.openParen
      (hargs.append (Stops.cons (by decide)) (Lexes.closeParen .nil)))
    simpa using this
  balanced := by
    have hargs := Argument.balanced_of_listed (Argument.listed_kinds args)
    exact Balanced.cons (fun _ => rfl) hargs.parens
  reads := by
    intro last line rest _
    have hread : Answers (Argument.readAll last
        (onLine line (Kind.separated (args.map Argument.kinds)) ++ ⟨.closeParen, line⟩ :: rest))
        args rest :=
      Argument.readAll_spelled (Argument.listed_kinds args) (Token.map_kind_onLine ..)
    have htokens : onLine line (.name n :: .openParen ::
          (Kind.separated (args.map Argument.kinds) ++ [.closeParen])) ++ rest =
        ⟨.name n, line⟩ :: ⟨.openParen, line⟩ ::
          (onLine line (Kind.separated (args.map Argument.kinds)) ++ ⟨.closeParen, line⟩ :: rest) := by
      simp [onLine]
    rw [htokens]
    exact Attribute.read_call hread

/-! ### Attributes one after the other -/

/-- Attributes behind each other, a space before each. -/
def textAll (as : List (PrintedAttribute mark)) : List Char :=
  as.flatMap fun a => ' ' :: a.text.toList

def kindsAll (as : List (PrintedAttribute mark)) : List Kind := as.flatMap fun a => mark :: a.kinds

theorem toList_intercalate_texts (s : String) (as : List (PrintedAttribute mark)) :
    (" ".intercalate (s :: as.map (·.text))).toList = s.toList ++ textAll as := by
  induction as generalizing s with
  | nil => simp [textAll]
  | cons a as ih =>
    rw [List.map_cons, String.intercalate_cons_cons, String.toList_append, ih]
    simp [textAll]

theorem stops_textAll (as : List (PrintedAttribute mark)) : Stops (textAll as) := by
  cases as with
  | nil => exact .nil
  | cons a as => exact Stops.cons (by decide)

theorem lexes_textAll (as : List (PrintedAttribute mark)) : Lexes (textAll as) (kindsAll as) := by
  induction as with
  | nil => exact .nil
  | cons a as ih => exact (Lexes.space a.lexes).append (stops_textAll as) ih

theorem balanced_kindsAll (as : List (PrintedAttribute .marker)) : Balanced (kindsAll as) := by
  induction as with
  | nil => exact .nil
  | cons a as ih => exact (a.balanced.append ih).cons fun _ => rfl

theorem noParen_kindsAll (as : List (PrintedAttribute .marker)) (line : Nat) {rest : List Token}
    (hrest : NoParen rest) : NoParen (onLine line (kindsAll as) ++ rest) := by
  cases as with
  | nil => exact hrest
  | cons a as => exact NoParen.cons nofun

end PrintedAttribute

open PrintedAttribute

/-- **The attributes of an item are read back**, up to a token that starts none. -/
theorem Attribute.readAll_printed (as : List (PrintedAttribute .marker)) (last line : Nat)
    {rest : List Token} (hparen : NoParen rest) (hmarker : ∀ t ∈ rest.head?, t.kind ≠ .marker) :
    ∃ h, Attribute.readAll last (onLine line (kindsAll as) ++ rest) =
      .ok ⟨as.map (·.toAttribute line), rest, h⟩ := by
  induction as with
  | nil =>
    refine ⟨Nat.le_refl _, ?_⟩
    show Attribute.readAll last rest = _
    rw [Attribute.readAll.eq_def]
    split
    · exact absurd rfl (hmarker _ rfl)
    · rfl
  | cons a as ih =>
    have htokens : onLine line (kindsAll (a :: as)) ++ rest =
        ⟨.marker, line⟩ :: (onLine line a.kinds ++ (onLine line (kindsAll as) ++ rest)) := by
      simp [kindsAll, onLine]
    rw [htokens]
    obtain ⟨hlt, hread⟩ := a.reads last line _ (noParen_kindsAll as line hparen)
    obtain ⟨hle, ih⟩ := ih
    refine ⟨by simp at hlt hle ⊢; omega, ?_⟩
    rw [Attribute.readAll, hread]
    simp only [ih, List.map_cons, Attribute.Form.toAttribute]

/-! ### Printed lists of attributes -/

/-- The texts are those of the attributes `as`. -/
def PrintsAs (mark : Kind) (texts : List String) (as : List Attribute.Form) : Prop :=
  ∃ ps : List (PrintedAttribute mark), ps.map (·.text) = texts ∧ ps.map (·.toForm) = as

namespace PrintsAs
variable {mark : Kind} {sign : String} {texts texts' : List String} {as as' : List Attribute.Form}

theorem nil : PrintsAs mark [] [] := ⟨[], rfl, rfl⟩

theorem append (h : PrintsAs mark texts as) (h' : PrintsAs mark texts' as') :
    PrintsAs mark (texts ++ texts') (as ++ as') := by
  obtain ⟨ps, rfl, rfl⟩ := h
  obtain ⟨ps', rfl, rfl⟩ := h'
  exact ⟨ps ++ ps', List.map_append, List.map_append⟩

theorem one (a : PrintedAttribute mark) : PrintsAs mark [a.text] [a.toForm] :=
  ⟨[a], rfl, rfl⟩

theorem bare (h : Token.Sign sign mark) {n : String} (hn : IsName n) :
    PrintsAs mark [sign ++ n] [⟨n, []⟩] := one (.bare h hn)

theorem call (h : Token.Sign sign mark) {n : String} (hn : IsName n) {args : List Argument}
    (hargs : ∀ a ∈ args, a.Lexical) :
    PrintsAs mark [sign ++ n ++ "(" ++ ", ".intercalate (args.map Argument.toText) ++ ")"]
      [⟨n, args⟩] := one (.call h hn hargs)

theorem positional (h : Token.Sign sign mark) (n : String) (hn : IsName n) (e : Expr)
    (he : e.Lexical) :
    PrintsAs mark [sign ++ n ++ "(" ++ e.toText ++ ")"] [⟨n, [⟨none, e⟩]⟩] := by
  have hargs : ∀ a ∈ [(⟨none, e⟩ : Argument)], a.Lexical := by
    simpa using Argument.lexical_positional he
  simpa [Argument.toText] using call h hn hargs

/-- Attributes that are printed under a condition. -/
theorem ite (b : Bool) (h : PrintsAs mark texts as) :
    PrintsAs mark (if b then texts else []) (if b then as else []) := by
  cases b
  · exact nil
  · exact h

theorem map {α : Type} {text : α → String} {form : α → Attribute.Form} {xs : List α}
    (h : ∀ x ∈ xs, PrintsAs mark [text x] [form x]) :
    PrintsAs mark (xs.map text) (xs.map form) := by
  induction xs with
  | nil => exact nil
  | cons x xs ih =>
    exact (h x List.mem_cons_self).append (ih fun y hy => h y (List.mem_cons_of_mem _ hy))

theorem toList {α : Type} {text : α → String} {form : α → Attribute.Form} {o : Option α}
    (h : ∀ x ∈ o, PrintsAs mark [text x] [form x]) :
    PrintsAs mark (o.map text).toList (o.map form).toList := by
  cases o with
  | none => exact nil
  | some x => exact h x rfl

/-- No attribute is an empty text. -/
theorem filter_eq (h : PrintsAs mark texts as) : texts.filter (!·.isEmpty) = texts := by
  obtain ⟨ps, rfl, rfl⟩ := h
  rw [List.filter_eq_self, List.forall_mem_map]
  intro a _
  rw [a.text_ne_empty]
  rfl

theorem exists_printed {p : Attribute.Form → Prop} (h : PrintsAs mark texts as)
    (has : ∀ a ∈ as, p a) :
    ∃ ps : List (PrintedAttribute mark), ps.map (·.text) = texts ∧ ∀ a ∈ ps, p a.toForm := by
  obtain ⟨ps, htexts, rfl⟩ := h
  exact ⟨ps, htexts, List.forall_mem_map.mp has⟩

theorem exists_of_mem (h : PrintsAs mark texts as) :
    ∀ t ∈ texts, ∃ a : PrintedAttribute mark, a.text = t := by
  obtain ⟨ps, rfl, -⟩ := h
  exact List.forall_mem_map.mpr fun a _ => ⟨a, rfl⟩

/-- Texts that are attributes are printed as such. -/
theorem exists_of_list {names texts : List String}
    (h : ∀ t ∈ texts, ∃ a : PrintedAttribute mark, a.text = t ∧ a.name ∉ names) :
    ∃ forms, PrintsAs mark texts forms ∧ ∀ form ∈ forms, form.name ∉ names := by
  induction texts with
  | nil => exact ⟨[], nil, nofun⟩
  | cons t texts ih =>
    obtain ⟨a, rfl, ha⟩ := h t List.mem_cons_self
    obtain ⟨forms, hforms, hnames⟩ := ih fun t' ht' => h t' (List.mem_cons_of_mem _ ht')
    exact ⟨a.toForm :: forms, (one a).append hforms, List.forall_mem_cons.mpr ⟨ha, hnames⟩⟩

theorem exists_of_option {names : List String} {text : Option String}
    (h : ∀ t ∈ text, ∃ a : PrintedAttribute mark, a.text = t ∧ a.name ∉ names) :
    ∃ form : Option Attribute.Form, PrintsAs mark text.toList form.toList ∧
      ∀ f ∈ form, f.name ∉ names := by
  cases text with
  | none => exact ⟨none, nil, nofun⟩
  | some t =>
    obtain ⟨a, rfl, ha⟩ := h t rfl
    refine ⟨some a.toForm, one a, ?_⟩
    rintro _ ⟨⟩
    exact ha

end PrintsAs

end Datamodel
