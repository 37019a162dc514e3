import Datamodel.Block.Grammar
import Datamodel.Proofs.Expr.Attributes

/-! Reading the items of blocks back.

Each kind of item stands on one line, and its reader takes that line and the line feed behind it. -/

namespace Datamodel

open Token (Kind Lexes Answers NoParen Passing onLine onLine_cons_append)
open PrintedAttribute (kindsAll)

/-- The tokens of the mark of a type. -/
def Arity.kinds : Arity → List Kind
  | required => []
  | optional => [.question]
  | list => [.openBracket, .closeBracket]

section
variable {rest : List Token}

theorem TypeRef.read_named (last line : Nat) (name : String) (h : NoParen rest) :
    Answers (TypeRef.read last (⟨.name name, line⟩ :: rest)) (.named name) rest := by
  refine ⟨Nat.lt_succ_self _, ?_⟩
  rw [TypeRef.read]
  · rintro l s l' rest' rfl rfl
    exact h _ rfl rfl
  · rintro l rest' rfl rfl
    exact h _ rfl rfl

theorem Arity.read_kinds (a : Arity) (line : Nat) (hquestion : ∀ t ∈ rest.head?, t.kind ≠ .question)
    (hbracket : ∀ t ∈ rest.head?, t.kind ≠ .openBracket) :
    (Arity.read (onLine line a.kinds ++ rest)).value = a ∧
      (Arity.read (onLine line a.kinds ++ rest)).rest = rest := by
  cases a with
  | required =>
    show (Arity.read rest).value = _ ∧ (Arity.read rest).rest = _
    unfold Arity.read
    split
    · exact absurd rfl (hquestion _ rfl)
    · exact absurd rfl (hbracket _ rfl)
    · exact ⟨rfl, rfl⟩
  | optional | list => exact ⟨rfl, rfl⟩

theorem Arity.noParen_kinds (a : Arity) (line : Nat) (h : NoParen rest) :
    NoParen (onLine line a.kinds ++ rest) := by
  cases a with
  | required => exact h
  | optional | list => exact NoParen.cons nofun

end

/-- What stands behind the type of a field: an attribute or the end of the line. -/
theorem PrintedAttribute.head?_kindsAll_ne (as : List (PrintedAttribute .marker)) (line : Nat)
    (rest : List Token) {k : Kind} (hmarker : .marker ≠ k) (hnewline : .newline ≠ k) :
    ∀ t ∈ (onLine line (kindsAll as) ++ ⟨.newline, line⟩ :: rest).head?, t.kind ≠ k := by
  cases as with
  | nil => simpa [kindsAll, onLine] using hnewline
  | cons a as => simpa [kindsAll, onLine] using hmarker

/-- The declaration that a field's line is read as. -/
def FieldDecl.ofLine (name type : String) (arity : Arity) (as : List (PrintedAttribute .marker))
    (docs : List String) (line : Nat) : FieldDecl where
  name
  type := .named type
  arity
  attributes := as.map (·.toAttribute line)
  documentation := joinDocs docs
  line

theorem FieldDecl.read_line (name type : String) (arity : Arity)
    (as : List (PrintedAttribute .marker)) (last : Nat) (docs : List String) (line : Nat)
    (rest : List Token) :
    Answers (FieldDecl.read last docs
        (onLine line (.name name :: .name type :: (arity.kinds ++ kindsAll as)) ++
          ⟨.newline, line⟩ :: rest))
      (ofLine name type arity as docs line) rest := by
  have hhead {k : Kind} := PrintedAttribute.head?_kindsAll_ne as line rest (k := k)
  have htokens : onLine line (.name name :: .name type :: (arity.kinds ++ kindsAll as)) ++
        ⟨.newline, line⟩ :: rest =
      ⟨.name name, line⟩ :: ⟨.name type, line⟩ ::
        (onLine line arity.kinds ++ (onLine line (kindsAll as) ++ ⟨.newline, line⟩ :: rest)) := by
    simp [onLine]
  rw [htokens]
  obtain ⟨htypelt, htype⟩ := TypeRef.read_named last line type
    (arity.noParen_kinds line (hhead nofun nofun))
  obtain ⟨harity, hrest⟩ := arity.read_kinds line (hhead nofun nofun) (hhead nofun nofun)
  have hattrs := Attribute.readAll_printed as last line
    (show NoParen (⟨.newline, line⟩ :: rest) from NoParen.cons nofun) (by simp)
  rw [← hrest] at hattrs
  obtain ⟨hle, hattrs⟩ := hattrs
  refine ⟨by rw [hrest] at hle; simp at hle ⊢; omega, ?_⟩
  unfold FieldDecl.read
  simp only [Token.ident, htype, hattrs, bind, Except.bind]
  simp only [harity, Block.trailingDoc, Passing.stay, Option.or_none, Token.endOfItem]
  rfl

theorem Attribute.readLine_printed (a : PrintedAttribute .blockMarker) (last line : Nat)
    (rest : List Token) :
    Answers (Attribute.readLine last (onLine line a.kinds ++ ⟨.newline, line⟩ :: rest))
      (a.toAttribute line) rest := by
  obtain ⟨hlt, hread⟩ := a.reads last line (⟨.newline, line⟩ :: rest) (NoParen.cons nofun)
  refine ⟨by simp at hlt ⊢; omega, ?_⟩
  unfold readLine
  simp only [hread, bind, Except.bind]
  rfl

theorem ModelItem.read_field (name type : String) (arity : Arity)
    (as : List (PrintedAttribute .marker)) (last : Nat) (docs : List String) (line : Nat)
    (rest : List Token) :
    Answers (ModelItem.read last docs
        (onLine line (.name name :: .name type :: (arity.kinds ++ kindsAll as)) ++
          ⟨.newline, line⟩ :: rest))
      (.field (FieldDecl.ofLine name type arity as docs line), []) rest := by
  have h := FieldDecl.read_line name type arity as last docs line rest
  rw [onLine_cons_append] at h ⊢
  obtain ⟨hlt, hread⟩ := h
  refine ⟨hlt, ?_⟩
  simp only [ModelItem.read, hread, bind, Except.bind]
  rfl

theorem ModelItem.read_attr (a : PrintedAttribute .blockMarker) (last : Nat) (docs : List String)
    (line : Nat) (rest : List Token) :
    Answers (ModelItem.read last docs
        (onLine line (.blockMarker :: a.kinds) ++ ⟨.newline, line⟩ :: rest))
      (.attr (a.toAttribute line), docs) rest := by
  obtain ⟨hlt, hread⟩ := Attribute.readLine_printed a last line rest
  rw [onLine_cons_append]
  refine ⟨Nat.lt_succ_of_lt hlt, ?_⟩
  simp only [ModelItem.read, hread, bind, Except.bind]
  rfl

theorem EnumItem.read_value (name : String) (as : List (PrintedAttribute .marker)) (last : Nat)
    (docs : List String) (line : Nat) (rest : List Token) :
    Answers (EnumItem.read last docs
        (onLine line (.name name :: kindsAll as) ++ ⟨.newline, line⟩ :: rest))
      (.value ⟨name, as.map (·.toAttribute line), line⟩, docs) rest := by
  obtain ⟨hle, hread⟩ := Attribute.readAll_printed as last line
    (show NoParen (⟨.newline, line⟩ :: rest) from NoParen.cons nofun) (by simp)
  rw [onLine_cons_append]
  refine ⟨by simp at hle ⊢; omega, ?_⟩
  simp only [EnumItem.read, EnumValueDecl.read, hread, bind, Except.bind]
  rfl

theorem EnumItem.read_attr (a : PrintedAttribute .blockMarker) (last : Nat) (docs : List String)
    (line : Nat) (rest : List Token) :
    Answers (EnumItem.read last docs
        (onLine line (.blockMarker :: a.kinds) ++ ⟨.newline, line⟩ :: rest))
      (.attr (a.toAttribute line), docs) rest := by
  obtain ⟨hlt, hread⟩ := Attribute.readLine_printed a last line rest
  rw [onLine_cons_append]
  refine ⟨Nat.lt_succ_of_lt hlt, ?_⟩
  simp only [EnumItem.read, hread, bind, Except.bind]
  rfl

theorem Property.read_line (key : String) (value : Expr) (last : Nat) (docs : List String)
    (line : Nat) (rest : List Token) :
    Answers (Property.read last docs
        (onLine line (.name key :: .equals :: value.kinds) ++ ⟨.newline, line⟩ :: rest))
      (⟨key, value, line⟩, docs) rest := by
  obtain ⟨hlt, hread⟩ := value.read_kinds last (onLine line value.kinds)
    (⟨.newline, line⟩ :: rest) (Token.map_kind_onLine ..) (NoParen.cons nofun)
  rw [onLine_cons_append, onLine_cons_append]
  refine ⟨by simp at hlt ⊢; omega, ?_⟩
  simp only [Property.read, Token.expect, if_pos, hread, bind, Except.bind]
  rfl

end Datamodel
