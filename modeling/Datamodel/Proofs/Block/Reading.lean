import Datamodel.Proofs.Block.Items
import Datamodel.Schema.Printer

/-! Reading blocks back, line by line.

`BodyLines` says what items the lines of a body stand for, documentation lines among them, and
`BlockLines` what block a list of lines stands for. Both are about texts; the tokens are a matter
of their proofs. -/

namespace Datamodel

open Token (Kind Reading Lexes LexesLine Balanced Answers NoParen Passing onLine onLine_cons_append
  layout layout_append)
open Printer (isBlankLine)

/-! ### Bodies -/

/-- The tokens with which an item of a body starts. -/
inductive Token.Kind.OpensItem : Kind → Prop where
  | name (ident : String) : OpensItem (.name ident)
  | marker : OpensItem .blockMarker

section
variable {α β : Type}

/-- A reader of the items of a body. -/
abbrev ItemReader (α : Type) : Type :=
  Nat → List String → (ts : List Token) → Except SourceError (Reading (α × List String) ts)

variable (item : ItemReader α) (Means : α → β → Prop)

/-- A line that is read as one item, which means `b`. The documentation lines `docs` stand before
it, and `docs'` are those that it leaves. -/
structure ItemLine (docs docs' : List String) (line : String) (b : β) : Prop where
  nonblank : isBlankLine line = false
  reads : ∃ k ks, k.OpensItem ∧ LexesLine line.toList (k :: ks) ∧ ∀ last n rest, ∃ x,
    Answers (item last docs (onLine n (k :: ks) ++ ⟨.newline, n⟩ :: rest)) (x, docs') rest ∧
      Means x b

/-- The lines of a body, after the documentation lines `docs`, stand for items that mean `bs`. -/
inductive BodyLines : List String → List String → List β → Prop where
  | nil {docs : List String} : BodyLines docs [] []
  | doc {docs lines : List String} {bs : List β} {line text : String}
    (nonblank : isBlankLine line = false) (h : LexesLine line.toList [.doc text])
    (more : BodyLines (docs ++ [text]) lines bs) : BodyLines docs (line :: lines) bs
  | item {docs docs' lines : List String} {line : String} {b : β} {bs : List β}
    (h : ItemLine item Means docs docs' line b) (more : BodyLines docs' lines bs) :
    BodyLines docs (line :: lines) (b :: bs)

variable {item Means}

theorem BodyLines.nonblank {docs lines : List String} {bs : List β}
    (h : BodyLines item Means docs lines bs) : ∀ line ∈ lines, isBlankLine line = false := by
  induction h with
  | nil => nofun
  | doc hline _ _ ih => exact List.forall_mem_cons.mpr ⟨hline, ih⟩
  | item hline _ ih => exact List.forall_mem_cons.mpr ⟨hline.nonblank, ih⟩

/-- Lines that leave no documentation, and more lines behind them. -/
theorem BodyLines.append_items {γ : Type} {docs more : List String} {line : γ → String}
    {value : γ → β} {xs : List γ} {bs : List β}
    (h : ∀ x ∈ xs, ItemLine item Means docs docs (line x) (value x))
    (hmore : BodyLines item Means docs more bs) :
    BodyLines item Means docs (xs.map line ++ more) (xs.map value ++ bs) := by
  induction xs with
  | nil => exact hmore
  | cons x xs ih =>
    exact .item (h x List.mem_cons_self) (ih fun y hy => h y (List.mem_cons_of_mem _ hy))

/-- Items one after the other that take and leave no documentation. -/
theorem BodyLines.of_items {γ : Type} {docs : List String} {line : γ → String} {value : γ → β}
    {xs : List γ} (h : ∀ x ∈ xs, ItemLine item Means docs docs (line x) (value x)) :
    BodyLines item Means docs (xs.map line) (xs.map value) := by
  simpa using append_items h .nil

variable {last n stop : Nat} {name : String} {docs docs' : List String} {rest : List Token}

theorem Block.readBody_close :
    Answers (Block.readBody last name (item last) docs (⟨.closeBrace, stop⟩ :: rest)) [] rest :=
  ⟨Nat.lt_succ_self _, by rw [Block.readBody]⟩

theorem Block.readBody_newline {ts : List Token} {xs : List α}
    (h : Answers (Block.readBody last name (item last) docs ts) xs rest) :
    Answers (Block.readBody last name (item last) docs (⟨.newline, n⟩ :: ts)) xs rest := by
  obtain ⟨hlt, h⟩ := h
  refine ⟨Nat.lt_succ_of_lt hlt, ?_⟩
  rw [Block.readBody, h]
  rfl

theorem Block.readBody_doc {text : String} {ts : List Token} {xs : List α}
    (h : Answers (Block.readBody last name (item last) (docs ++ [text]) ts) xs rest) :
    Answers (Block.readBody last name (item last) docs (⟨.doc text, n⟩ :: ts)) xs rest := by
  obtain ⟨hlt, h⟩ := h
  refine ⟨Nat.lt_succ_of_lt hlt, ?_⟩
  rw [Block.readBody, h]
  rfl

/-- An item, which starts with none of the tokens that have a meaning of their own in a body. -/
theorem Block.readBody_of_item {k : Kind} {ts us : List Token} {x : α} {xs : List α}
    (hclose : k ≠ .closeBrace) (hnewline : k ≠ .newline) (hdoc : ∀ text, k ≠ .doc text)
    (hx : Answers (item last docs (⟨k, n⟩ :: ts)) (x, docs') us)
    (h : Answers (Block.readBody last name (item last) docs' us) xs rest) :
    Answers (Block.readBody last name (item last) docs (⟨k, n⟩ :: ts)) (x :: xs) rest := by
  obtain ⟨hxlt, hx⟩ := hx
  obtain ⟨hlt, h⟩ := h
  refine ⟨Nat.lt_trans hlt hxlt, ?_⟩
  rw [Block.readBody, hx]
  · simp only [h]
    rfl
  · rintro _ ⟨⟩
    exact hclose rfl
  · rintro _ ⟨⟩
    exact hnewline rfl
  · rintro text _ ⟨⟩
    exact hdoc text rfl

theorem Block.readBody_item {k : Kind} {ts us : List Token} {x : α} {xs : List α}
    (hk : k.OpensItem) (hx : Answers (item last docs (⟨k, n⟩ :: ts)) (x, docs') us)
    (h : Answers (Block.readBody last name (item last) docs' us) xs rest) :
    Answers (Block.readBody last name (item last) docs (⟨k, n⟩ :: ts)) (x :: xs) rest := by
  refine readBody_of_item ?_ ?_ ?_ hx h
  all_goals cases hk <;> nofun

/-- **The body of a block is read back**, up to its closing brace. -/
theorem BodyLines.reads {lines : List String} {bs : List β}
    (h : BodyLines item Means docs lines bs) :
    ∃ kss, List.Forall₂ LexesLine (lines.map fun line => ("  " ++ line).toList) kss ∧
      ∀ last name start stop rest, ∃ xs,
        Answers (Block.readBody last name (item last) docs
          (layout start kss ++ ⟨.closeBrace, stop⟩ :: rest)) xs rest ∧
        List.Forall₂ Means xs bs := by
  have indent {line : String} {ks : List Kind} (h : LexesLine line.toList ks) :
      LexesLine ("  " ++ line).toList ks := by
    simpa using h.space.space
  induction h with
  | nil => exact ⟨[], .nil, fun _ _ _ _ _ => ⟨[], Block.readBody_close, .nil⟩⟩
  | @doc docs lines bs line text _ hline _ ih =>
    obtain ⟨kss, hkss, ih⟩ := ih
    refine ⟨[.doc text] :: kss, .cons (indent hline) hkss, fun last name start stop rest => ?_⟩
    obtain ⟨xs, hread, hmeans⟩ := ih last name (start + 1) stop rest
    exact ⟨xs, Block.readBody_doc (Block.readBody_newline hread), hmeans⟩
  | @item docs docs' lines line b bs hitem _ ih =>
    obtain ⟨kss, hkss, ih⟩ := ih
    obtain ⟨k, ks, hk, hline, hreads⟩ := hitem.reads
    refine ⟨(k :: ks) :: kss, .cons (indent hline) hkss, fun last name start stop rest => ?_⟩
    obtain ⟨xs, hread, hmeans⟩ := ih last name (start + 1) stop rest
    obtain ⟨x, hx, hxb⟩ :=
      hreads last start (layout (start + 1) kss ++ ⟨.closeBrace, stop⟩ :: rest)
    refine ⟨x :: xs, ?_, .cons hxb hmeans⟩
    rw [layout, List.append_assoc]
    exact Block.readBody_item hk hx hread

end

end Datamodel
