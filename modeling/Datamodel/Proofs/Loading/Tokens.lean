import Datamodel.Proofs.Token.Lexing
import Mathlib.Data.List.DropRight

/-! What the tokens of a text are like.

The names and numbers among them are such, and documentation stands on one line with nothing blank
at its end (`lexed_of_tokenize`). -/

namespace Datamodel.Token

/-- A documentation line as the lexer takes it from a comment. -/
def IsDocLine (line : String) : Prop :=
  '\n' ∉ line.toList ∧ Text.trimRight line.toList = line.toList

/-- A kind of token that the lexer makes. -/
def Kind.Lexed : Kind → Prop
  | .name ident => IsName ident
  | .number lexeme => IsNumber lexeme
  | .doc line => IsDocLine line
  | _ => True

/-- Tokens that the lexer makes. -/
def Lexed (ts : List Token) : Prop := ∀ t ∈ ts, t.kind.Lexed

@[simp] theorem lexed_nil : Lexed [] := nofun

@[simp] theorem lexed_cons {t : Token} {ts : List Token} :
    Lexed (t :: ts) ↔ t.kind.Lexed ∧ Lexed ts := List.forall_mem_cons

theorem isDocLine_trimRight {s : List Char} (h : '\n' ∉ s) :
    IsDocLine (String.ofList (Text.trimRight s)) := by
  obtain ⟨b, -, hs⟩ := Text.exists_trimRight s
  rw [IsDocLine, String.toList_ofList]
  refine ⟨fun hmem => h ?_, List.rdropWhile_idempotent Text.isBlank s⟩
  rw [hs]
  exact List.mem_append_left b hmem

theorem lexed_ofComment {s : List Char} (h : '\n' ∉ s) : ∀ kind ∈ Kind.ofComment s, kind.Lexed := by
  intro kind hkind
  unfold Kind.ofComment at hkind
  split at hkind
  · cases hkind
    exact isDocLine_trimRight fun hmem => h (by simp [hmem])
  · cases hkind
    exact isDocLine_trimRight fun hmem => h (by simp [hmem])
  · cases hkind

theorem isNumber_takeWhile {c : Char} {s : List Char} (h : opensNumber c s = true) :
    IsNumber (String.ofList (c :: s.takeWhile isNumberChar)) := by
  refine ⟨c, s.takeWhile isNumberChar, String.toList_ofList, ?_, List.all_takeWhile⟩
  cases s with
  | nil => exact h
  | cons d s =>
    simp only [opensNumber, List.head?_cons, Option.any_some, Bool.or_eq_true, Bool.and_eq_true,
      beq_iff_eq] at h ⊢
    rcases h with h | ⟨rfl, hd⟩
    · exact .inl h
    · have hchar : isNumberChar d = true := by simp [isNumberChar, Char.isAlphanum, hd]
      rw [List.takeWhile_cons_of_pos hchar]
      exact .inr ⟨rfl, hd⟩

theorem lexed_ofChar? {c : Char} : ∀ kind ∈ Kind.ofChar? c, kind.Lexed := by
  intro kind hkind
  unfold Kind.ofChar? at hkind
  split at hkind <;> cases hkind <;> exact trivial

theorem lexed_of_lexeme {line : Nat} {c : Char} {s r : List Char} {kind : Option Kind}
    (h : lexeme line c s = .ok (kind, r)) : ∀ k ∈ kind, k.Lexed := by
  unfold lexeme at h
  split at h
  · next hkind =>
    cases h
    exact fun k hk => lexed_ofChar? k (hkind.trans hk)
  · cases h
    rintro k ⟨⟩
    exact trivial
  · cases h
    rintro k ⟨⟩
    exact trivial
  · cases h
    refine lexed_ofComment fun hmem => ?_
    simpa using List.mem_takeWhile_imp hmem
  · split at h
    · cases h
      rintro k ⟨⟩
      exact trivial
    · cases h
  · split at h
    · cases h
      nofun
    split at h
    · next hnumber =>
      cases h
      rintro k ⟨⟩
      exact isNumber_takeWhile hnumber
    split at h
    · next hstart =>
      cases h
      rintro k ⟨⟩
      exact ⟨_, _, String.toList_ofList, hstart, List.all_takeWhile⟩
    · cases h

theorem lexed_ofLexeme {line depth : Nat} {kind : Option Kind} (h : ∀ k ∈ kind, k.Lexed) :
    Lexed (ofLexeme line depth kind) := by
  unfold ofLexeme
  split
  · exact lexed_nil
  · split
    · exact lexed_cons.mpr ⟨trivial, lexed_nil⟩
    · exact lexed_nil
  · exact lexed_cons.mpr ⟨h _ rfl, lexed_nil⟩

theorem lexed_of_scan {line depth : Nat} {s : List Char} {ts : List Token}
    (h : scan line depth s = .ok ts) : Lexed ts := by
  fun_induction scan line depth s generalizing ts with
  | case1 =>
    cases h
    exact lexed_nil
  | case2 => cases h
  | case3 line depth c s kind r hlexeme _ ih =>
    cases hr : scan (Kind.lineAfter line kind) (Kind.depthAfter depth kind) r with
    | error e =>
      rw [hr] at h
      cases h
    | ok more =>
      rw [hr] at h
      cases h
      have hmore : Lexed more := ih hr
      exact List.forall_mem_append.mpr ⟨lexed_ofLexeme (lexed_of_lexeme hlexeme), hmore⟩

/-- **The tokens of a text are tokens that the lexer makes.** -/
theorem lexed_of_tokenize {source : String} {ts : List Token} (h : tokenize source = .ok ts) :
    Lexed ts := lexed_of_scan h

end Datamodel.Token
