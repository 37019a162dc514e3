import Datamodel.Proofs.Text.Quoted
import Datamodel.Proofs.Text.Search
import Datamodel.Proofs.Token.Lexing
import Datamodel.Schema.Printer

/-! Texts without certain characters, and without certain words.

A plain text holds nothing that a literal would escape and no sign that the storage notes look for,
so its literal is the text itself between quotes (`escaped_of_plain`). A literal holds no word
that its text does not hold (`clear_quote`). -/

namespace Datamodel.Text

open Quoted (escape escapeChar quote toList_quote escapeChar_of_ne)
open Token (IsName isNameChar)

/-- None of the characters `cs` stands in `s`. -/
def Avoids (cs s : List Char) : Prop := ∀ c ∈ s, c ∉ cs

instance (cs s : List Char) : Decidable (Avoids cs s) :=
  inferInstanceAs (Decidable (∀ c ∈ s, c ∉ cs))

section
variable {cs cs' s t : List Char} {c : Char}

@[simp] theorem avoids_nil : Avoids cs [] := nofun

@[simp] theorem avoids_cons : Avoids cs (c :: s) ↔ c ∉ cs ∧ Avoids cs s := List.forall_mem_cons

@[simp] theorem avoids_append : Avoids cs (s ++ t) ↔ Avoids cs s ∧ Avoids cs t :=
  List.forall_mem_append

theorem Avoids.mono (h : Avoids cs s) (hcs : cs' ⊆ cs) : Avoids cs' s :=
  fun c hc hmem => h c hc (hcs hmem)

theorem Avoids.not_mem (h : Avoids cs s) (hc : c ∈ cs) : c ∉ s := fun hmem => h c hmem hc

theorem isNameChar_of_isName {n : String} (h : IsName n) : ∀ c ∈ n.toList, isNameChar c = true := by
  obtain ⟨c, s, hn, hc, hs⟩ := h
  rw [hn, List.forall_mem_cons]
  exact ⟨Token.isNameChar_of_isNameStart hc, by simpa using hs⟩

theorem avoids_of_isName {n : String} (h : IsName n)
    (hcs : ∀ c ∈ cs, isNameChar c = false) : Avoids cs n.toList := by
  intro c hc hmem
  have := hcs c hmem
  rw [isNameChar_of_isName h c hc] at this
  cases this

theorem avoids_intercalate {items : List String} {sep : String} (hsep : Avoids cs sep.toList)
    (h : ∀ item ∈ items, Avoids cs item.toList) : Avoids cs (sep.intercalate items).toList := by
  induction items with
  | nil => exact avoids_nil
  | cons item items ih =>
    have hitem := h item List.mem_cons_self
    have ih := ih fun i hi => h i (List.mem_cons_of_mem _ hi)
    cases items with
    | nil => simpa using hitem
    | cons item' items =>
      rw [String.intercalate_cons_cons, String.toList_append, String.toList_append]
      exact avoids_append.mpr ⟨avoids_append.mpr ⟨hitem, hsep⟩, ih⟩

/-! ### Literals -/

/-- No literal spans lines. -/
theorem not_mem_toList_quote (s : String) : '\n' ∉ (quote s).toList := by
  have hchar (c : Char) : '\n' ∉ escapeChar c := by
    unfold escapeChar
    split <;> simp_all [eq_comm]
  simp [toList_quote, escape, hchar]

/-! ### Words in literals -/

theorem escapeChar_cases (c : Char) : escapeChar c = [c] ∧ c ∉ ['"', '\\', '\n', '\r', '\t'] ∨
    ∃ d ∈ ['"', '\\', 'n', 'r', 't'], escapeChar c = ['\\', d] := by
  unfold escapeChar
  split
  · exact .inr ⟨_, by decide, rfl⟩
  · exact .inr ⟨_, by decide, rfl⟩
  · exact .inr ⟨_, by decide, rfl⟩
  · exact .inr ⟨_, by decide, rfl⟩
  · exact .inr ⟨_, by decide, rfl⟩
  · refine .inl ⟨rfl, ?_⟩
    simp_all

theorem escape_cons (c : Char) (s : List Char) : escape (c :: s) = escapeChar c ++ escape s :=
  List.flatMap_cons ..

/-- A word that no escape can be a part of. -/
def Unescaped (p : List Char) : Prop :=
  '"' ∉ p ∧ '\\' ∉ p ∧ ∀ c ∈ p.head?, c ∉ ['n', 'r', 't']

instance (p : List Char) : Decidable (Unescaped p) :=
  inferInstanceAs (Decidable ('"' ∉ p ∧ '\\' ∉ p ∧ ∀ c ∈ p.head?, c ∉ ['n', 'r', 't']))

theorem prefix_of_prefix_escape {p s : List Char} (hp : '\\' ∉ p) (h : p <+: escape s) :
    p <+: s := by
  induction s generalizing p with
  | nil => exact h
  | cons c s ih =>
    rw [escape_cons] at h
    cases p with
    | nil => exact List.nil_prefix
    | cons d p =>
      rcases escapeChar_cases c with ⟨hc, -⟩ | ⟨x, -, hc⟩
      · rw [hc, List.singleton_append, List.cons_prefix_cons] at h
        obtain ⟨rfl, h⟩ := h
        have hp' : '\\' ∉ p := fun hmem => hp (List.mem_cons_of_mem _ hmem)
        exact List.cons_prefix_cons.mpr ⟨rfl, ih hp' h⟩
      · rw [hc, List.cons_append, List.cons_prefix_cons] at h
        exact absurd (h.1 ▸ List.mem_cons_self) hp

theorem infix_of_infix_escape {p s : List Char} (hp : Unescaped p) (h : p <:+: escape s) :
    p <:+: s := by
  obtain ⟨hquote, hslash, hhead⟩ := hp
  induction s with
  | nil => exact h
  | cons c s ih =>
    rw [escape_cons] at h
    rcases escapeChar_cases c with ⟨hc, -⟩ | ⟨x, hx, hc⟩
    · rw [hc, List.singleton_append, List.infix_cons_iff] at h
      rcases h with h | h
      · have hwhole : p <+: escape (c :: s) := by rwa [escape_cons, hc]
        exact (prefix_of_prefix_escape hslash hwhole).isInfix
      · exact (ih h).trans (List.suffix_cons c s).isInfix
    · rw [hc] at h
      have h : p <:+: x :: escape s := infix_of_infix_cons hslash h
      rcases List.infix_cons_iff.mp h with h | h
      · cases p with
        | nil => exact List.nil_infix
        | cons d p =>
          obtain ⟨rfl, -⟩ := List.cons_prefix_cons.mp h
          have hd := hhead d rfl
          simp only [List.mem_cons, List.not_mem_nil, or_false, not_or] at hx hd hquote hslash
          tauto
      · exact (ih h).trans (List.suffix_cons c s).isInfix

/-- A text as it stands between the quotes of its literal. -/
def escaped (s : String) : String := String.ofList (escape s.toList)

theorem toList_quote_eq (s : String) :
    (quote s).toList = '"' :: ((escaped s).toList ++ ['"']) := by
  rw [toList_quote, escaped, String.toList_ofList, List.cons_append]

theorem not_mem_escaped {s : String} (h : '"' ∉ s.toList) : '"' ∉ (escaped s).toList := by
  rw [escaped, String.toList_ofList, escape, List.mem_flatMap]
  rintro ⟨c, hc, hquote⟩
  unfold escapeChar at hquote
  split at hquote
  · exact h hc
  all_goals simp_all [eq_comm]

/-- **A literal holds no word** that its text does not hold. -/
theorem not_infix_quote {p : List Char} {s : String} (hp : Unescaped p) (h : ¬p <:+: s.toList) :
    ¬p <:+: (quote s).toList := by
  intro hinfix
  rw [toList_quote, List.cons_append] at hinfix
  have hquoted : p <:+: escape s.toList ++ ['"'] := infix_of_infix_cons hp.1 hinfix
  exact h (infix_of_infix_escape hp (infix_of_infix_concat hp.1 hquoted))

theorem clear_quote {p : List Char} {s : String} (hp : Unescaped p) (h : ¬p <:+: s.toList) :
    Clear p (quote s).toList := by
  have hinfix : ¬p <:+: (quote s).toList := not_infix_quote hp h
  rw [toList_quote] at hinfix ⊢
  exact clear_concat hinfix hp.1

end

/-- A text without characters that a literal escapes, at signs, and colons. It may well hold
letters, digits, spaces, underscores and hyphens. -/
def IsPlain (s : String) : Prop := Avoids ['"', '\\', '\n', '\r', '\t', '@', ':'] s.toList

instance (s : String) : Decidable (IsPlain s) := inferInstanceAs (Decidable (Avoids _ _))

theorem escape_of_avoids {s : List Char} (h : Avoids ['"', '\\', '\n', '\r', '\t'] s) :
    escape s = s := by
  induction s with
  | nil => rfl
  | cons c s ih =>
    obtain ⟨hc, hs⟩ := avoids_cons.mp h
    simp only [List.mem_cons, List.not_mem_nil, or_false, not_or] at hc
    obtain ⟨h₁, h₂, h₃, h₄, h₅⟩ := hc
    rw [escape, List.flatMap_cons, escapeChar_of_ne h₁ h₂ h₃ h₄ h₅, ← escape, ih hs,
      List.singleton_append]

theorem escaped_of_plain {s : String} (h : IsPlain s) : escaped s = s := by
  rw [escaped, escape_of_avoids (h.mono (by decide)), String.ofList_toList]

theorem length_le_escape (s : List Char) : s.length ≤ (escape s).length := by
  induction s with
  | nil => exact Nat.le_refl _
  | cons c s ih =>
    rw [escape_cons, List.length_append, List.length_cons]
    rcases escapeChar_cases c with ⟨hc, -⟩ | ⟨d, -, hc⟩ <;> simp [hc] <;> omega

theorem avoids_of_escape {s : List Char} (h : escape s = s) :
    Avoids ['"', '\\', '\n', '\r', '\t'] s := by
  induction s with
  | nil => exact avoids_nil
  | cons c s ih =>
    rw [escape_cons] at h
    rcases escapeChar_cases c with ⟨hc, hoff⟩ | ⟨d, -, hc⟩
    · rw [hc, List.singleton_append, List.cons.injEq] at h
      exact avoids_cons.mpr ⟨hoff, ih h.2⟩
    · have hlength := congrArg List.length h
      have hle : s.length ≤ (escape s).length := length_le_escape s
      simp [hc] at hlength
      omega

/-- A text stands in its literal as it is, if it holds nothing that a literal escapes. -/
theorem escaped_eq_self_iff {s : String} :
    escaped s = s ↔ Avoids ['"', '\\', '\n', '\r', '\t'] s.toList := by
  rw [escaped, ← String.toList_inj, String.toList_ofList]
  exact ⟨avoids_of_escape, escape_of_avoids⟩

theorem escaped_injective {s t : String} (h : escaped s = escaped t) : s = t := by
  have hescape : escape s.toList = escape t.toList := by
    rw [escaped, escaped, ← String.toList_inj, String.toList_ofList, String.toList_ofList] at h
    exact h
  have hread := Quoted.read_escape s.toList []
  rw [hescape, Quoted.read_escape, Except.ok.injEq, Prod.mk.injEq] at hread
  exact String.toList_inj.mp hread.1.symm

theorem isPlain_of_isName {n : String} (h : IsName n) : IsPlain n :=
  avoids_of_isName h (by decide)

theorem isPlain_of_isNumber {n : String} (h : Token.IsNumber n) : IsPlain n := by
  obtain ⟨c, s, hn, hc, hs⟩ := h
  have hoff : ∀ d ∈ ['"', '\\', '\n', '\r', '\t', '@', ':'], isNameChar d = false := by decide
  have hword (d : Char) (hd : isNameChar d = true) : d ∉ ['"', '\\', '\n', '\r', '\t', '@', ':'] :=
    fun hmem => by rw [hoff d hmem] at hd; cases hd
  rw [IsPlain, hn, avoids_cons]
  refine ⟨?_, fun d hd => hword d (Token.isNameChar_of_isNumberChar (List.all_eq_true.mp hs d hd))⟩
  simp only [Token.opensNumber, Bool.or_eq_true, Bool.and_eq_true, beq_iff_eq] at hc
  rcases hc with hc | ⟨rfl, -⟩
  · exact hword c (Token.isNameChar_of_isNumberChar (by simp [Token.isNumberChar, Char.isAlphanum, hc]))
  · decide

theorem isPlain_commaList {items : List String} (h : ∀ i ∈ items, IsPlain i) :
    IsPlain (Printer.commaList items) := avoids_intercalate (by decide) h

end Datamodel.Text
