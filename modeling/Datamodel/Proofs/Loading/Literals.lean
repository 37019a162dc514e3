import Datamodel.Proofs.Expr.Attributes
import Datamodel.Proofs.Loading.Expressions
import Datamodel.Proofs.Loading.Taken
import Datamodel.Proofs.Token.Lines
import Datamodel.Proofs.Token.Literals

/-! Literals that are read where a text stands bare.

A text that is printed without quotes may be read as something else, a string among others. But no
text is a literal that stands for the text itself, neither as the argument of an attribute
(`PrintedAttribute.ne_text`) nor as an argument of a call (`PrintedAttribute.exists_call`). -/

namespace Datamodel

open Printer (commaList)
open Text (isBlank)
open Token (Answers Kind Lexed Reading onLine scan)

/-! ### Arguments that are read -/

theorem Token.scan_comma (line depth : Nat) (s : List Char) :
    scan line depth (',' :: ' ' :: s) = (scan line depth s).map (⟨.comma, line⟩ :: ·) := by
  rw [scan_cons (lexeme_ofChar (show Kind.ofChar? ',' = some .comma from rfl)),
    scan_cons (lexeme_blank (show isBlank ' ' = true by decide) (by decide))]
  show Except.map _ (Except.map _ (scan line depth s)) = _
  cases scan line depth s <;> rfl

theorem Token.scan_name_openParen {name : String} (h : IsName name) (line depth : Nat)
    (s : List Char) :
    scan line depth (name.toList ++ '(' :: s) =
      (scan line (depth + 1) s).map (⟨.name name, line⟩ :: ⟨.openParen, line⟩ :: ·) := by
  have hname : Lexes name.toList [.name name] := by simpa using Lexes.name h .nil .nil
  rw [hname line depth _ (Stops.cons (by decide)),
    scan_cons (lexeme_ofChar (show Kind.ofChar? '(' = some .openParen from rfl))]
  show Except.map _ (Except.map _ (scan line (depth + 1) s)) = _
  cases scan line (depth + 1) s <;> rfl

section
variable {last : Nat} {ts : List Token}

/-- A literal that is read is the first token. -/
theorem Expr.eq_cons_of_read_text {r : Reading Expr ts} {v : String}
    (h : Expr.read last ts = .ok r) (hv : r.value = .text v) :
    ∃ n, ts = ⟨.text v, n⟩ :: r.rest := by
  obtain ⟨used, hts, hspelled, -⟩ := Expr.spelled_of_read h
  rw [hv] at hspelled
  generalize hks : used.map (·.kind) = ks at hspelled
  cases hspelled
  obtain ⟨n, us, rfl, hus⟩ := Token.map_kind_eq_cons.mp hks
  obtain rfl := List.map_eq_nil_iff.mp hus
  exact ⟨n, hts⟩

/-- A call is read from the arguments behind its name. -/
theorem Expr.exists_call_of_read {function : String} {n m : Nat}
    {r : Reading Expr (⟨.name function, n⟩ :: ⟨.openParen, m⟩ :: ts)}
    (h : Expr.read last (⟨.name function, n⟩ :: ⟨.openParen, m⟩ :: ts) = .ok r) :
    ∃ args, Argument.readAll last ts = .ok args ∧ r.value = .call function args.value := by
  rw [Expr.read] at h
  split at h
  · cases h
  · next args hargs =>
    cases h
    exact ⟨args, hargs, rfl⟩

/-- A literal among arguments is one of their tokens. -/
theorem Argument.mem_of_readAll {r : Reading (List Argument) ts} {a : Argument} {v : String}
    (h : Argument.readAll last ts = .ok r) (ha : a ∈ r.value) (hv : a.value = .text v) :
    ∃ n, ⟨.text v, n⟩ ∈ ts := by
  obtain ⟨used, n, hts, hlisted⟩ := Argument.listed_of_readAll h
  obtain ⟨ks, hks, hsub⟩ := hlisted.exists_of_mem a ha
  obtain ⟨ks', hvalue, hsuffix⟩ := hks.exists_value
  have hmem : .text v ∈ ks' := by
    rw [hv] at hvalue
    cases hvalue
    exact List.mem_cons_self
  obtain ⟨t, ht, hkind⟩ := List.mem_map.mp (hsub (hsuffix.subset hmem))
  refine ⟨t.line, ?_⟩
  rw [hts, ← hkind]
  exact List.mem_append_left _ ht

theorem Argument.rest_label? (h : (Argument.label? ts).value = none) :
    (Argument.label? ts).rest = ts := by
  unfold Argument.label? at h ⊢
  split at h
  · cases h
  · rfl

theorem Argument.cases_bareText (a : Argument) :
    a.toText = a.bareText ∨ ∃ v, a = ⟨none, .text v⟩ := by
  unfold Argument.bareText
  split
  · next v => exact .inr ⟨v, rfl⟩
  · exact .inl rfl

/-- An argument that is read from its bare text is no literal. -/
theorem Argument.toText_of_read {value : Reading Expr (Argument.label? ts).rest} {line depth : Nat}
    {c : Char} {t : List Char} {a : Argument} (ha : a = ⟨(Argument.label? ts).value, value.value⟩)
    (hscan : scan line depth (a.bareText.toList ++ c :: t) = .ok ts) (hc : c = ',' ∨ c = ')')
    (hline : ∀ t ∈ ts, t.line = line)
    (h : Expr.read last (Argument.label? ts).rest = .ok value) : a.toText = a.bareText := by
  rcases a.cases_bareText with htext | ⟨v, rfl⟩
  · exact htext
  · obtain ⟨hlabel, hvalue⟩ := Argument.mk.inj ha
    obtain ⟨n, htokens⟩ := Expr.eq_cons_of_read_text h hvalue.symm
    replace htokens := (Argument.rest_label? hlabel.symm).symm.trans htokens
    obtain rfl : n = line := hline ⟨.text v, n⟩ (by rw [htokens]; exact List.mem_cons_self)
    exact absurd rfl (Token.ne_of_scan hc (hscan.trans (congrArg Except.ok htokens)))

/-- **Arguments that are read from their bare texts** are no literals. -/
theorem Argument.toText_of_readAll {as : List Argument} {r : Reading (List Argument) ts}
    {line depth : Nat} {s : List Char} (has : r.value = as)
    (hscan : scan line depth ((commaList (as.map bareText)).toList ++ ')' :: s) = .ok ts)
    (hline : ∀ t ∈ ts, t.line = line) (h : Argument.readAll last ts = .ok r) :
    ∀ a ∈ as, a.toText = a.bareText := by
  induction as generalizing ts depth with
  | nil => nofun
  | cons a as ih =>
    rcases Argument.cases_readAll h with ⟨n, -, hnil⟩ | ⟨value, n, hread, hcases⟩
    · cases has.symm.trans hnil
    have ha : a = ⟨(Argument.label? ts).value, value.value⟩ := by
      rcases hcases with ⟨-, hvalue⟩ | ⟨rest, more, -, -, -, hvalue⟩ <;>
        exact (List.cons.inj (has.symm.trans hvalue)).1
    cases as with
    | nil =>
      rw [List.map_singleton, commaList, String.intercalate_singleton] at hscan
      exact List.forall_mem_singleton.mpr (Argument.toText_of_read ha hscan (.inr rfl) hline hread)
    | cons a' as =>
      have htext : (commaList ((a :: a' :: as).map bareText)).toList ++ ')' :: s =
          a.bareText.toList ++ ',' :: ' ' ::
            ((commaList ((a' :: as).map bareText)).toList ++ ')' :: s) := by
        simp [commaList, String.intercalate_cons_cons]
      rw [htext] at hscan
      have hfirst := Argument.toText_of_read ha hscan (.inl rfl) hline hread
      have hlexical : a.Lexical :=
        (Argument.lexical_of_readAll (Token.lexed_of_scan hscan) h).1 a (by simp [has])
      rw [← hfirst, Argument.lexes hlexical.label (Expr.lexes hlexical.value) line depth _
        (Token.Stops.cons (by decide)), Token.scan_comma] at hscan
      obtain ⟨_, hbehind, rfl⟩ := exists_of_map hscan
      obtain ⟨us, hmore, rfl⟩ := exists_of_map hbehind
      obtain ⟨vs, -, hrest, hvs⟩ := Argument.label?_of_spelled a.spelled_kinds
        (Token.map_kind_onLine line a.kinds) (show ∀ t ∈ (⟨.comma, line⟩ :: us).head?, _ by simp)
      have hanswers : Answers (Expr.read last (vs ++ ⟨.comma, line⟩ :: us)) a.value _ :=
        Expr.read_spelled hvs rfl fun _ _ => .cons (by simp)
      rw [← hrest] at hanswers
      obtain ⟨hlt, hanswers⟩ := hanswers
      have hleft : value.rest = ⟨.comma, line⟩ :: us :=
        congrArg (·.rest) (Except.ok.inj (hread.symm.trans hanswers))
      rcases hcases with ⟨hclose, -⟩ | ⟨rest, more, hcomma, hargs, -, hvalue⟩
      · cases hleft.symm.trans hclose
      · obtain rfl : rest = us := (List.cons.inj (hcomma.symm.trans hleft)).2
        have hmore' := ih (List.cons.inj (has.symm.trans hvalue)).2.symm hmore
          (fun t ht => hline t (by simp [ht])) hargs
        exact List.forall_mem_cons.mpr ⟨hfirst, hmore'⟩

end

/-! ### Attributes with a bare text -/

/-- The text of an argument other than a string. -/
def IsBareArgument (text : String) : Prop :=
  ∃ a : Argument, a.Lexical ∧ a.toText = text ∧ a.bareText = text

namespace PrintedAttribute

/-- The name and the arguments of an attribute are read off its text. -/
theorem exists_readAll (a : PrintedAttribute .marker) {n : String} (hn : Token.IsName n)
    {s : List Char} (htext : a.text.toList = '@' :: (n.toList ++ '(' :: s)) :
    a.name = n ∧ ∃ ts r, scan 1 1 s = .ok ts ∧ (∀ t ∈ ts, t.line = 1) ∧
      Argument.readAll 1 ts = .ok r ∧ r.value = a.args := by
  have hread := a.reads 1 1 [] nofun
  have hscan := a.lexes 1 0 [] Token.Stops.nil
  rw [List.append_nil, htext,
    Token.scan_cons (Token.lexeme_marker (Token.Lexes.head?_name_append hn _)), scan] at hscan
  obtain ⟨_, hbehind, heq⟩ := exists_of_map hscan
  obtain ⟨ts, hts, rfl⟩ :=
    exists_of_map ((Token.scan_name_openParen hn 1 0 s).symm.trans hbehind)
  have htokens : onLine 1 a.kinds = ⟨.name n, 1⟩ :: ⟨.openParen, 1⟩ :: ts :=
    (List.cons.inj ((List.append_nil _).symm.trans heq.symm)).2
  have hline : ∀ t ∈ ts, t.line = 1 := by
    intro t ht
    have hmem : t ∈ onLine 1 a.kinds := by simp [htokens, ht]
    exact Token.line_of_mem_onLine hmem
  rw [List.append_nil, htokens] at hread
  obtain ⟨hlt, hread⟩ := hread
  rw [Attribute.read] at hread
  split at hread
  · cases hread
  · next r hr =>
    have hname : n = a.name := congrArg (·.value.name) (Except.ok.inj hread)
    have hargs : r.value = a.args := congrArg (·.value.args) (Except.ok.inj hread)
    exact ⟨hname.symm, ts, r, hts, hline, hr, hargs⟩

theorem name_eq (a : PrintedAttribute .marker) {n v : String} (hn : Token.IsName n)
    (htext : a.text = "@" ++ n ++ "(" ++ v ++ ")") : a.name = n := by
  have hlist : a.text.toList = '@' :: (n.toList ++ '(' :: (v.toList ++ [')'])) := by simp [htext]
  exact (a.exists_readAll hn hlist).1

/-- A bare text as the one argument is never read as a string that stands for it. -/
theorem ne_text (a : PrintedAttribute .marker) {n v : String} (hn : Token.IsName n)
    (htext : a.text = "@" ++ n ++ "(" ++ v ++ ")") : ∀ arg ∈ a.args, arg.value ≠ .text v := by
  intro arg harg hvalue
  have hlist : a.text.toList = '@' :: (n.toList ++ '(' :: (v.toList ++ [')'])) := by simp [htext]
  obtain ⟨-, ts, r, hts, -, hr, hargs⟩ := a.exists_readAll hn hlist
  obtain ⟨m, hmem⟩ := Argument.mem_of_readAll hr (hargs ▸ harg) hvalue
  have hlength := Token.length_add_two_le_of_mem_scan hts hmem
  simp only [List.length_append, List.length_singleton] at hlength
  omega

/-- A call as the one argument is read as a call of the same function. If bare texts as its
arguments are read as what they are, none of them is read as a string. -/
theorem exists_call (a : PrintedAttribute .marker) {n function : String} {args : List String}
    (hn : Token.IsName n) (hfunction : Token.IsName function)
    (htext : a.text = "@" ++ n ++ "(" ++ (function ++ "(" ++ commaList args ++ ")") ++ ")") :
    ∃ as rest, a.args = ⟨none, .call function as⟩ :: rest ∧
      (as.map Argument.bareText = args → ∀ arg ∈ args, IsBareArgument arg) := by
  have hlist : a.text.toList = '@' :: (n.toList ++ '(' ::
      (function.toList ++ '(' :: ((commaList args).toList ++ ')' :: [')']))) := by simp [htext]
  obtain ⟨-, ts, r, hts, hline, hr, hargs⟩ := a.exists_readAll hn hlist
  rw [Token.scan_name_openParen hfunction] at hts
  obtain ⟨us, hus, rfl⟩ := exists_of_map hts
  rcases Argument.cases_readAll hr with ⟨m, hclose, -⟩ | ⟨value, m, hvalue, hcases⟩
  · cases hclose
  obtain ⟨r', hr', hcall⟩ := Expr.exists_call_of_read hvalue
  have hus' : ∀ t ∈ us, t.line = 1 := fun t ht => hline t (by simp [ht])
  have hbare (h : r'.value.map Argument.bareText = args) : ∀ arg ∈ args, IsBareArgument arg := by
    subst h
    refine List.forall_mem_map.mpr fun x hx => ⟨x, ?_, ?_, rfl⟩
    · exact (Argument.lexical_of_readAll (Token.lexed_of_scan hus) hr').1 x hx
    · exact Argument.toText_of_readAll rfl hus hus' hr' x hx
  rw [← hargs]
  rcases hcases with ⟨-, hargs⟩ | ⟨_, more, -, -, -, hargs⟩ <;> rw [hargs, hcall]
  · exact ⟨r'.value, [], rfl, hbare⟩
  · exact ⟨r'.value, more.value, rfl, hbare⟩

end PrintedAttribute

end Datamodel
