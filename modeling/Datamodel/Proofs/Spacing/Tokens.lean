import Datamodel.Proofs.Except
import Datamodel.Proofs.Token.Lexemes

/-! Lists of tokens that are alike.

Tokens are alike if they are of the same kinds, whatever lines they stand on and however many line
breaks stand in a row (`Token.Alike`). A line without tokens, put in behind a line break, changes
the tokens of a text no further (`Token.alike_of_isSpacing`). -/

namespace Datamodel.Token

open Text (allBlank)

/-! ### Alike -/

/-- The kinds with one line break for several in a row, and with none at the start if `broken`. -/
def Kind.squeeze (broken : Bool) : List Kind → List Kind
  | [] => []
  | k :: ks =>
    if k = .newline then (if broken then squeeze true ks else .newline :: squeeze true ks)
    else k :: squeeze false ks

/-- Tokens of the same kinds, but for the number of line breaks in a row. -/
def Alike (ts us : List Token) : Prop :=
  Kind.squeeze false (ts.map (·.kind)) = Kind.squeeze false (us.map (·.kind))

/-- Tokens that are alike behind a line break, so that line breaks at their start do not count. -/
def AlikeBehind (ts us : List Token) : Prop :=
  Kind.squeeze true (ts.map (·.kind)) = Kind.squeeze true (us.map (·.kind))

section
variable {k : Kind} {ks ks' : List Kind} {n : Nat} {t : Token} {ts us : List Token}

theorem Kind.squeeze_cons (h : k ≠ .newline) (broken : Bool) :
    squeeze broken (k :: ks) = k :: squeeze false ks := by
  rw [squeeze, if_neg h]

/-- The line break that comes first is left out behind a line break. -/
theorem Kind.squeeze_true (ks : List Kind) : squeeze true ks =
    match squeeze false ks with
    | .newline :: more => more
    | more => more := by
  cases ks with
  | nil => rfl
  | cons k ks =>
    by_cases hk : k = .newline
    · subst hk
      rfl
    · rw [squeeze_cons hk, squeeze_cons hk]
      split
      · next heq => exact absurd (List.cons.inj heq).1 hk
      · rfl

namespace Alike

theorem symm (h : Alike ts us) : Alike us ts := Eq.symm h

/-- What is alike is alike behind a line break. -/
theorem behind (h : Alike ts us) : AlikeBehind ts us := by
  rw [AlikeBehind, Kind.squeeze_true, Kind.squeeze_true, h]

theorem eq_nil (h : Alike [] us) : us = [] := by
  cases us with
  | nil => rfl
  | cons u us =>
    rw [Alike, List.map_cons, List.map_nil, Kind.squeeze, Kind.squeeze] at h
    split at h <;> cases h

theorem exists_cons (h : Alike (⟨k, n⟩ :: ts) us) (hk : k ≠ .newline) :
    ∃ m us', us = ⟨k, m⟩ :: us' ∧ Alike ts us' := by
  cases us with
  | nil => cases h.symm.eq_nil
  | cons u us =>
    obtain ⟨k', m⟩ := u
    rw [Alike, List.map_cons, List.map_cons, Kind.squeeze_cons hk] at h
    by_cases hk' : k' = .newline
    · subst hk'
      exact absurd (List.cons.inj h).1 hk
    · rw [Kind.squeeze_cons hk'] at h
      obtain ⟨rfl, hmore⟩ := List.cons.inj h
      exact ⟨m, us, rfl, hmore⟩

theorem exists_newline (h : Alike (⟨.newline, n⟩ :: ts) us) :
    ∃ m us', us = ⟨.newline, m⟩ :: us' ∧ AlikeBehind ts us' := by
  cases us with
  | nil => cases h.symm.eq_nil
  | cons u us =>
    obtain ⟨k, m⟩ := u
    by_cases hk : k = .newline
    · subst hk
      exact ⟨m, us, rfl, (List.cons.inj h).2⟩
    · obtain ⟨_, _, heq, -⟩ := h.symm.exists_cons hk
      exact absurd (Token.mk.inj (List.cons.inj heq).1).1.symm hk

end Alike

/-- A relation between lists of tokens that start with the same kind of token, unless it is a line
break, and are so related behind it. -/
structure Parallel (A : List Token → List Token → Prop) : Prop where
  symm {ts us : List Token} : A ts us → A us ts
  exists_cons {k : Kind} {n : Nat} {ts us : List Token} : A (⟨k, n⟩ :: ts) us → k ≠ .newline →
    ∃ m us', us = ⟨k, m⟩ :: us' ∧ A ts us'

/-- Related tokens go on alike for as long as there is no line break. -/
theorem Parallel.exists_append {A : List Token → List Token → Prop} (hA : Parallel A)
    {used rest : List Token} (h : A (used ++ rest) us) (hused : ∀ t ∈ used, t.kind ≠ .newline) :
    ∃ vs rest', us = vs ++ rest' ∧ vs.map (·.kind) = used.map (·.kind) ∧ A rest rest' := by
  induction used generalizing us with
  | nil => exact ⟨[], us, rfl, rfl, h⟩
  | cons t used ih =>
    obtain ⟨ht, hused⟩ := List.forall_mem_cons.mp hused
    obtain ⟨m, us, rfl, hmore⟩ := hA.exists_cons h ht
    obtain ⟨vs, rest', rfl, hvs, hrest⟩ := ih hmore hused
    exact ⟨⟨t.kind, m⟩ :: vs, rest', rfl, congrArg (t.kind :: ·) hvs, hrest⟩

theorem Parallel.head?_ne {A : List Token → List Token → Prop} (hA : Parallel A) (h : A ts us)
    (hk : k ≠ .newline) (hts : ∀ n rest, ts = ⟨k, n⟩ :: rest → False) :
    ∀ u ∈ us.head?, u.kind ≠ k := by
  rintro ⟨_, n⟩ hu rfl
  obtain ⟨rest, rfl⟩ := List.head?_eq_some_iff.mp hu
  obtain ⟨m, ts', rfl, -⟩ := hA.exists_cons (hA.symm h) hk
  exact hts m ts' rfl

theorem Alike.parallel : Parallel Alike := ⟨Alike.symm, Alike.exists_cons⟩

namespace AlikeBehind

/-- The line breaks at the start are passed over. -/
theorem exists_breaks (us : List Token) : ∃ breaks us', us = breaks ++ us' ∧
    (∀ t ∈ breaks, t.kind = .newline) ∧
      Kind.squeeze true (us.map (·.kind)) = Kind.squeeze false (us'.map (·.kind)) := by
  induction us with
  | nil => exact ⟨[], [], rfl, nofun, rfl⟩
  | cons u us ih =>
    by_cases hu : u.kind = .newline
    · obtain ⟨breaks, us', rfl, hbreaks, heq⟩ := ih
      refine ⟨u :: breaks, us', rfl, List.forall_mem_cons.mpr ⟨hu, hbreaks⟩, ?_⟩
      rw [List.map_cons, hu]
      exact heq
    · refine ⟨[], u :: us, rfl, nofun, ?_⟩
      rw [List.map_cons, Kind.squeeze_cons hu, Kind.squeeze_cons hu]

theorem exists_append (h : AlikeBehind ts us) (hts : ∀ t ∈ ts.head?, t.kind ≠ .newline) :
    ∃ breaks us', us = breaks ++ us' ∧ (∀ t ∈ breaks, t.kind = .newline) ∧ Alike ts us' := by
  obtain ⟨breaks, us', rfl, hbreaks, heq⟩ := exists_breaks us
  refine ⟨breaks, us', rfl, hbreaks, ?_⟩
  rw [AlikeBehind, heq] at h
  rw [Alike, ← h]
  cases ts with
  | nil => rfl
  | cons t ts => rw [List.map_cons, Kind.squeeze_cons (hts t rfl), Kind.squeeze_cons (hts t rfl)]

end AlikeBehind

theorem Kind.squeeze_append {more more' : List Kind}
    (h : ∀ broken, squeeze broken more = squeeze broken more') (broken : Bool) :
    squeeze broken (ks ++ more) = squeeze broken (ks ++ more') := by
  induction ks generalizing broken with
  | nil => exact h broken
  | cons k ks ih => rw [List.cons_append, List.cons_append, squeeze, squeeze, ih, ih]

/-- A second line break behind a line break changes nothing. -/
theorem alike_newline {before after after' : List Token} {n n' m : Nat}
    (h : after.map (·.kind) = after'.map (·.kind)) :
    Alike (before ++ ⟨.newline, n⟩ :: after)
      (before ++ ⟨.newline, n'⟩ :: ⟨.newline, m⟩ :: after') := by
  rw [Alike, List.map_append, List.map_append, List.map_cons, List.map_cons, List.map_cons, h]
  refine Kind.squeeze_append (fun broken => ?_) false
  cases broken <;> rfl

theorem alike_of_kinds (h : ts.map (·.kind) = us.map (·.kind)) : Alike ts us := by
  rw [Alike, h]

end

/-! ### Texts -/

/-- A line without tokens: it is blank, or nothing but a comment that is no documentation stands
behind its blanks. -/
def IsSpacing (line : List Char) : Prop :=
  '\n' ∉ line ∧ (allBlank line = true ∨ ∃ blanks text,
    line = blanks ++ '/' :: '/' :: text ∧ allBlank blanks = true ∧ text.head? ≠ some '/')

section
variable {line line' depth : Nat} {s x : List Char} {ts : List Token}

theorem scan_blanks {b : List Char} (hb : allBlank b = true) (hn : '\n' ∉ b) (s : List Char) :
    scan line depth (b ++ s) = scan line depth s := by
  induction b with
  | nil => rfl
  | cons c b ih =>
    simp only [allBlank, List.all_cons, Bool.and_eq_true] at hb
    rw [List.mem_cons, not_or] at hn
    rw [List.cons_append, scan_cons (lexeme_blank hb.1 (Ne.symm hn.1))]
    show Except.map _ (scan line depth (b ++ s)) = _
    rw [ih hb.2 hn.2]
    cases scan line depth s <;> rfl

/-- A line without tokens is passed over up to its end. -/
theorem IsSpacing.scan {spacing : List Char} (h : IsSpacing spacing)
    (hx : ∀ c ∈ x.head?, c = '\n') : scan line depth (spacing ++ x) = Token.scan line depth x := by
  obtain ⟨hn, hblank | ⟨blanks, text, rfl, hblanks, htext⟩⟩ := h
  · exact scan_blanks hblank hn x
  · simp only [List.mem_append, List.mem_cons, not_or] at hn
    rw [List.append_assoc, scan_blanks hblanks hn.1, List.cons_append, List.cons_append,
      scan_cons (lexeme_comment hn.2.2.2 hx), Kind.ofComment_eq_none_iff.mpr htext]
    show Except.map _ (Token.scan line depth x) = _
    cases Token.scan line depth x <;> rfl

/-- What stands behind a text that is read on its own is read behind its tokens, if every lexeme
of the text is still written in front of it. -/
theorem exists_scan_append_of_written (h : scan line depth s = .ok ts) : ∃ line' depth', ∀ x,
    (∀ w kind r, w ++ r <:+ s → Written w kind r → Written w kind (r ++ x)) →
      scan line depth (s ++ x) = (scan line' depth' x).map (ts ++ ·) := by
  fun_induction scan line depth s generalizing ts with
  | case1 line depth =>
    cases h
    refine ⟨line, depth, fun x _ => ?_⟩
    rw [List.nil_append]
    cases scan line depth x <;> rfl
  | case2 => cases h
  | case3 line depth c s kind r hlexeme _ ih =>
    obtain ⟨more, hmore, rfl⟩ := exists_of_map h
    obtain ⟨line', depth', ih⟩ := ih hmore
    refine ⟨line', depth', fun x hx => ?_⟩
    obtain ⟨t, rfl, hwritten⟩ := written_of_lexeme hlexeme
    obtain ⟨c', t', heq, hlexeme'⟩ := (hx _ kind r List.suffix_rfl hwritten).lexeme
    cases heq
    have hsuffix : r <:+ c :: (t ++ r) := List.suffix_append (c :: t) r
    rw [List.cons_append, List.append_assoc, scan_cons (hlexeme' line),
      ih x fun w k r' hr' => hx w k r' (hr'.trans hsuffix)]
    cases scan line' depth' x <;> simp [Except.map]

theorem exists_scan_append (h : scan line depth s = .ok ts) : ∃ line' depth', ∀ x,
    (∀ c ∈ x.head?, c = '\n') →
      scan line depth (s ++ x) = (scan line' depth' x).map (ts ++ ·) := by
  obtain ⟨line', depth', hscan⟩ := exists_scan_append_of_written h
  exact ⟨line', depth', fun x hx => hscan x fun _ _ _ _ hwritten => hwritten.append hx⟩

/-- The tokens of a text are of the same kinds on whatever line it starts. -/
theorem exists_scan_line (h : scan line depth s = .ok ts) (line' : Nat) :
    ∃ us, scan line' depth s = .ok us ∧ ts.map (·.kind) = us.map (·.kind) := by
  fun_induction scan line depth s generalizing ts line' with
  | case1 =>
    cases h
    exact ⟨[], by rw [scan], rfl⟩
  | case2 => cases h
  | case3 line depth c s kind r hlexeme _ ih =>
    obtain ⟨more, hmore, rfl⟩ := exists_of_map h
    obtain ⟨us, hus, hkinds⟩ := ih hmore (Kind.lineAfter line' kind)
    obtain ⟨t, rfl, hwritten⟩ := written_of_lexeme hlexeme
    obtain ⟨c', t', heq, hlexeme'⟩ := hwritten.lexeme
    cases heq
    refine ⟨ofLexeme line' depth kind ++ us, ?_, ?_⟩
    · rw [scan_cons (hlexeme' line'), hus]
      rfl
    · rw [List.map_append, List.map_append, hkinds]
      congr 1
      unfold ofLexeme
      split
      · rfl
      · split <;> rfl
      · rfl

/-- **A line without tokens** that is put in behind a line break of a text leaves its tokens alike,
if the text in front of it is read on its own. -/
theorem alike_of_isSpacing {a b spacing : List Char} (ha : scan line depth a = .ok ts)
    (hspacing : IsSpacing spacing) :
    (∃ ts us, scan line depth (a ++ '\n' :: b) = .ok ts ∧
      scan line depth (a ++ '\n' :: (spacing ++ '\n' :: b)) = .ok us ∧ Alike ts us) ∨
    ∃ e e', scan line depth (a ++ '\n' :: b) = .error e ∧
      scan line depth (a ++ '\n' :: (spacing ++ '\n' :: b)) = .error e' := by
  obtain ⟨line', depth', hscan⟩ := exists_scan_append ha
  rw [hscan _ (by simp), hscan _ (by simp), scan_lineBreak, scan_lineBreak,
    hspacing.scan (by simp), scan_lineBreak]
  cases hb : scan (line' + 1) depth' b with
  | ok after =>
    obtain ⟨after', hafter, hkinds⟩ := exists_scan_line hb (line' + 1 + 1)
    refine .inl ⟨_, _, rfl, by rw [hafter]; rfl, ?_⟩
    by_cases hdepth : depth' = 0
    · rw [if_pos hdepth, if_pos hdepth]
      exact alike_newline hkinds
    · rw [if_neg hdepth, if_neg hdepth]
      exact alike_of_kinds (by simp [hkinds])
  | error e =>
    cases hb' : scan (line' + 1 + 1) depth' b with
    | ok after' =>
      obtain ⟨after, hafter, -⟩ := exists_scan_line hb' (line' + 1)
      rw [hb] at hafter
      cases hafter
    | error e' => exact .inr ⟨e, e', rfl, rfl⟩

end

end Datamodel.Token
