import Datamodel.Proofs.Text.Quoted
import Datamodel.Token.Lexer
import Mathlib.Data.List.Forall2

/-! What texts the lexer takes for what tokens.

`Lexes s ks` says that `s` is read as tokens of the kinds `ks`, wherever it stands, as long as what
follows does not go on with its last word. Such texts are put together from the front: there is one
lemma for each kind of lexeme. A text without line feeds lies on one line, so its tokens do; whole
lines are `LexesLine`, and the tokens of lines are their `layout`. -/

namespace Datamodel.Token

open Text (isBlank)

/-! ### Characters of words -/

/-- An identifier as the lexer reads one. -/
def IsName (n : String) : Prop :=
  ∃ c s, n.toList = c :: s ∧ isNameStart c = true ∧ s.all isNameChar = true

/-- A number as the lexer reads one. -/
def IsNumber (n : String) : Prop :=
  ∃ c s, n.toList = c :: s ∧ opensNumber c s = true ∧ s.all isNumberChar = true

theorem isName_iff {n : String} :
    IsName n ↔ (n.toList.head?.any isNameStart && n.toList.tail.all isNameChar) = true := by
  rw [Bool.and_eq_true]
  constructor
  · rintro ⟨c, s, h, hc, hs⟩
    rw [h]
    exact ⟨hc, hs⟩
  · rintro ⟨hc, hs⟩
    cases h : n.toList with
    | nil => rw [h] at hc; cases hc
    | cons c s =>
      rw [h] at hc hs
      exact ⟨c, s, h, hc, hs⟩

instance (n : String) : Decidable (IsName n) := decidable_of_iff' _ isName_iff

section
variable {c : Char}

theorem isNameChar_of_isNumberChar (h : isNumberChar c = true) : isNameChar c = true := by
  simp only [isNumberChar, isNameChar, Bool.or_eq_true] at h ⊢
  rcases h with h | h
  · exact .inl (.inl h)
  · exact .inr h

theorem isNameChar_of_isNameStart (h : isNameStart c = true) : isNameChar c = true := by
  simp only [isNameStart, isNameChar, Char.isAlphanum, Bool.or_eq_true] at h ⊢
  rcases h with h | h
  · exact .inl (.inl (.inl h))
  · exact .inl (.inr h)

theorem isAlpha_iff : c.isAlpha = true ↔
    0x41 ≤ c.toNat ∧ c.toNat ≤ 0x5A ∨ 0x61 ≤ c.toNat ∧ c.toNat ≤ 0x7A := by
  show (decide (c.val ≥ 'A'.val ∧ c.val ≤ 'Z'.val) ||
    decide (c.val ≥ 'a'.val) && decide (c.val ≤ 'z'.val)) = true ↔ _
  simp only [Bool.or_eq_true, Bool.and_eq_true, decide_eq_true_eq, ge_iff_le,
    UInt32.le_iff_toNat_le, Char.toNat_val, Char.reduceToNat]

theorem isDigit_iff : c.isDigit = true ↔ 0x30 ≤ c.toNat ∧ c.toNat ≤ 0x39 := by
  show (decide (c.val ≥ '0'.val) && decide (c.val ≤ '9'.val)) = true ↔ _
  simp only [Bool.and_eq_true, decide_eq_true_eq, ge_iff_le, UInt32.le_iff_toNat_le,
    Char.toNat_val, Char.reduceToNat]

/-- The characters of words are visible ASCII characters behind the punctuation of a comment. -/
theorem toNat_of_isNameChar (h : isNameChar c = true) : 0x2D < c.toNat ∧ c.toNat < 0x7F := by
  simp only [isNameChar, Char.isAlphanum, Bool.or_eq_true, isAlpha_iff, isDigit_iff,
    beq_iff_eq] at h
  rcases h with (h | rfl) | rfl
  · omega
  · decide
  · decide

theorem isBlank_of_isNameChar (h : isNameChar c = true) : isBlank c = false := by
  have := toNat_of_isNameChar h
  simp only [isBlank, Bool.or_eq_false_iff, Bool.and_eq_false_iff, decide_eq_false_iff_not,
    beq_eq_false_iff_ne]
  omega

theorem isBlank_minus : isBlank '-' = false := by decide

theorem ofChar?_eq_none (h : isNameChar c = true) : Kind.ofChar? c = none := by
  unfold Kind.ofChar?
  split <;> first | rfl | exact absurd h (by decide)

theorem opensNumber_of_isNameStart {s : List Char} (h : isNameStart c = true) :
    opensNumber c s = false := by
  have hd : c.isDigit = false := by
    refine Bool.eq_false_iff.mpr fun hd => ?_
    simp only [isNameStart, Bool.or_eq_true, isAlpha_iff, beq_iff_eq] at h
    rw [isDigit_iff] at hd
    rcases h with h | rfl
    · omega
    · revert hd; decide
  have hm : c ≠ '-' := by rintro rfl; revert h; decide
  simp [opensNumber, hd, hm]

/-- A number starts with a digit or a minus sign. -/
theorem of_opensNumber {s : List Char} (h : opensNumber c s = true) :
    isNameChar c = true ∨ c = '-' := by
  simp only [opensNumber, Bool.or_eq_true, Bool.and_eq_true, beq_iff_eq] at h
  rcases h with h | h
  · exact .inl (by simp [isNameChar, Char.isAlphanum, h])
  · exact .inr h.1

theorem opensNumber_append {s : List Char} (h : opensNumber c s = true) (r : List Char) :
    opensNumber c (s ++ r) = true := by
  cases s with
  | nil =>
    simp only [opensNumber, List.head?_nil, Option.any_none, Bool.and_false, Bool.or_false] at h
    simp [opensNumber, h]
  | cons d s => exact h

end

/-- `r` does not go on with an identifier or a number in front of it. -/
def Stops (r : List Char) : Prop := ∀ c ∈ r.head?, isNameChar c = false

theorem Stops.nil : Stops [] := by simp [Stops]

theorem Stops.cons {c : Char} {r : List Char} (h : isNameChar c = false) : Stops (c :: r) := by
  simpa [Stops] using h

theorem Stops.not_isNumberChar {r : List Char} (h : Stops r) :
    ∀ c ∈ r.head?, isNumberChar c = false := by
  intro c hc
  refine Bool.eq_false_iff.mpr fun hn => ?_
  exact Bool.eq_false_iff.mp (h c hc) (isNameChar_of_isNumberChar hn)

theorem Stops.append {s r : List Char} (hs : Stops s) (hr : Stops r) : Stops (s ++ r) := by
  cases s with
  | nil => exact hr
  | cons c s => exact Stops.cons (hs c rfl)

/-! ### Lexemes -/

section
variable {line : Nat} {c : Char} {s r : List Char}

theorem takeWhile_append_of_head {p : Char → Bool} (hs : s.all p = true)
    (hr : ∀ c ∈ r.head?, p c = false) : (s ++ r).takeWhile p = s := by
  rw [List.takeWhile_append_of_pos (by simpa using hs)]
  cases r with
  | nil => simp
  | cons c r => simp [hr c rfl]

theorem dropWhile_append_of_head {p : Char → Bool} (hs : s.all p = true)
    (hr : ∀ c ∈ r.head?, p c = false) : (s ++ r).dropWhile p = r := by
  rw [List.dropWhile_append_of_pos (by simpa using hs)]
  cases r with
  | nil => rfl
  | cons c r => simp [hr c rfl]

theorem lexeme_ofChar {kind : Kind} (h : Kind.ofChar? c = some kind) :
    lexeme line c s = .ok (some kind, s) := by
  unfold lexeme
  rw [h]

/-- A lexeme that is of no fixed form. -/
theorem lexeme_other (h₁ : Kind.ofChar? c = none) (h₂ : c ≠ '@') (h₃ : c ≠ '/') (h₄ : c ≠ '"') :
    lexeme line c s =
      if isBlank c then .ok (none, s)
      else if opensNumber c s then
        .ok (some (.number (String.ofList (c :: s.takeWhile isNumberChar))),
          s.dropWhile isNumberChar)
      else if isNameStart c then
        .ok (some (.name (String.ofList (c :: s.takeWhile isNameChar))), s.dropWhile isNameChar)
      else .error (.malformed line (.strayCharacter c)) := by
  unfold lexeme
  rw [h₁]
  split <;> simp_all

theorem lexeme_blank (h : isBlank c = true) (hc : c ≠ '\n') : lexeme line c s = .ok (none, s) := by
  have h₁ : Kind.ofChar? c = none := by
    unfold Kind.ofChar?
    split <;> first | rfl | exact absurd rfl hc | exact absurd h (by decide)
  rw [lexeme_other h₁, if_pos h]
  all_goals rintro rfl; exact absurd h (by decide)

theorem lexeme_quote (v : List Char) :
    lexeme line '"' (Text.Quoted.escape v ++ '"' :: r) =
      .ok (some (.text (String.ofList v)), r) := by
  unfold lexeme
  rw [Text.Quoted.read_escape]
  rfl

theorem lexeme_name (hc : isNameStart c = true) (hs : s.all isNameChar = true) (hr : Stops r) :
    lexeme line c (s ++ r) = .ok (some (.name (String.ofList (c :: s))), r) := by
  have hn := isNameChar_of_isNameStart hc
  rw [lexeme_other (ofChar?_eq_none hn), isBlank_of_isNameChar hn, opensNumber_of_isNameStart hc, hc,
    takeWhile_append_of_head hs hr, dropWhile_append_of_head hs hr]
  · simp
  all_goals rintro rfl; exact absurd hc (by decide)

theorem lexeme_number (hc : opensNumber c s = true) (hs : s.all isNumberChar = true)
    (hr : ∀ d ∈ r.head?, isNumberChar d = false) :
    lexeme line c (s ++ r) = .ok (some (.number (String.ofList (c :: s))), r) := by
  have hc' := opensNumber_append hc r
  rcases of_opensNumber hc with hn | rfl
  · rw [lexeme_other (ofChar?_eq_none hn), isBlank_of_isNameChar hn, hc',
      takeWhile_append_of_head hs hr, dropWhile_append_of_head hs hr]
    · simp
    all_goals rintro rfl; exact absurd hn (by decide)
  · rw [lexeme_other rfl (by decide) (by decide) (by decide), isBlank_minus, hc',
      takeWhile_append_of_head hs hr, dropWhile_append_of_head hs hr]
    simp

theorem lexeme_marker (h : s.head? ≠ some '@') : lexeme line '@' s = .ok (some .marker, s) := by
  unfold lexeme
  cases s with
  | nil => rfl
  | cons d s =>
    have hd : d ≠ '@' := fun e => h (by rw [e]; rfl)
    split <;> simp_all [Kind.ofChar?]

theorem lexeme_blockMarker : lexeme line '@' ('@' :: s) = .ok (some .blockMarker, s) := rfl

/-- A comment runs to the end of its line. -/
theorem lexeme_comment (hs : '\n' ∉ s) (hr : ∀ c ∈ r.head?, c = '\n') :
    lexeme line '/' ('/' :: (s ++ r)) = .ok (Kind.ofComment s, r) := by
  have hs' : s.all (· != '\n') = true := by
    simp only [List.all_eq_true, bne_iff_ne, ne_eq]
    rintro a ha rfl
    exact hs ha
  have hr' : ∀ c ∈ r.head?, (c != '\n') = false := fun c hc => by simp [hr c hc]
  show Except.ok _ = _
  rw [takeWhile_append_of_head hs' hr', dropWhile_append_of_head hs' hr']

theorem scan_cons {depth : Nat} {kind : Option Kind} (h : lexeme line c s = .ok (kind, r)) :
    scan line depth (c :: s) =
      (scan (Kind.lineAfter line kind) (Kind.depthAfter depth kind) r).map
        (ofLexeme line depth kind ++ ·) := by
  rw [scan]
  split <;> simp_all

end

/-! ### Texts without line feeds -/

/-- The number of open brackets after tokens. -/
def depthAfterAll (depth : Nat) (ks : List Kind) : Nat :=
  ks.foldl (fun d k => Kind.depthAfter d (some k)) depth

theorem depthAfterAll_append (depth : Nat) (ks ks' : List Kind) :
    depthAfterAll depth (ks ++ ks') = depthAfterAll (depthAfterAll depth ks) ks' :=
  List.foldl_append

/-- Tokens after which as many brackets are open as before them. -/
def Balanced (ks : List Kind) : Prop := ∀ depth, depthAfterAll depth ks = depth

namespace Balanced
variable {ks ks' : List Kind}

theorem nil : Balanced [] := fun _ => rfl

theorem append (h : Balanced ks) (h' : Balanced ks') : Balanced (ks ++ ks') := by
  intro depth
  rw [depthAfterAll_append, h, h']

/-- A token that is no bracket. -/
theorem cons {k : Kind} (hk : ∀ depth, Kind.depthAfter depth (some k) = depth)
    (h : Balanced ks) : Balanced (k :: ks) := by
  intro depth
  show depthAfterAll (Kind.depthAfter depth (some k)) ks = depth
  rw [hk, h]

theorem parens (h : Balanced ks) : Balanced (.openParen :: (ks ++ [.closeParen])) := by
  intro depth
  show depthAfterAll (depth + 1) (ks ++ [.closeParen]) = depth
  rw [depthAfterAll_append, h]
  rfl

theorem brackets (h : Balanced ks) : Balanced (.openBracket :: (ks ++ [.closeBracket])) := by
  intro depth
  show depthAfterAll (depth + 1) (ks ++ [.closeBracket]) = depth
  rw [depthAfterAll_append, h]
  rfl

end Balanced

/-- Tokens of one line. -/
def onLine (line : Nat) (ks : List Kind) : List Token := ks.map fun k => ⟨k, line⟩

theorem onLine_cons_append (line : Nat) (k : Kind) (ks : List Kind) (ts : List Token) :
    onLine line (k :: ks) ++ ts = ⟨k, line⟩ :: (onLine line ks ++ ts) := rfl

@[simp] theorem map_kind_onLine (line : Nat) (ks : List Kind) :
    (onLine line ks).map (·.kind) = ks := by
  rw [onLine, List.map_map]
  exact List.map_id ks

/-- `s` is read as tokens of the kinds `ks`, if what follows lets its last word end. -/
def Lexes (s : List Char) (ks : List Kind) : Prop :=
  ∀ line depth r, Stops r →
    scan line depth (s ++ r) =
      (scan line (depthAfterAll depth ks) r).map (onLine line ks ++ ·)

namespace Lexes
variable {s : List Char} {ks : List Kind}

theorem nil : Lexes [] [] := by
  intro line depth r _
  cases h : scan line depth r <;> simp [depthAfterAll, onLine, h, Except.map]

theorem append {s' : List Char} {ks' : List Kind} (h : Lexes s ks) (hstop : Stops s')
    (h' : Lexes s' ks') : Lexes (s ++ s') (ks ++ ks') := by
  intro line depth r hr
  rw [List.append_assoc, h line depth _ (hstop.append hr), h' line _ r hr, depthAfterAll_append]
  cases scan line (depthAfterAll (depthAfterAll depth ks) ks') r <;>
    simp [Except.map, onLine]

/-- A lexeme in front of a text. It is no line break. -/
theorem lexeme {c : Char} {t : List Char} {kind : Kind} (hk : kind ≠ .newline)
    (h : ∀ line r, Stops r → Token.lexeme line c (t ++ r) = .ok (some kind, s ++ r))
    (hs : Lexes s ks) : Lexes (c :: t) (kind :: ks) := by
  intro line depth r hr
  have hline : Kind.lineAfter line (some kind) = line := by cases kind <;> simp_all [Kind.lineAfter]
  have htok : ofLexeme line depth (some kind) = [⟨kind, line⟩] := by
    cases kind <;> simp_all [ofLexeme]
  rw [List.cons_append, scan_cons (h line r hr), hline, htok, hs line _ r hr]
  show _ = (scan line (depthAfterAll (Kind.depthAfter depth (some kind)) ks) r).map _
  cases scan line (depthAfterAll (Kind.depthAfter depth (some kind)) ks) r <;> rfl

/-- A blank is no token. -/
theorem blank {c : Char} (hc : isBlank c = true) (hn : c ≠ '\n') (hs : Lexes s ks) :
    Lexes (c :: s) ks := by
  intro line depth r hr
  rw [List.cons_append, scan_cons (lexeme_blank hc hn)]
  show Except.map _ (scan line depth (s ++ r)) = _
  rw [hs line depth r hr]
  cases scan line (depthAfterAll depth ks) r <;> rfl

theorem space (hs : Lexes s ks) : Lexes (' ' :: s) ks := blank (by decide) (by decide) hs

theorem char {c : Char} {kind : Kind} (hc : Kind.ofChar? c = some kind) (hk : kind ≠ .newline)
    (hs : Lexes s ks) : Lexes (c :: s) (kind :: ks) :=
  lexeme hk (fun _ _ _ => lexeme_ofChar hc) hs

theorem comma (hs : Lexes s ks) : Lexes (',' :: s) (.comma :: ks) := char rfl nofun hs

theorem colon (hs : Lexes s ks) : Lexes (':' :: s) (.colon :: ks) := char rfl nofun hs

theorem equals (hs : Lexes s ks) : Lexes ('=' :: s) (.equals :: ks) := char rfl nofun hs

theorem question (hs : Lexes s ks) : Lexes ('?' :: s) (.question :: ks) := char rfl nofun hs

theorem openParen (hs : Lexes s ks) : Lexes ('(' :: s) (.openParen :: ks) := char rfl nofun hs

theorem closeParen (hs : Lexes s ks) : Lexes (')' :: s) (.closeParen :: ks) := char rfl nofun hs

theorem openBracket (hs : Lexes s ks) : Lexes ('[' :: s) (.openBracket :: ks) := char rfl nofun hs

theorem closeBracket (hs : Lexes s ks) : Lexes (']' :: s) (.closeBracket :: ks) :=
  char rfl nofun hs

theorem openBrace (hs : Lexes s ks) : Lexes ('{' :: s) (.openBrace :: ks) := char rfl nofun hs

theorem closeBrace (hs : Lexes s ks) : Lexes ('}' :: s) (.closeBrace :: ks) := char rfl nofun hs

theorem quote (v : String) (hs : Lexes s ks) :
    Lexes ((Text.Quoted.quote v).toList ++ s) (.text v :: ks) := by
  have h : Lexes ('"' :: (Text.Quoted.escape v.toList ++ '"' :: s)) (.text v :: ks) :=
    lexeme nofun (fun line r _ => by
      rw [List.append_assoc, List.cons_append, lexeme_quote, String.ofList_toList]) hs
  simpa [Text.Quoted.toList_quote] using h

theorem name {n : String} (hn : IsName n) (hstop : Stops s) (hs : Lexes s ks) :
    Lexes (n.toList ++ s) (.name n :: ks) := by
  obtain ⟨c, t, ht, hc, htail⟩ := hn
  have hn : n = String.ofList (c :: t) := by rw [← ht, String.ofList_toList]
  rw [ht, List.cons_append]
  refine lexeme nofun (fun line r hr => ?_) hs
  rw [hn, List.append_assoc]
  exact lexeme_name hc htail (hstop.append hr)

theorem number {n : String} (hn : IsNumber n) (hstop : Stops s) (hs : Lexes s ks) :
    Lexes (n.toList ++ s) (.number n :: ks) := by
  obtain ⟨c, t, ht, hc, htail⟩ := hn
  have hn : n = String.ofList (c :: t) := by rw [← ht, String.ofList_toList]
  rw [ht, List.cons_append]
  refine lexeme nofun (fun line r hr => ?_) hs
  rw [hn, List.append_assoc]
  exact lexeme_number hc htail (hstop.append hr).not_isNumberChar

theorem head?_name_append {n : String} (hn : IsName n) (s : List Char) :
    (n.toList ++ s).head? ≠ some '@' := by
  obtain ⟨c, t, ht, hc, _⟩ := hn
  rw [ht]
  rintro h
  cases h
  exact absurd hc (by decide)

/-- The name of a field's attribute. -/
theorem marker {n : String} (hn : IsName n) (hstop : Stops s) (hs : Lexes s ks) :
    Lexes ('@' :: (n.toList ++ s)) (.marker :: .name n :: ks) := by
  refine lexeme nofun (fun line r _ => lexeme_marker ?_) (name hn hstop hs)
  rw [List.append_assoc]
  exact head?_name_append hn _

/-- The name of a block's attribute. -/
theorem blockMarker {n : String} (hn : IsName n) (hstop : Stops s) (hs : Lexes s ks) :
    Lexes ('@' :: '@' :: (n.toList ++ s)) (.blockMarker :: .name n :: ks) :=
  lexeme (t := '@' :: (n.toList ++ s)) nofun (fun _ _ _ => lexeme_blockMarker) (name hn hstop hs)

end Lexes

/-! ### Lines -/

/-- `s` is a whole line of tokens of the kinds `ks`, with all brackets closed at its end. -/
def LexesLine (s : List Char) (ks : List Kind) : Prop :=
  ∀ line r, scan line 0 (s ++ '\n' :: r) =
    (scan (line + 1) 0 r).map (onLine line ks ++ ⟨.newline, line⟩ :: ·)

/-- A line break is a token where no bracket is open. -/
theorem scan_lineBreak (line depth : Nat) (s : List Char) : scan line depth ('\n' :: s) =
    (scan (line + 1) depth s).map ((if depth = 0 then [⟨.newline, line⟩] else []) ++ ·) :=
  scan_cons (lexeme_ofChar (show Kind.ofChar? '\n' = some .newline from rfl))

theorem scan_newline (line : Nat) (r : List Char) :
    scan line 0 ('\n' :: r) = (scan (line + 1) 0 r).map (⟨.newline, line⟩ :: ·) :=
  scan_lineBreak line 0 r

namespace LexesLine
variable {s : List Char} {ks : List Kind}

theorem of_lexes (h : Lexes s ks) (hb : Balanced ks) : LexesLine s ks := by
  intro line r
  rw [h line 0 _ (Stops.cons (by decide)), hb, scan_newline]
  cases scan (line + 1) 0 r <;> rfl

theorem empty : LexesLine [] [] := of_lexes .nil .nil

theorem space (h : LexesLine s ks) : LexesLine (' ' :: s) ks := by
  intro line r
  rw [List.cons_append, scan_cons (lexeme_blank (by decide) (by decide))]
  show Except.map _ (scan line 0 (s ++ '\n' :: r)) = _
  rw [h line r]
  cases scan (line + 1) 0 r <;> rfl

theorem comment (hs : '\n' ∉ s) :
    LexesLine ('/' :: '/' :: s) (Kind.ofComment s).toList := by
  intro line r
  rw [List.cons_append, List.cons_append, scan_cons (lexeme_comment hs (by simp))]
  rcases h : Kind.ofComment s with _ | kind
  · show Except.map _ (scan line 0 ('\n' :: r)) = _
    rw [scan_newline]
    cases scan (line + 1) 0 r <;> rfl
  · obtain ⟨t, rfl⟩ : ∃ t, kind = .doc t := by
      unfold Kind.ofComment at h
      split at h <;> cases h <;> exact ⟨_, rfl⟩
    show Except.map _ (scan line 0 ('\n' :: r)) = _
    rw [scan_newline]
    cases scan (line + 1) 0 r <;> rfl

end LexesLine

/-- The tokens of lines, the first of which is line `line`. -/
def layout (line : Nat) : List (List Kind) → List Token
  | [] => []
  | ks :: kss => onLine line ks ++ ⟨.newline, line⟩ :: layout (line + 1) kss

theorem layout_append (line : Nat) (kss kss' : List (List Kind)) :
    layout line (kss ++ kss') = layout line kss ++ layout (line + kss.length) kss' := by
  induction kss generalizing line with
  | nil => rfl
  | cons ks kss ih =>
    rw [List.cons_append, layout, layout, ih, List.length_cons, Nat.add_right_comm]
    simp [Nat.add_assoc]

section
variable {ss : List (List Char)} {kss : List (List Kind)}

/-- Lines of tokens, in front of any text. -/
theorem scan_lines_append (h : List.Forall₂ LexesLine ss kss) (line : Nat) (r : List Char) :
    scan line 0 (ss.flatMap (· ++ ['\n']) ++ r) =
      (scan (line + kss.length) 0 r).map (layout line kss ++ ·) := by
  induction h generalizing line with
  | nil => cases hscan : scan line 0 r <;> simp [hscan, layout, Except.map]
  | @cons s ks ss kss hs _ ih =>
    rw [List.flatMap_cons, List.append_assoc, List.append_assoc, List.singleton_append, hs, ih,
      List.length_cons, Nat.add_right_comm, layout, Nat.add_assoc]
    cases scan (line + (kss.length + 1)) 0 r <;> simp [Except.map]

/-- **Line by line.** The tokens of a text whose lines are tokens each. -/
theorem scan_lines (h : List.Forall₂ LexesLine ss kss) (line : Nat) :
    scan line 0 (ss.flatMap (· ++ ['\n'])) = .ok (layout line kss) := by
  have happend := scan_lines_append h line []
  rw [List.append_nil, scan] at happend
  simpa [Except.map] using happend

end

end Datamodel.Token
