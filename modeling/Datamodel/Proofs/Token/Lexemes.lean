import Datamodel.Proofs.Loading.Tokens
import Datamodel.Proofs.Text.Lines
import Datamodel.Proofs.Text.Search

/-! The lexemes of a line, with the text that each is written as.

`Written w kind r` lists the forms of lexemes: the characters `w` are one of that kind in front of
`r`. A text whose lines are read each on its own has the tokens of its lines, and between two of
them a line break where no bracket is open (`scan_joinLines`). -/

namespace Datamodel.Token

open Text (head?_dropWhile isBlank joinLines)

/-! ### Forms of lexemes -/

/-- The characters of a lexeme, what it stands for, and the text behind it. -/
inductive Written : List Char → Option Kind → List Char → Prop where
  | char {c : Char} {kind : Kind} {r : List Char} (h : Kind.ofChar? c = some kind) :
    Written [c] (some kind) r
  | blockMarker {r : List Char} : Written ['@', '@'] (some .blockMarker) r
  | marker {r : List Char} (h : r.head? ≠ some '@') : Written ['@'] (some .marker) r
  | comment {s r : List Char} (hs : '\n' ∉ s) (hr : ∀ c ∈ r.head?, c = '\n') :
    Written ('/' :: '/' :: s) (Kind.ofComment s) r
  | text {body v r : List Char} (h : ∀ r, Text.Quoted.read (body ++ '"' :: r) = .ok (v, r)) :
    Written ('"' :: (body ++ ['"'])) (some (.text (String.ofList v))) r
  | blank {c : Char} {r : List Char} (h : isBlank c = true) (hc : c ≠ '\n') : Written [c] none r
  | number {c : Char} {s r : List Char} (hc : opensNumber c s = true)
    (hs : s.all isNumberChar = true) (hr : ∀ d ∈ r.head?, isNumberChar d = false) :
    Written (c :: s) (some (.number (String.ofList (c :: s)))) r
  | name {c : Char} {s r : List Char} (hc : isNameStart c = true) (hs : s.all isNameChar = true)
    (hr : Stops r) : Written (c :: s) (some (.name (String.ofList (c :: s)))) r

/-- A comment is documentation if a third slash starts it. -/
theorem Kind.ofComment_eq_none_iff {s : List Char} :
    Kind.ofComment s = none ↔ s.head? ≠ some '/' := by
  cases s with
  | nil => simp [ofComment]
  | cons c s =>
    by_cases hc : c = '/'
    · subst hc
      cases s with
      | nil => simp [ofComment]
      | cons d s => by_cases hd : d = ' ' <;> simp [ofComment, hd]
    · simp [ofComment, hc]

section
variable {line : Nat} {c : Char} {s r w x : List Char} {kind : Option Kind}

/-- The token of a lexeme is what the lexeme stands for, on its line. -/
theorem eq_of_mem_ofLexeme {t : Token} {depth : Nat} (h : t ∈ ofLexeme line depth kind) :
    kind = some t.kind ∧ t.line = line := by
  unfold ofLexeme at h
  split at h
  · cases h
  · split at h
    · obtain rfl := List.mem_singleton.mp h
      exact ⟨rfl, rfl⟩
    · cases h
  · obtain rfl := List.mem_singleton.mp h
    exact ⟨rfl, rfl⟩

/-- **What the lexer takes** is a lexeme of one of the forms. -/
theorem written_of_lexeme (h : lexeme line c s = .ok (kind, r)) :
    ∃ t, s = t ++ r ∧ Written (c :: t) kind r := by
  unfold lexeme at h
  split at h
  · next hkind =>
    cases h
    exact ⟨[], rfl, .char hkind⟩
  · cases h
    exact ⟨['@'], rfl, .blockMarker⟩
  · next hnot _ =>
    cases h
    refine ⟨[], rfl, .marker fun hhead => ?_⟩
    obtain ⟨s', rfl⟩ := List.head?_eq_some_iff.mp hhead
    exact hnot s' rfl
  · next s' _ =>
    cases h
    refine ⟨'/' :: s'.takeWhile (· != '\n'), ?_, .comment ?_ ?_⟩
    · rw [List.cons_append, List.takeWhile_append_dropWhile]
    · intro hmem
      simpa using List.mem_takeWhile_imp hmem
    · intro d hd
      simpa using head?_dropWhile _ _ d hd
  · split at h
    · next value rest hread =>
      cases h
      obtain ⟨body, rfl, -, hbody⟩ := Text.Quoted.exists_of_read hread
      exact ⟨body ++ ['"'], by simp, .text hbody⟩
    · cases h
  · next hkind =>
    split at h
    · next hblank =>
      cases h
      refine ⟨[], rfl, .blank hblank ?_⟩
      rintro rfl
      cases hkind
    split at h
    · next hnumber =>
      cases h
      obtain ⟨d, t, heq, hopens, hall⟩ := isNumber_takeWhile hnumber
      rw [String.toList_ofList] at heq
      cases heq
      exact ⟨_, List.takeWhile_append_dropWhile.symm,
        .number hopens hall (head?_dropWhile _ _)⟩
    split at h
    · next hstart =>
      cases h
      exact ⟨_, List.takeWhile_append_dropWhile.symm,
        .name hstart List.all_takeWhile (head?_dropWhile _ _)⟩
    · cases h

/-- A lexeme is read wherever it is written. -/
theorem Written.lexeme (h : Written w kind r) :
    ∃ c t, w = c :: t ∧ ∀ line, Token.lexeme line c (t ++ r) = .ok (kind, r) := by
  cases h with
  | char h => exact ⟨_, _, rfl, fun line => lexeme_ofChar h⟩
  | blockMarker => exact ⟨_, _, rfl, fun line => lexeme_blockMarker⟩
  | marker h => exact ⟨_, _, rfl, fun line => lexeme_marker h⟩
  | comment hs hr => exact ⟨_, _, rfl, fun line => lexeme_comment hs hr⟩
  | @text body v r h =>
    refine ⟨_, _, rfl, fun line => ?_⟩
    unfold Token.lexeme
    rw [List.append_assoc, List.singleton_append, h]
    rfl
  | blank h hc => exact ⟨_, _, rfl, fun line => lexeme_blank h hc⟩
  | number hc hs hr => exact ⟨_, _, rfl, fun line => lexeme_number hc hs hr⟩
  | name hc hs hr => exact ⟨_, _, rfl, fun line => lexeme_name hc hs hr⟩

/-- A lexeme without a token is a blank, or a comment up to the end of its line. -/
theorem Written.cases_none (h : Written w none r) :
    (∃ c, w = [c] ∧ isBlank c = true) ∨ ∀ c ∈ r.head?, c = '\n' := by
  generalize hkind : none = kind at h
  cases h with
  | blank h hc => exact .inl ⟨_, rfl, h⟩
  | comment hs hr => exact .inr hr
  | _ => cases hkind

theorem Written.eq_of_newline (h : Written w (some .newline) r) : w = ['\n'] := by
  generalize hkind : some Kind.newline = kind at h
  cases h with
  | @char c kind r h =>
    cases hkind
    unfold Kind.ofChar? at h
    split at h <;> first | rfl | cases h
  | @comment s r hs hr =>
    unfold Kind.ofComment at hkind
    split at hkind <;> cases hkind
  | _ => cases hkind

/-- A string is written as a literal. -/
theorem Written.exists_literal {v : String} (h : Written w (some (.text v)) r) :
    ∃ body, w = '"' :: (body ++ ['"']) ∧
      Text.Quoted.read (body ++ '"' :: r) = .ok (v.toList, r) := by
  generalize hkind : some (Kind.text v) = kind at h
  cases h with
  | @char c kind r h =>
    cases hkind
    unfold Kind.ofChar? at h
    split at h <;> cases h
  | @comment s r hs hr =>
    unfold Kind.ofComment at hkind
    split at hkind <;> cases hkind
  | @text body v' r h =>
    cases hkind
    exact ⟨body, rfl, by rw [String.toList_ofList, h]⟩
  | _ => cases hkind

/-- What ends a lexeme is the character behind it. -/
theorem Written.of_head {r' : List Char} (h : Written w kind r) (hr : r'.head? = r.head?) :
    Written w kind r' := by
  cases h with
  | char h => exact .char h
  | blockMarker => exact .blockMarker
  | marker h => exact .marker (hr ▸ h)
  | comment hs hr' => exact .comment hs (hr ▸ hr')
  | text h => exact .text h
  | blank h hc => exact .blank h hc
  | number hc hs hr' => exact .number hc hs (hr ▸ hr')
  | name hc hs hr' =>
    refine .name hc hs fun d hd => ?_
    rw [hr] at hd
    exact hr' d hd

theorem forall_head?_append {P : Char → Prop} (hr : ∀ c ∈ r.head?, P c)
    (hx : ∀ c ∈ x.head?, P c) : ∀ c ∈ (r ++ x).head?, P c := by
  cases r with
  | nil => exact hx
  | cons d r => exact hr

/-- A blank ends a lexeme as the end of the text does, but for a comment, which goes on. -/
theorem Written.append_blank (h : Written w kind r) (hx : ∀ c ∈ x.head?, isBlank c = true)
    (hcomment : "//".toList <+: w → '\n' ∉ w → r = [] → ∀ c ∈ x.head?, c = '\n') :
    Written w kind (r ++ x) := by
  have hblank {P : Char → Prop} (hP : ∀ c, isBlank c = true → P c) : ∀ c ∈ x.head?, P c :=
    fun c hc => hP c (hx c hc)
  cases h with
  | char h => exact .char h
  | blockMarker => exact .blockMarker
  | marker h =>
    refine .marker fun hhead => ?_
    have hne : ∀ c ∈ (r ++ x).head?, c ≠ '@' :=
      forall_head?_append (fun c hc => by rintro rfl; exact h hc)
        (hblank fun c hc => by rintro rfl; exact absurd hc (by decide))
    exact hne '@' hhead rfl
  | @comment s r hs hr =>
    refine .comment hs ?_
    cases r with
    | nil => exact hcomment ⟨s, rfl⟩ (by simp [hs]) rfl
    | cons d r => exact hr
  | text h => exact .text h
  | blank h hc => exact .blank h hc
  | number hc hs hr =>
    refine .number hc hs (forall_head?_append hr (hblank fun c hc => ?_))
    rw [Bool.eq_false_iff]
    intro hnumber
    rw [isBlank_of_isNameChar (isNameChar_of_isNumberChar hnumber)] at hc
    cases hc
  | name hc hs hr =>
    refine .name hc hs (forall_head?_append hr (hblank fun c hc => ?_))
    rw [Bool.eq_false_iff]
    intro hname
    rw [isBlank_of_isNameChar hname] at hc
    cases hc

/-- The end of a line ends a lexeme as the end of the text does. -/
theorem Written.append (h : Written w kind r) (hx : ∀ c ∈ x.head?, c = '\n') :
    Written w kind (r ++ x) :=
  h.append_blank (fun c hc => by rw [hx c hc]; decide) fun _ _ _ => hx

end

/-! ### Lexemes of a line -/

/-- A lexeme and the text that it is written as. Blanks and plain comments stand for no token. -/
structure Lexeme where
  written : List Char
  kind : Option Kind
  deriving DecidableEq, Repr

namespace Lexeme

/-- What lexemes are written as, one after the other. -/
def text (ls : List Lexeme) : List Char := ls.flatMap (·.written)

/-- The tokens among lexemes. -/
def kinds (ls : List Lexeme) : List Kind := ls.filterMap (·.kind)

theorem text_append (ls ls' : List Lexeme) : text (ls ++ ls') = text ls ++ text ls' :=
  List.flatMap_append

theorem kinds_cons (l : Lexeme) (ls : List Lexeme) :
    kinds (l :: ls) = l.kind.toList ++ kinds ls := by
  rw [kinds, List.filterMap_cons]
  cases l.kind <;> rfl

theorem kinds_append (ls ls' : List Lexeme) : kinds (ls ++ ls') = kinds ls ++ kinds ls' :=
  List.filterMap_append

end Lexeme

open Lexeme (kinds)

/-- The lexemes of a line that is read on its own, if it can be. -/
def lexemes : List Char → Option (List Lexeme)
  | [] => some []
  | c :: s =>
    match h : lexeme 1 c s with
    | .error _ => none
    | .ok (kind, r) =>
      have : r.length ≤ s.length := length_le_of_lexeme h
      (lexemes r).map (⟨(c :: s).take (s.length + 1 - r.length), kind⟩ :: ·)
termination_by s => s.length

section
variable {s x : List Char} {l : Lexeme} {ls : List Lexeme}

theorem lexemes_eq_nil (h : lexemes s = some []) : s = [] := by
  cases s with
  | nil => rfl
  | cons c s =>
    rw [lexemes] at h
    split at h
    · cases h
    · simp at h

/-- The first lexeme of a line, and the line behind it. -/
theorem exists_of_lexemes_cons (h : lexemes s = some (l :: ls)) :
    ∃ r, s = l.written ++ r ∧ Written l.written l.kind r ∧ lexemes r = some ls := by
  cases s with
  | nil => simp [lexemes] at h
  | cons c s =>
    rw [lexemes] at h
    split at h
    · cases h
    · next kind r hlexeme =>
      obtain ⟨more, hmore, heq⟩ := Option.map_eq_some_iff.mp h
      cases heq
      obtain ⟨t, rfl, hwritten⟩ := written_of_lexeme hlexeme
      have htake : (c :: (t ++ r)).take ((t ++ r).length + 1 - r.length) = c :: t := by
        have hlength : (t ++ r).length + 1 - r.length = (c :: t).length := by
          simp only [List.length_append, List.length_cons]
          omega
        rw [hlength, ← List.cons_append, List.take_left]
      rw [htake]
      exact ⟨r, rfl, hwritten, hmore⟩

theorem text_of_lexemes (h : lexemes s = some ls) : Lexeme.text ls = s := by
  induction ls generalizing s with
  | nil => exact (lexemes_eq_nil h).symm
  | cons l ls ih =>
    obtain ⟨r, rfl, -, hr⟩ := exists_of_lexemes_cons h
    rw [Lexeme.text, List.flatMap_cons, ← Lexeme.text, ih hr]

/-- A line that starts with that lexeme. -/
theorem lexemes_append {w r : List Char} {kind : Option Kind} (h : Written w kind r) :
    lexemes (w ++ r) = (lexemes r).map (⟨w, kind⟩ :: ·) := by
  obtain ⟨c, t, rfl, hlexeme⟩ := h.lexeme
  rw [List.cons_append, lexemes]
  split
  · next heq =>
    rw [hlexeme] at heq
    cases heq
  · next heq =>
    rw [hlexeme] at heq
    cases heq
    have hlength : (t ++ r).length + 1 - r.length = (c :: t).length := by
      simp only [List.length_append, List.length_cons]
      omega
    rw [hlength, ← List.cons_append, List.take_left]

/-- Tokens of a line: none of them is a line break, and documentation ends them. -/
structure IsLine (ks : List Kind) : Prop where
  newline : .newline ∉ ks
  doc : ∀ u d v, ks = u ++ .doc d :: v → v = []

theorem isLine_nil : IsLine [] := ⟨nofun, fun u d v h => by simp at h⟩

theorem IsLine.cons {k : Kind} {ks : List Kind} (h : IsLine ks) (hk : k ≠ .newline)
    (hdoc : ∀ d, k ≠ .doc d) : IsLine (k :: ks) where
  newline := List.not_mem_cons_of_ne_of_not_mem hk.symm h.newline
  doc := by
    intro u d v heq
    cases u with
    | nil => exact absurd (List.cons.inj heq).1 (hdoc d)
    | cons k' u => exact h.doc u d v (List.cons.inj heq).2

theorem IsLine.of_append {ks ks' : List Kind} (h : IsLine (ks ++ ks')) : IsLine ks' where
  newline := fun hmem => h.newline (List.mem_append_right ks hmem)
  doc := fun u d v heq => h.doc (ks ++ u) d v (by rw [heq, List.append_assoc])

/-- On a line a lexeme is no line break, and a comment is the last. -/
theorem Written.on_line {w r : List Char} {kind : Option Kind} (h : Written w kind r)
    (hn : '\n' ∉ w ++ r) : kind ≠ some .newline ∧ ∀ d, kind = some (.doc d) → r = [] := by
  cases h with
  | @char c kind r h =>
    have hc : c ≠ '\n' := fun hc => hn (by simp [hc])
    unfold Kind.ofChar? at h
    split at h <;> cases h <;> simp_all
  | @comment s r hs hr =>
    have hnil : r = [] := by
      cases r with
      | nil => rfl
      | cons c r => exact absurd (by simp [hr c rfl]) hn
    refine ⟨?_, fun _ _ => hnil⟩
    unfold Kind.ofComment
    split <;> nofun
  | blockMarker | marker _ | text _ | blank _ _ | number _ _ _ | name _ _ _ => exact ⟨nofun, nofun⟩

theorem isLine_kinds (h : lexemes s = some ls) (hn : '\n' ∉ s) : IsLine (kinds ls) := by
  induction ls generalizing s with
  | nil => exact isLine_nil
  | cons l ls ih =>
    obtain ⟨r, rfl, hwritten, hr⟩ := exists_of_lexemes_cons h
    have hline : IsLine (kinds ls) := ih hr fun hmem => hn (List.mem_append_right _ hmem)
    obtain ⟨hnewline, hdoc⟩ := hwritten.on_line hn
    rw [kinds, List.filterMap_cons]
    split
    · exact hline
    · next k hk =>
      rw [hk] at hnewline hdoc
      by_cases hd : ∃ d, k = .doc d
      · obtain ⟨d, rfl⟩ := hd
        rw [hdoc d rfl, lexemes] at hr
        cases hr
        refine ⟨by simp, fun u d' v heq => ?_⟩
        cases u with
        | nil => exact (List.cons.inj heq).2.symm
        | cons k u => simp at heq
      · exact hline.cons (fun hk => hnewline (congrArg some hk)) fun d hk => hd ⟨d, hk⟩

/-- The tokens of a line, wherever it stands. -/
theorem scan_line (h : lexemes s = some ls) (hn : '\n' ∉ s) (hx : ∀ c ∈ x.head?, c = '\n')
    (line depth : Nat) :
    scan line depth (s ++ x) =
      (scan line (depthAfterAll depth (kinds ls)) x).map (onLine line (kinds ls) ++ ·) := by
  induction ls generalizing s depth with
  | nil =>
    rw [lexemes_eq_nil h]
    cases hscan : scan line depth x <;> simp [kinds, depthAfterAll, onLine, hscan, Except.map]
  | cons l ls ih =>
    obtain ⟨r, rfl, hwritten, hr⟩ := exists_of_lexemes_cons h
    obtain ⟨c, t, heq, hlexeme⟩ := (hwritten.append hx).lexeme
    have hnewline := (hwritten.on_line hn).1
    have hline : Kind.lineAfter line l.kind = line := by
      unfold Kind.lineAfter
      split <;> simp_all
    have hmore := ih hr (fun hmem => hn (List.mem_append_right _ hmem))
      (Kind.depthAfter depth l.kind)
    rw [List.append_assoc, heq, List.cons_append, scan_cons (hlexeme line), hline, hmore]
    cases hk : l.kind with
    | none =>
      have hkinds : kinds (l :: ls) = kinds ls := by simp [kinds, hk]
      rw [hkinds]
      show Except.map _ (Except.map _ (scan line (depthAfterAll depth (kinds ls)) x)) = _
      cases scan line (depthAfterAll depth (kinds ls)) x <;> rfl
    | some k =>
      have hkinds : kinds (l :: ls) = k :: kinds ls := by simp [kinds, hk]
      have htoken : ofLexeme line depth (some k) = [⟨k, line⟩] := by
        unfold ofLexeme
        split <;> simp_all
      rw [hkinds, htoken]
      show _ = Except.map _ (scan line (depthAfterAll (Kind.depthAfter depth (some k)) (kinds ls)) x)
      cases scan line (depthAfterAll (Kind.depthAfter depth (some k)) (kinds ls)) x <;> rfl

end

/-! ### Tokens of lines -/

/-- The tokens of lines, the first of which is line `line` and starts inside `depth` brackets. -/
def lineTokens (line depth : Nat) : List (List Kind) → List Token
  | [] => []
  | [ks] => onLine line ks
  | ks :: kss =>
    onLine line ks ++ (if depthAfterAll depth ks = 0 then [⟨.newline, line⟩] else []) ++
      lineTokens (line + 1) (depthAfterAll depth ks) kss

/-- **The tokens of a text** are those of its lines, if each is read on its own. -/
theorem scan_joinLines {rows : List (List Char)} {lines : List (List Lexeme)}
    (h : List.Forall₂ (fun row ls => lexemes row = some ls) rows lines)
    (hn : ∀ row ∈ rows, '\n' ∉ row) (line depth : Nat) :
    scan line depth (joinLines rows) = .ok (lineTokens line depth (lines.map kinds)) := by
  induction h generalizing line depth with
  | nil =>
    show scan line depth [] = _
    rw [scan]
    rfl
  | @cons row ls rows lines hrow hrest ih =>
    obtain ⟨hrown, hn⟩ := List.forall_mem_cons.mp hn
    cases rows with
    | nil =>
      cases hrest
      have hscan := scan_line hrow hrown (x := []) (by simp) line depth
      rw [List.append_nil, scan] at hscan
      rw [Text.joinLines_singleton, hscan]
      simp [lineTokens, Except.map]
    | cons row' rows =>
      obtain ⟨ls', lines, -, -, rfl⟩ := List.forall₂_cons_left_iff.mp hrest
      rw [Text.joinLines_cons row (List.cons_ne_nil _ _), scan_line hrow hrown (by simp),
        scan_lineBreak, ih hn]
      simp [lineTokens, Except.map]

end Datamodel.Token
