import Datamodel.Text.Blank
import Datamodel.Text.Quoted
import Datamodel.Token

/-! From a schema text to its tokens.

A lexeme is read at the head of the text and either stands for a token or, like a blank or a plain
`//` comment, for none. `scan` reads lexeme after lexeme and keeps the line number and the number
of open brackets: inside parentheses or brackets a line break is no token, so the arguments of an
attribute may span lines. -/

namespace Datamodel.Token

/-- The characters that open an identifier. -/
def isNameStart (c : Char) : Bool := c.isAlpha || c == '_'

/-- The characters that an identifier goes on with. -/
def isNameChar (c : Char) : Bool := c.isAlphanum || c == '_' || c == '.'

/-- The characters that a number goes on with, letters included. -/
def isNumberChar (c : Char) : Bool := c.isAlphanum || c == '.'

/-- Whether a number starts at `c`, with `s` after it. A minus sign needs a digit behind it. -/
def opensNumber (c : Char) (s : List Char) : Bool :=
  c.isDigit || (c == '-' && s.head?.any Char.isDigit)

/-- The tokens of one fixed character. -/
def Kind.ofChar? : Char → Option Kind
  | '\n' => some .newline
  | '{' => some .openBrace
  | '}' => some .closeBrace
  | '(' => some .openParen
  | ')' => some .closeParen
  | '[' => some .openBracket
  | ']' => some .closeBracket
  | ',' => some .comma
  | ':' => some .colon
  | '=' => some .equals
  | '?' => some .question
  | _ => none

/-- The token of a comment, given the text after its `//`: a third slash makes it documentation,
whose text starts after one space and ends with the last character that is not blank. -/
def Kind.ofComment : List Char → Option Kind
  | '/' :: ' ' :: s | '/' :: s => some (.doc (String.ofList (Text.trimRight s)))
  | _ => none

/-- Reads the lexeme that starts with `c`, and the text after it. -/
def lexeme (line : Nat) (c : Char) (s : List Char) :
    Except SourceError (Option Kind × List Char) :=
  match Kind.ofChar? c, c, s with
  | some kind, _, _ => .ok (some kind, s)
  | none, '@', '@' :: r => .ok (some .blockMarker, r)
  | none, '@', _ => .ok (some .marker, s)
  | none, '/', '/' :: r =>
    .ok (Kind.ofComment (r.takeWhile (· != '\n')), r.dropWhile (· != '\n'))
  | none, '"', _ =>
    match Text.Quoted.read s with
    | .ok (value, r) => .ok (some (.text (String.ofList value)), r)
    | .error fault => .error (.malformed line fault)
  | none, _, _ =>
    if Text.isBlank c then .ok (none, s)
    else if opensNumber c s then
      .ok (some (.number (String.ofList (c :: s.takeWhile isNumberChar))),
        s.dropWhile isNumberChar)
    else if isNameStart c then
      .ok (some (.name (String.ofList (c :: s.takeWhile isNameChar))), s.dropWhile isNameChar)
    else .error (.malformed line (.strayCharacter c))

theorem length_dropWhile_le (p : Char → Bool) (s : List Char) :
    (s.dropWhile p).length ≤ s.length :=
  (List.dropWhile_suffix p).length_le

/-- A lexeme takes nothing back. -/
theorem length_le_of_lexeme {line : Nat} {c : Char} {s r : List Char} {kind : Option Kind}
    (h : lexeme line c s = .ok (kind, r)) : r.length ≤ s.length := by
  unfold lexeme at h
  split at h
  · cases h; exact Nat.le_refl _
  · cases h; simp
  · cases h; exact Nat.le_refl _
  · cases h; exact Nat.le_trans (length_dropWhile_le _ _) (by simp)
  · split at h
    · cases h; exact Nat.le_of_lt (Text.Quoted.length_lt_of_read (by assumption))
    · cases h
  · split at h
    · cases h; exact Nat.le_refl _
    split at h
    · cases h; exact length_dropWhile_le _ _
    split at h
    · cases h; exact length_dropWhile_le _ _
    · cases h

/-- The number of open brackets after a token. A closing one that nothing opened changes
nothing. -/
def Kind.depthAfter (depth : Nat) : Option Kind → Nat
  | some .openParen | some .openBracket => depth + 1
  | some .closeParen | some .closeBracket => depth - 1
  | _ => depth

def Kind.lineAfter (line : Nat) : Option Kind → Nat
  | some .newline => line + 1
  | _ => line

/-- The token that a lexeme adds, if any. -/
def ofLexeme (line depth : Nat) : Option Kind → List Token
  | none => []
  | some .newline => if depth = 0 then [⟨.newline, line⟩] else []
  | some kind => [⟨kind, line⟩]

/-- The tokens of a text whose first character stands on line `line`, inside `depth` brackets. -/
def scan (line depth : Nat) : List Char → Except SourceError (List Token)
  | [] => .ok []
  | c :: s =>
    match h : lexeme line c s with
    | .error e => .error e
    | .ok (kind, r) =>
      have : r.length ≤ s.length := length_le_of_lexeme h
      (scan (Kind.lineAfter line kind) (Kind.depthAfter depth kind) r).map
        (ofLexeme line depth kind ++ ·)
termination_by s => s.length

/-- The tokens of a schema text. A leading byte order mark is skipped. -/
def tokenize (source : String) : Except SourceError (List Token) :=
  scan 1 0 (Text.dropMark source.toList)

end Datamodel.Token
