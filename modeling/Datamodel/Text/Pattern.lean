/-! Looking for a pattern in a text.

A pattern is a function that tries to match at the head of a text. `firstMatch` tries it at every
position from the left. -/

namespace Datamodel.Text

/-- `s` after `p`, if `s` starts with `p`. -/
def after? : (p s : List Char) → Option (List Char)
  | [], s => some s
  | _ :: _, [] => none
  | p :: ps, c :: s => if p = c then after? ps s else none

theorem after?_eq_some_iff {p s r : List Char} : after? p s = some r ↔ s = p ++ r := by
  induction p generalizing s with
  | nil => simp [after?]
  | cons p ps ih =>
    cases s with
    | nil => simp [after?]
    | cons c s => by_cases h : p = c <;> simp_all [after?, eq_comm]

/-- The match at the leftmost position that has one. -/
def firstMatch {α : Type} (pattern : List Char → Option α) : List Char → Option α
  | [] => none
  | c :: s =>
    match pattern (c :: s) with
    | some a => some a
    | none => firstMatch pattern s

/-- Whether `p` stands somewhere in a text. -/
def contains (p : List Char) : List Char → Bool
  | [] => p.isEmpty
  | c :: s => p.isPrefixOf (c :: s) || contains p s

theorem contains_iff_isInfix {p s : List Char} : contains p s ↔ p <:+: s := by
  induction s with
  | nil => simp [contains]
  | cons c s ih => simp [contains, ih, List.infix_cons_iff]

/-- The text up to the first character outside of the class, and the text from there on. -/
def span (p : Char → Bool) (s : List Char) : List Char × List Char :=
  (s.takeWhile p, s.dropWhile p)

/-- A text between double quotes at the head of `s`, without escapes, and the text after it. -/
def quotedPrefix? : List Char → Option (List Char × List Char)
  | '"' :: s =>
    match span (· != '"') s with
    | (value, '"' :: rest) => some (value, rest)
    | _ => none
  | _ => none

/-- The part of `s` up to its last `c`, that one included. -/
def throughLast? (c : Char) (s : List Char) : Option (List Char) :=
  match s.reverse.dropWhile (· != c) with
  | [] => none
  | front => some front.reverse

/-- The pieces of a text between the occurrences of a line feed with a closing brace behind it. -/
def splitAtClosings : List Char → List (List Char)
  | [] => [[]]
  | '\n' :: '}' :: s => [] :: splitAtClosings s
  | c :: s =>
    match splitAtClosings s with
    | [] => [[c]]
    | piece :: pieces => (c :: piece) :: pieces

/-- A line without the carriage return at its end. -/
def dropReturn (line : List Char) : List Char :=
  if line.getLast? = some '\r' then line.dropLast else line

/-- The lines of a text. A line feed, or a carriage return with a line feed, ends a line; a last
line that nothing ends counts unless it is empty. -/
def lines (s : List Char) : List (List Char) :=
  let pieces := s.splitOn '\n'
  pieces.dropLast.map dropReturn ++ pieces.getLast?.toList.filter (!·.isEmpty)

end Datamodel.Text
