import Datamodel.Error
import Datamodel.Text.Hex

/-! String literals: a text between double quotes, with backslash escapes.

`quote` writes a literal and `read` reads one, from just after its opening quote. `read` knows
more than `quote` writes: a `\u` escape, and a backslash before any other character, which then
stands for itself. -/

namespace Datamodel.Text.Quoted

/-- One character as it stands inside a literal. -/
def escapeChar : Char → List Char
  | '"' => ['\\', '"']
  | '\\' => ['\\', '\\']
  | '\n' => ['\\', 'n']
  | '\r' => ['\\', 'r']
  | '\t' => ['\\', 't']
  | c => [c]

def escape (s : List Char) : List Char := s.flatMap escapeChar

/-- The literal for `s`. -/
def quote (s : String) : String := String.ofList ('"' :: escape s.toList ++ ['"'])

theorem toList_quote (s : String) : (quote s).toList = '"' :: escape s.toList ++ ['"'] := by
  simp [quote]

/-! ### Reading -/

/-- The character that four hexadecimal digits name. -/
def hexChar? (s : List Char) : Option Char := (hexPrefix? 4 s).bind charOfCode?

/-- What an escape of one letter stands for. An unknown one keeps its backslash. -/
def unescape : Char → List Char
  | 'n' => ['\n']
  | 'r' => ['\r']
  | 't' => ['\t']
  | '"' => ['"']
  | '\\' => ['\\']
  | c => ['\\', c]

/-- Reads an escape from just after its backslash: what it stands for, and the text after it. -/
def readEscape : List Char → Except Fault (List Char × List Char)
  | [] => .error .openString
  | 'u' :: s =>
    match hexChar? s with
    | some c => .ok ([c], s.drop 4)
    | none => .error (.badEscape (String.ofList (s.take 4)))
  | c :: s => .ok (unescape c, s)

theorem length_lt_of_readEscape {s v r : List Char} (h : readEscape s = .ok (v, r)) :
    r.length < s.length := by
  unfold readEscape at h
  split at h
  · cases h
  · split at h
    · cases h; simp only [List.length_drop, List.length_cons]; omega
    · cases h
  · cases h; simp only [List.length_cons]; omega

/-- Reads a literal from just after its opening quote: its value, and the text after its closing
quote. A line feed ends the text of a literal, unless a backslash stands before it. -/
def read : List Char → Except Fault (List Char × List Char)
  | [] => .error .openString
  | '"' :: s => .ok ([], s)
  | '\n' :: _ => .error .openString
  | '\\' :: s =>
    match h : readEscape s with
    | .error fault => .error fault
    | .ok (v, r) =>
      have : r.length < s.length := length_lt_of_readEscape h
      (read r).map fun (w, rest) => (v ++ w, rest)
  | c :: s => (read s).map fun (w, rest) => (c :: w, rest)
termination_by s => s.length

theorem length_lt_of_read {s v r : List Char} (h : read s = .ok (v, r)) :
    r.length < s.length := by
  fun_induction read s generalizing v r with
  | case1 => cases h
  | case2 s => cases h; simp
  | case3 => cases h
  | case4 => cases h
  | case5 s w r' h' _ ih =>
    have hlt := length_lt_of_readEscape h'
    cases hr : read r' with
    | error f => rw [hr] at h; cases h
    | ok p =>
      rw [hr] at h
      cases h
      have := ih hr
      simp only [List.length_cons]; omega
  | case6 c s _ _ _ ih =>
    cases hr : read s with
    | error f => rw [hr] at h; cases h
    | ok p =>
      rw [hr] at h
      cases h
      have := ih hr
      simp only [List.length_cons]; omega

end Datamodel.Text.Quoted
