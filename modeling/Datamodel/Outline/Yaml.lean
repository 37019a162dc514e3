import Datamodel.Outline
import Datamodel.Text.Hex

/-! Outlines as YAML.

Each member and each item stands on a line of its own. Items stand at the indentation of the member
that they belong to, and anything else two columns behind. A text is written plain where it can be,
between quotes where it would be taken for something else, and as a block if it has several
lines. -/

namespace Datamodel.Outline.Yaml

/-! ### Numbers

A text that reads as a number has to be quoted. -/

/-- The digits of a number that is written in base 2, 8 or 16, if all of them are. -/
def radixNumber? (base : Nat) (digits : List Char) : Option Nat :=
  if !digits.isEmpty && digits.all fun c => Text.isHexDigit c && Text.hexDigit c < base then
    some (digits.foldl (fun n c => base * n + Text.hexDigit c) 0)
  else none

/-- The number after a mark such as `0x`. -/
def marked? : List Char → Option Nat
  | '0' :: 'x' :: s => radixNumber? 16 s
  | '0' :: 'o' :: s => radixNumber? 8 s
  | '0' :: 'b' :: s => radixNumber? 2 s
  | _ => none

/-- Whether a text is a number in base 2, 8 or 16 that fits into 128 bits. -/
def isMarkedNumber : List Char → Bool
  | '-' :: s => (marked? s).any (· ≤ Nat.pow 2 127)
  | '+' :: s | s => (marked? s).any (· < Nat.pow 2 128)

/-- A sign, or none, and the text after it. -/
def afterSign : List Char → Bool × List Char
  | '-' :: s => (true, s)
  | '+' :: s => (false, s)
  | s => (false, s)

/-- Whether a text consists of digits with a zero before them, and perhaps a sign. -/
def isPaddedNumber (s : List Char) : Bool :=
  let digits := match s with
    | '-' :: s | '+' :: s => s
    | s => s
  1 < digits.length && digits.head? == some '0' && digits.all Char.isDigit

/-- The exponent at the end of a number. No text stands for zero. -/
def exponent? : List Char → Option Int
  | [] => some 0
  | c :: s =>
    let (negative, digits) := afterSign s
    if (c == 'e' || c == 'E') && !digits.isEmpty && digits.all Char.isDigit then
      let n : Int := (digits.foldl (fun n c => 10 * n + (c.toNat - '0'.toNat)) 0 : Nat)
      some (if negative then -n else n)
    else none

/-- The digits of a decimal number without its sign, as a whole number, and the power of ten that
goes with them. -/
def decimal? (s : List Char) : Option (Nat × Int) :=
  let whole := s.takeWhile Char.isDigit
  let (fraction, s) := match s.dropWhile Char.isDigit with
    | '.' :: s => (s.takeWhile Char.isDigit, s.dropWhile Char.isDigit)
    | s => ([], s)
  if whole.isEmpty && fraction.isEmpty then none
  else (exponent? s).map fun e =>
    ((whole ++ fraction).foldl (fun n c => 10 * n + (c.toNat - '0'.toNat)) 0,
      e - fraction.length)

/-- Whether `n` times ten to the power of `e` is less than the numbers that a binary64 number
cannot come near. -/
def isFinite (n : Nat) (e : Int) : Bool :=
  let limit := Nat.pow 2 1024 - Nat.pow 2 970
  let digits : Int := (Nat.toDigits 10 n).length + e
  if n = 0 || digits < 300 then true
  else if 310 < digits then false
  else if 0 ≤ e then n * Nat.pow 10 e.toNat < limit
  else n < limit * Nat.pow 10 (-e).toNat

/-- Whether a text is a decimal number, or the word for one that is not finite. -/
def isDecimalNumber (s : List Char) : Bool :=
  let unsigned := match s with
    | '+' :: s => if s.head?.any (· ∈ ['+', '-']) then [] else s
    | '-' :: s => s
    | s => s
  let infinite := [".inf", ".Inf", ".INF"]
  String.ofList unsigned ∈ infinite || String.ofList s ∈ [".nan", ".NaN", ".NAN"] ||
    (decimal? unsigned).any fun (n, e) => isFinite n e

/-- Whether a plain scalar of this text would be taken for a missing value, a truth value or a
number. -/
def isTyped (s : String) : Bool :=
  s ∈ ["", "null", "Null", "NULL", "~", "true", "True", "TRUE", "false", "False", "FALSE"] ||
    isMarkedNumber s.toList || isPaddedNumber s.toList || isDecimalNumber s.toList

/-! ### The style of a scalar -/

/-- The characters that can be shown as they are. -/
def isShown (c : Char) : Bool :=
  let n := c.toNat
  n == 0xA || (0x20 ≤ n && n ≤ 0x7E) || (0xA0 ≤ n && n < 0xFFFE && n != 0xFEFF)

def isBreak (c : Char) : Bool := c ∈ ['\r', '\n', '\u0085', '\u2028', '\u2029']

def isGap (c : Char) : Bool := c == ' ' || c == '\t' || isBreak c

/-- Whether two characters that follow each other somewhere are such. -/
def hasPair (first second : Char → Bool) (s : List Char) : Bool :=
  (s.zip s.tail).any fun (a, b) => first a && second b

/-- Whether a colon stands before a gap or the end, or a number sign behind a gap. -/
def hasIndicator (s : List Char) : Bool :=
  s.getLast? == some ':' || hasPair (· == ':') isGap s || hasPair isGap (· == '#') s

/-- Whether a text starts like something else than a plain scalar. -/
def startsSpecial : List Char → Bool
  | '-' :: '-' :: '-' :: _ | '.' :: '.' :: '.' :: _ => true
  | c :: s =>
    c ∈ "#,[]\x7b\x7d&*!|>'\"%@`".toList || (c ∈ ['?', ':', '-'] && s.head?.all isGap)
  | [] => false

inductive Style where
  | plain
  | single
  | double
  | block
  deriving DecidableEq, Repr

/-- How a text is written. Between double quotes, any text can be. -/
def styleOf (s : String) : Style :=
  let cs := s.toList
  let space (c : Char) : Bool := c == ' '
  let special := !cs.all isShown || hasPair space isBreak cs
  let atEdge (p : Char → Bool) : Bool := cs.head?.any p || cs.getLast?.any p
  if cs.contains '\n' then
    if special || cs.getLast?.any space then .double else .block
  else if !isTyped s && !special && !cs.any isBreak && !atEdge space && !startsSpecial cs &&
      !hasIndicator cs then .plain
  else if special || hasPair isBreak space cs then .double
  else .single

/-! ### Writing -/

def spaces (n : Nat) : List Char := List.replicate n ' '

/-- The lines of a text, each indented, from a place at the start of a line or not. Empty lines
are not indented. -/
def indentLines (indent : Nat) (lineStart : Bool) : List Char → List Char
  | [] => []
  | c :: s =>
    if isBreak c then c :: indentLines indent true s
    else (if lineStart then spaces indent else []) ++ c :: indentLines indent false s

/-- A digit of a hexadecimal number. -/
def upperHexDigit (n : Nat) : Char := if n < 10 then Char.ofNat (48 + n) else Char.ofNat (55 + n)

/-- The last `count` digits of a number in base 16. -/
def hexDigits : Nat → Nat → List Char
  | 0, _ => []
  | count + 1, n => hexDigits count (n / 16) ++ [upperHexDigit (n % 16)]

/-- One character as it stands between double quotes. -/
def escapeChar (c : Char) : List Char :=
  match c with
  | '\x00' => ['\\', '0']
  | '\x07' => ['\\', 'a']
  | '\x08' => ['\\', 'b']
  | '\t' => ['\\', 't']
  | '\n' => ['\\', 'n']
  | '\x0B' => ['\\', 'v']
  | '\x0C' => ['\\', 'f']
  | '\r' => ['\\', 'r']
  | '\x1B' => ['\\', 'e']
  | '"' => ['\\', '"']
  | '\\' => ['\\', '\\']
  | '\u0085' => ['\\', 'N']
  | '\u2028' => ['\\', 'L']
  | '\u2029' => ['\\', 'P']
  | c =>
    let n := c.toNat
    if isShown c then [c]
    else if n ≤ 0xFF then '\\' :: 'x' :: hexDigits 2 n
    else if n ≤ 0xFFFF then '\\' :: 'u' :: hexDigits 4 n
    else '\\' :: 'U' :: hexDigits 8 n

/-- The sign for what becomes of the line breaks at the end of a block. -/
def chomping (s : List Char) : List Char :=
  match s.reverse with
  | a :: more => if !isBreak a then ['-'] else if more.head?.all isBreak then ['+'] else []
  | [] => ['-']

/-- A text with the end of its line, where further lines are indented by `indent`. -/
def scalar (indent : Nat) (s : String) : String :=
  let cs := s.toList
  String.ofList <| match styleOf s with
    | .plain => cs ++ ['\n']
    | .single =>
      let quoted := cs.flatMap fun c => if c == '\'' then ['\'', '\''] else [c]
      let closing := if cs.getLast?.any isBreak then spaces indent else []
      '\'' :: indentLines indent false quoted ++ closing ++ ['\'', '\n']
    | .double => '"' :: cs.flatMap escapeChar ++ ['"', '\n']
    | .block =>
      let hint := if cs.head?.any fun c => c == ' ' || isBreak c then ['2'] else []
      '|' :: hint ++ chomping cs ++ '\n' :: indentLines indent true cs ++
        (if cs.getLast?.any isBreak then [] else ['\n'])

def margin (n : Nat) : String := String.ofList (spaces n)

mutual

/-- What stands behind the colon of a member at the indentation `n`. -/
def afterColon (n : Nat) : Outline → String
  | .null => " null\n"
  | .flag value => if value then " true\n" else " false\n"
  | .text value => " " ++ scalar (n + 2) value
  | .items [] => " []\n"
  | .items xs => "\n" ++ itemLines n xs
  | .members ms => "\n" ++ memberLines (n + 2) ms
  | .variant kind value => " !" ++ kind ++ afterColon n value

/-- What stands behind the dash of an item at the indentation `n`. -/
def afterDash (n : Nat) : Outline → String
  | .null => "null\n"
  | .flag value => if value then "true\n" else "false\n"
  | .text value => scalar (n + 2) value
  | .items [] => "[]\n"
  | .items (x :: xs) => "- " ++ afterDash (n + 2) x ++ itemLines (n + 2) xs
  | .members [] => "\x7b\x7d\n"
  | .members ((name, x) :: ms) =>
    name ++ ":" ++ afterColon (n + 2) x ++ memberLines (n + 2) ms
  | .variant kind value => "!" ++ kind ++ afterColon n value

def itemLines (n : Nat) : List Outline → String
  | [] => ""
  | x :: xs => margin n ++ "- " ++ afterDash n x ++ itemLines n xs

def memberLines (n : Nat) : List (String × Outline) → String
  | [] => ""
  | (name, x) :: ms => margin n ++ name ++ ":" ++ afterColon n x ++ memberLines n ms

end

/-- The outline as a YAML document. -/
def document : Outline → String
  | .members ms => memberLines 0 ms
  | .items xs => itemLines 0 xs
  | x => afterDash 0 x

end Yaml

def toYaml (x : Outline) : String := Yaml.document x

end Datamodel.Outline
