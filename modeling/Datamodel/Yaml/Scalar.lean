import Datamodel.Text.Hex

/-! The scalars of YAML: how a text is written plain, between quotes, and as a block of lines.

All readers work on a text whose line ends have been made alike by `normalize`. Where lines are
folded, a single line break stands for a space and several for one less. -/

namespace Datamodel.Yaml

/-! ### Characters -/

/-- The characters that a document may hold. -/
def isAllowed (c : Char) : Bool :=
  let n := c.toNat
  n == 0x9 || n == 0xA || n == 0xD || (0x20 ≤ n && n ≤ 0x7E) || n == 0x85 ||
    (0xA0 ≤ n && n ≤ 0xFFFD) || 0x10000 ≤ n

/-- The text with a line feed for each carriage return, next line, and pair of carriage return and
line feed. -/
def normalize : List Char → List Char
  | '\r' :: '\n' :: s => '\n' :: normalize s
  | '\r' :: s | '\u0085' :: s => '\n' :: normalize s
  | c :: s => c :: normalize s
  | [] => []

def isBreak (c : Char) : Bool := c == '\n' || c == '\u2028' || c == '\u2029'

def isBlank (c : Char) : Bool := c == ' ' || c == '\t'

/-- The characters of anchors, handles and names of directives. -/
def isNameChar (c : Char) : Bool := c.isAlphanum || c == '_' || c == '-'

/-- Whether a blank, a line break or the end of the text comes next. -/
def atGap (s : List Char) : Bool := s.head?.all fun c => isBlank c || isBreak c

/-- Whether a line starts with the mark that begins or ends a document. -/
def atDocumentMark : List Char → Bool
  | '-' :: '-' :: '-' :: s | '.' :: '.' :: '.' :: s => atGap s
  | _ => false

/-! ### Gaps between words -/

/-- The blanks and line breaks between two words of a scalar. Blanks count up to the first line
break. -/
structure Gap where
  blanks : List Char := []
  /-- Whether the gap starts with a line break that a backslash takes away. -/
  escaped : Bool := false
  breaks : List Char := []

namespace Gap

def hasBreak (g : Gap) : Bool := g.escaped || !g.breaks.isEmpty

def isEmpty (g : Gap) : Bool := g.blanks.isEmpty && !g.hasBreak

def addBlank (g : Gap) (c : Char) : Gap :=
  if g.hasBreak then g else { g with blanks := g.blanks ++ [c] }

def addBreak (g : Gap) (c : Char) : Gap := { g with breaks := g.breaks ++ [c] }

/-- What the gap stands for. -/
def text (g : Gap) : List Char :=
  if g.escaped then g.breaks
  else match g.breaks with
    | [] => g.blanks
    | ['\n'] => [' ']
    | '\n' :: more => more
    | breaks => breaks

end Gap

/-! ### Plain scalars -/

/-- Whether a plain scalar ends before `c`, with `s` after it. Inside brackets it ends before more
characters than outside. -/
def endsPlain (flow : Bool) (c : Char) (s : List Char) : Bool :=
  (c == ':' && atGap s) || (flow && c ∈ [',', '[', ']', '{', '}'])

/-- Reads a plain scalar that starts on `column`: its text, the gap behind its last word, and the
text after that. Outside of brackets, its lines start on the column `indent` or behind it. -/
def readPlain (flow : Bool) (indent column : Nat) (gap : Gap) :
    List Char → Option (List Char × Gap × List Char)
  | [] => some ([], gap, [])
  | c :: s =>
    if isBlank c then
      if c == '\t' && gap.hasBreak && column < indent then none
      else readPlain flow indent (column + 1) (gap.addBlank c) s
    else if isBreak c then readPlain flow indent 0 (gap.addBreak c) s
    else if !gap.isEmpty && ((!flow && column < indent) || c == '#' ||
        (column == 0 && atDocumentMark (c :: s))) then some ([], gap, c :: s)
    else if flow && c == ':' && s.head?.any (· ∈ [',', '?', '[', ']', '{', '}']) then none
    else if endsPlain flow c s then some ([], gap, c :: s)
    else (readPlain flow indent (column + 1) {} s).map fun (text, gap', rest) =>
      (gap.text ++ c :: text, gap', rest)

/-! ### Quoted scalars -/

/-- The characters that an escape of one letter stands for. -/
def escapedChar? : Char → Option Char
  | '0' => some '\x00'
  | 'a' => some '\x07'
  | 'b' => some '\x08'
  | 't' | '\t' => some '\t'
  | 'n' => some '\n'
  | 'v' => some '\x0B'
  | 'f' => some '\x0C'
  | 'r' => some '\r'
  | 'e' => some '\x1B'
  | ' ' => some ' '
  | '"' => some '"'
  | '/' => some '/'
  | '\\' => some '\\'
  | 'N' => some '\u0085'
  | '_' => some '\u00A0'
  | 'L' => some '\u2028'
  | 'P' => some '\u2029'
  | _ => none

/-- How many hexadecimal digits follow the letter of an escape. -/
def escapeDigits : Char → Nat
  | 'x' => 2
  | 'u' => 4
  | 'U' => 8
  | _ => 0

/-- The character that an escape stands for, given its letter and the text after that. -/
def escape? (letter : Char) (s : List Char) : Option Char :=
  match escapeDigits letter with
  | 0 => escapedChar? letter
  | count => (Text.hexPrefix? count s).bind Text.charOfCode?

/-- Reads a scalar between double quotes from after its opening quote: its text, and the text
after it. -/
def readDouble (lineStart : Bool) (gap : Gap) (s : List Char) :
    Option (List Char × List Char) :=
  match s with
  | [] => none
  | c :: s =>
    if isBlank c then readDouble false (gap.addBlank c) s
    else if isBreak c then readDouble true (gap.addBreak c) s
    else if lineStart && atDocumentMark (c :: s) then none
    else if c == '"' then some (gap.text, s)
    else if c == '\\' then
      match s with
      | [] => none
      | e :: s =>
        let rest := if isBreak e then readDouble true { escaped := true } s
          else do
            let d ← escape? e s
            let (text, rest) ← readDouble false {} (s.drop (escapeDigits e))
            return (d :: text, rest)
        rest.map fun (text, rest) => (gap.text ++ text, rest)
    else (readDouble false {} s).map fun (text, rest) => (gap.text ++ c :: text, rest)
termination_by s.length
decreasing_by all_goals (simp; try omega)

/-- Reads a scalar between single quotes from after its opening quote: its text, and the text
after it. A quote is written twice. -/
def readSingle (lineStart : Bool) (gap : Gap) : List Char → Option (List Char × List Char)
  | [] => none
  | c :: s =>
    if isBlank c then readSingle false (gap.addBlank c) s
    else if isBreak c then readSingle true (gap.addBreak c) s
    else if lineStart && atDocumentMark (c :: s) then none
    else match c, s with
      | '\'', '\'' :: s => (readSingle false {} s).map fun (text, rest) =>
        (gap.text ++ '\'' :: text, rest)
      | '\'', s => some (gap.text, s)
      | c, s => (readSingle false {} s).map fun (text, rest) => (gap.text ++ c :: text, rest)

/-! ### Block scalars -/

/-- What becomes of the line breaks at the end of a block. -/
inductive Chomping where
  | strip
  | clip
  | keep
  deriving DecidableEq, Repr

def Chomping.ofChar? : Char → Option Chomping
  | '-' => some .strip
  | '+' => some .keep
  | _ => none

/-- Reads the indicators of a block: its chomping, how much it is indented, if that is said, and
the text after the line. -/
def readBlockHeader (s : List Char) : Option (Chomping × Option Nat × List Char) := do
  let chomp (s : List Char) : Option Chomping × List Char :=
    match s.head?.bind Chomping.ofChar? with
    | some chomping => (some chomping, s.drop 1)
    | none => (none, s)
  let digit (s : List Char) : Option Nat × List Char :=
    match s with
    | c :: s => if c.isDigit then (some (c.toNat - '0'.toNat), s) else (none, c :: s)
    | [] => (none, [])
  let (before, s) := chomp s
  let (increment, s) := digit s
  let (after, s) := if before.isSome then (none, s)
    else if increment.isSome then chomp s else (none, s)
  if increment = some 0 then none
  let s := s.dropWhile isBlank
  let s := if s.head? = some '#' then s.dropWhile (!isBreak ·) else s
  match s with
  | [] => return ((before.or after).getD .clip, increment, [])
  | c :: s =>
    if isBreak c then return ((before.or after).getD .clip, increment, s) else none

/-- Skips the indentation of a block and its empty lines: the line breaks, the largest column, the
column of what comes next, and the text from there on. Indentation ends on the column `limit`, if
there is one. -/
def skipIndentation (limit : Option Nat) (column largest : Nat) :
    List Char → Option (List Char × Nat × Nat × List Char)
  | [] => some ([], max largest column, column, [])
  | c :: s =>
    let inside := limit.all (column < ·)
    if c == ' ' && inside then skipIndentation limit (column + 1) largest s
    else if c == '\t' && inside then none
    else if isBreak c then
      (skipIndentation limit 0 (max largest column) s).map fun (breaks, more) => (c :: breaks, more)
    else some ([], max largest column, column, c :: s)

/-- The lines of a block that is indented to the column `indent`: their text, the line break at
the end of the last line, those after it, and the text after the block. `before` is the line break
before a line, `empty` are those of the empty lines after that one, and `blank` tells whether the
line before starts with a blank. -/
def readBlockLines (folded : Bool) (indent : Nat) (before empty : List Char) (blank : Bool)
    (column : Nat) (s : List Char) : Option (List Char × List Char × List Char × List Char) :=
  if column ≠ indent ∨ s = [] then some ([], before, empty, s)
  else
    let startsBlank := s.head?.any isBlank
    let between :=
      if folded && before == ['\n'] && !blank && !startsBlank then
        if empty.isEmpty then [' '] else empty
      else before ++ empty
    let line := s.takeWhile (!isBreak ·)
    let after := s.dropWhile (!isBreak ·)
    match skipIndentation (some indent) 0 0 (after.drop 1) with
    | none => none
    | some (empty', _, column', rest) =>
      if rest.length < s.length then
        (readBlockLines folded indent (after.take 1) empty' startsBlank column' rest).map
          fun (text, more) => (between ++ line ++ text, more)
      else none
termination_by s.length

/-- Reads a block scalar from after its first indicator: its text, and the text after it. `parent`
is the indentation of what it stands in, less one if that has none. -/
def readBlock (folded : Bool) (parent : Int) (s : List Char) : Option (List Char × List Char) := do
  let (chomping, increment, s) ← readBlockHeader s
  let asked := increment.map fun n => if 0 ≤ parent then parent.toNat + n else n
  let (empty, largest, column, s) ← skipIndentation asked 0 0 s
  let indent := asked.getD (max largest (max (parent + 1).toNat 1))
  let (text, last, more, rest) ← readBlockLines folded indent [] empty false column s
  return (text ++ (if chomping = .strip then [] else last) ++
    (if chomping = .keep then more else []), rest)

end Datamodel.Yaml
