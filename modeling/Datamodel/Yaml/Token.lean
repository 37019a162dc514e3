import Datamodel.Yaml.Scalar

/-! The tokens of YAML.

Indentation is made explicit: a block of items or members has a token where it starts and one where
it ends. A key that is not marked as one is known only by the colon behind it, so a place where a
key may have started is kept until that is settled. -/

namespace Datamodel.Yaml

inductive Token where
  | version (major minor : Nat)
  /-- The directive that gives a handle its meaning. -/
  | handle (name text : String)
  | documentStart
  | documentEnd
  | itemsStart
  | membersStart
  | blockEnd
  | openBracket
  | closeBracket
  | openBrace
  | closeBrace
  | item
  | comma
  | key
  | value
  | alias (anchor : Nat)
  | anchor (number : Nat)
  | tag (handle rest : String)
  | scalar (text : String) (plain : Bool)
  deriving DecidableEq, Repr

/-- A place in a document. -/
structure Mark where
  index : Nat := 0
  line : Nat := 0
  column : Nat := 0
  deriving DecidableEq, Repr

def Mark.next (m : Mark) (c : Char) : Mark :=
  if isBreak c then { index := m.index + 1, line := m.line + 1, column := 0 }
  else { m with index := m.index + 1, column := m.column + 1 }

/-- A place where a key may have started. -/
structure KeyStart where
  /-- Whether there has to be a key: nothing else can stand at the indentation of members. -/
  required : Bool
  /-- The number of tokens before it. -/
  token : Nat
  mark : Mark
  deriving DecidableEq, Repr

/-- How far a document has been cut into tokens. -/
structure Layout where
  rest : List Char
  mark : Mark := {}
  tokens : List Token := []
  /-- The column of the innermost block. -/
  indent : Int := -1
  /-- The columns of the blocks around it, from the inside out. -/
  around : List Int := []
  /-- Where a key may have started inside the innermost brackets. -/
  start : Option KeyStart := none
  /-- The same for what is around them; outside of all brackets there is nothing around. -/
  starts : List (Option KeyStart) := []
  /-- Whether a key may start here. -/
  keyAllowed : Bool := true
  /-- The names of anchors so far, and what they mean here. -/
  anchors : List (String × Nat) := []

namespace Layout

/-- Whether this is inside of brackets. -/
def inFlow (l : Layout) : Bool := !l.starts.isEmpty

/-- Moves on to the text `rest`, which is a part of the text that is left. -/
def moveTo (l : Layout) (rest : List Char) : Layout :=
  { l with
    rest
    mark := (l.rest.take (l.rest.length - rest.length)).foldl Mark.next l.mark }

def skip (l : Layout) (count : Nat) : Layout := l.moveTo (l.rest.drop count)

def add (l : Layout) (t : Token) : Layout := { l with tokens := l.tokens ++ [t] }

/-- Skips blanks, comments and line breaks. Where a key may start, a tab is no blank. A byte order
mark in front of the document takes a column. -/
def skipBlanks (inFlow comment keyAllowed : Bool) (m : Mark) :
    List Char → List Char × Mark × Bool
  | [] => ([], m, keyAllowed)
  | c :: s =>
    if isBreak c then skipBlanks inFlow false (keyAllowed || !inFlow) (m.next c) s
    else if comment || c == '#' then skipBlanks inFlow true keyAllowed (m.next c) s
    else if c == ' ' || (c == '\t' && (inFlow || !keyAllowed)) || (c == '\uFEFF' && m.index == 0)
    then skipBlanks inFlow false keyAllowed (m.next c) s
    else (c :: s, m, keyAllowed)

def toNext (l : Layout) : Layout :=
  let (rest, mark, keyAllowed) := skipBlanks l.inFlow false l.keyAllowed l.mark l.rest
  { l with rest, mark, keyAllowed }

/-! ### Keys and indentation -/

/-- Gives up the place where a key may have started. -/
def dropStart (l : Layout) : Option Layout :=
  if l.start.any (·.required) then none else some { l with start := none }

/-- Keeps this place, if a key may start here. -/
def saveStart (l : Layout) : Option Layout :=
  if l.keyAllowed then do
    let required := !l.inFlow && l.indent == (l.mark.column : Int)
    let l ← l.dropStart
    return { l with start := some { required, token := l.tokens.length, mark := l.mark } }
  else some l

/-- The place where a key started, now that its colon has come. A key stands on one line and is not
longer than 1024 characters. -/
def keyStart? (l : Layout) : Option (Option KeyStart) :=
  match l.start with
  | none => some none
  | some k =>
    if k.mark.line == l.mark.line && l.mark.index ≤ k.mark.index + 1024 then some (some k)
    else if k.required then none
    else some none

/-- Opens a block at a column behind that of the block it is in, with a token that is put before
the token `number`. -/
def openBlock (l : Layout) (column : Nat) (number : Nat) (t : Token) : Layout :=
  if l.inFlow || (column : Int) ≤ l.indent then l
  else { l with
    indent := column
    around := l.indent :: l.around
    tokens := l.tokens.insertIdx number t }

/-- The tokens that end the blocks behind a column, and the columns of the blocks that stay. -/
def closed (column indent : Int) : List Int → List Token × Int × List Int
  | [] => ([], indent, [])
  | outer :: more =>
    if column < indent then
      let (tokens, indent, around) := closed column outer more
      (.blockEnd :: tokens, indent, around)
    else ([], indent, outer :: more)

def closeBlocks (l : Layout) (column : Int) : Layout :=
  if l.inFlow then l
  else
    let (tokens, indent, around) := closed column l.indent l.around
    { l with tokens := l.tokens ++ tokens, indent, around }

/-! ### Indicators -/

/-- A token of `count` characters at the start of a line, which ends all blocks. -/
def documentMark (l : Layout) (t : Token) (count : Nat) : Option Layout := do
  let l ← (l.closeBlocks (-1)).dropStart
  return ({ l with keyAllowed := false }.skip count).add t

def openFlow (l : Layout) (t : Token) : Option Layout := do
  let l ← l.saveStart
  return ({ l with start := none, starts := l.start :: l.starts, keyAllowed := true }.skip 1).add t

def closeFlow (l : Layout) (t : Token) : Option Layout := do
  let l ← l.dropStart
  let l := match l.starts with
    | [] => l
    | start :: starts => { l with start, starts }
  return ({ l with keyAllowed := false }.skip 1).add t

def flowComma (l : Layout) : Option Layout := do
  let l ← l.dropStart
  return ({ l with keyAllowed := true }.skip 1).add .comma

def blockItem (l : Layout) : Option Layout := do
  if !l.inFlow && !l.keyAllowed then none
  let l ← (l.openBlock l.mark.column l.tokens.length .itemsStart).dropStart
  return ({ l with keyAllowed := true }.skip 1).add .item

def explicitKey (l : Layout) : Option Layout := do
  if !l.inFlow && !l.keyAllowed then none
  let l ← (l.openBlock l.mark.column l.tokens.length .membersStart).dropStart
  return ({ l with keyAllowed := !l.inFlow }.skip 1).add .key

/-- A colon: it makes what came before it a key, or else it follows a key that is marked as one. -/
def memberValue (l : Layout) : Option Layout := do
  let l ← match ← l.keyStart? with
    | some k =>
      let l := { l with tokens := l.tokens.insertIdx k.token .key, start := none }
      some { l.openBlock k.mark.column k.token .membersStart with keyAllowed := false }
    | none => do
      if !l.inFlow && !l.keyAllowed then none
      let l := l.openBlock l.mark.column l.tokens.length .membersStart
      some { l with start := none, keyAllowed := !l.inFlow }
  return (l.skip 1).add .value

/-! ### Directives, anchors and tags -/

/-- The number at the start of a text, of nine digits at most, and the text after it. -/
def readNumber (s : List Char) : Option (Nat × List Char) :=
  let digits := s.takeWhile Char.isDigit
  if digits.isEmpty || 9 < digits.length then none
  else some (digits.foldl (fun n c => 10 * n + (c.toNat - '0'.toNat)) 0, s.dropWhile Char.isDigit)

/-- The octet that a percent sign and two hexadecimal digits stand for. -/
def octet? : List Char → Option UInt8
  | '%' :: s => (Text.hexPrefix? 2 s).map Nat.toUInt8
  | _ => none

/-- The octets after the first one of a character in UTF-8, which is followed by `count` more. -/
def moreOctets (count : Nat) (s : List Char) : Option (List UInt8 × List Char) :=
  match count with
  | 0 => some ([], s)
  | count + 1 => do
    let b ← octet? s
    if b &&& 0xC0 != 0x80 then none
    let (bs, rest) ← moreOctets count (s.drop 3)
    return (b :: bs, rest)

/-- Reads a character that is written as its octets, each after a percent sign. -/
def readEscaped (s : List Char) : Option (List Char × List Char) := do
  let b ← octet? s
  let count ← if b &&& 0x80 == 0 then some 0
    else if b &&& 0xE0 == 0xC0 then some 1
    else if b &&& 0xF0 == 0xE0 then some 2
    else if b &&& 0xF8 == 0xF0 then some 3
    else none
  let (bs, rest) ← moreOctets count (s.drop 3)
  let text ← String.fromUTF8? ⟨(b :: bs).toArray⟩
  return (text.toList, rest)

/-- The characters of tags. Between angle brackets there are three more of them. -/
def isTagChar (verbatim : Bool) (c : Char) : Bool :=
  isNameChar c || c ∈ ";/?:@&=+$.%!~*'()".toList || (verbatim && c ∈ [',', '[', ']'])

/-- Reads the characters of a tag, and the text after them. -/
def readTagText (verbatim : Bool) (s : List Char) : Option (List Char × List Char) :=
  match s with
  | [] => some ([], [])
  | c :: s =>
    if c == '%' then
      match readEscaped (c :: s) with
      | none => none
      | some (text, rest) =>
        if rest.length ≤ s.length then
          (readTagText verbatim rest).map fun (more, rest) => (text ++ more, rest)
        else none
    else if isTagChar verbatim c then
      (readTagText verbatim s).map fun (more, rest) => (c :: more, rest)
    else some ([], c :: s)
termination_by s.length
decreasing_by all_goals (simp_wf; try omega)

/-- Reads the handle of a directive: an exclamation mark, alone or with a second one behind a
name. -/
def readHandle (s : List Char) : Option (List Char × List Char) :=
  match s with
  | '!' :: s =>
    let name := s.takeWhile isNameChar
    match s.dropWhile isNameChar with
    | '!' :: rest => some ('!' :: name ++ ['!'], rest)
    | rest => if name.isEmpty then some (['!'], rest) else none
  | _ => none

/-- The rest of the line of a directive: blanks and a comment. -/
def endOfDirective? (s : List Char) : Option (List Char) :=
  let s := s.dropWhile isBlank
  let s := if s.head? = some '#' then s.dropWhile (!isBreak ·) else s
  match s with
  | [] => some []
  | c :: s => if isBreak c then some s else none

/-- Reads a directive from after its percent sign, and the text after its line. -/
def readDirective (s : List Char) : Option (Token × List Char) := do
  let name := s.takeWhile isNameChar
  let s := s.dropWhile isNameChar
  if !atGap s then none
  let s := s.dropWhile isBlank
  if name == "YAML".toList then
    let (major, s) ← readNumber s
    if s.head? ≠ some '.' then none
    let (minor, s) ← readNumber (s.drop 1)
    return (.version major minor, ← endOfDirective? s)
  else if name == "TAG".toList then
    let (name, s) ← readHandle s
    if !s.head?.any isBlank then none
    let (text, s) ← readTagText true (s.dropWhile isBlank)
    if text.isEmpty || !atGap s then none
    return (.handle (String.ofList name) (String.ofList text), ← endOfDirective? s)
  else none

/-- Reads the name of an anchor, and the text after it. -/
def readAnchor (s : List Char) : Option (String × List Char) :=
  let name := s.takeWhile isNameChar
  let rest := s.dropWhile isNameChar
  if name.isEmpty || !(atGap rest || rest.head?.any (· ∈ "?:,]\x7d%@`".toList)) then none
  else some (String.ofList name, rest)

/-- Reads a tag from after its exclamation mark, and the text after it. -/
def readTag (inFlow : Bool) (s : List Char) : Option (Token × List Char) := do
  let (handle, text, rest) ← match s with
    | '<' :: s => do
      let (text, rest) ← readTagText true s
      if text.isEmpty || rest.head? ≠ some '>' then none
      some ([], text, rest.drop 1)
    | s =>
      let name := s.takeWhile isNameChar
      match s.dropWhile isNameChar with
      | '!' :: rest => do
        let (text, rest) ← readTagText false rest
        if text.isEmpty then none
        some ('!' :: name ++ ['!'], text, rest)
      | rest => do
        let (text, rest) ← readTagText false rest
        if (name ++ text).isEmpty then some ([], ['!'], rest)
        else some (['!'], name ++ text, rest)
  if !(atGap rest || (inFlow && rest.head? = some ',')) then none
  return (.tag (String.ofList handle) (String.ofList text), rest)

/-! ### The tokens of a document -/

/-- Adds a token that may start a key, and moves on to the text after it. -/
def addStarting (l : Layout) (read : Option (Token × List Char)) : Option Layout := do
  let l ← l.saveStart
  let (t, rest) ← read
  return ({ l with keyAllowed := false }.moveTo rest).add t

/-- Adds an anchor. It is numbered by the names before it. -/
def addAnchor (l : Layout) (s : List Char) : Option Layout := do
  let (name, rest) ← readAnchor s
  let number := l.anchors.length
  let l ← l.addStarting (some (.anchor number, rest))
  return { l with anchors := (name, number) :: l.anchors.filter (·.1 != name) }

/-- Adds an alias, which names an anchor before it. -/
def addAlias (l : Layout) (s : List Char) : Option Layout := do
  let (name, rest) ← readAnchor s
  l.addStarting (some (.alias (← l.anchors.lookup name), rest))

def addScalar (l : Layout) (read : Option (List Char × List Char)) : Option Layout :=
  l.addStarting (read.map fun (text, rest) => (.scalar (String.ofList text) false, rest))

/-- Adds a plain scalar. Behind its last line a key may start. -/
def addPlain (l : Layout) : Option Layout := do
  let l ← l.saveStart
  let (text, gap, rest) ← readPlain l.inFlow (l.indent + 1).toNat l.mark.column {} l.rest
  return ({ l with keyAllowed := gap.hasBreak }.moveTo rest).add (.scalar (String.ofList text) true)

def addBlock (l : Layout) (folded : Bool) : Option Layout := do
  let l ← l.dropStart
  let (text, rest) ← readBlock folded l.indent (l.rest.drop 1)
  return ({ l with keyAllowed := true }.moveTo rest).add (.scalar (String.ofList text) false)

/-- Whether a plain scalar starts with `c`, with `s` after it. -/
def startsPlain (inFlow : Bool) (c : Char) (s : List Char) : Bool :=
  c ∉ "\t-?:,[]\x7b\x7d#&*!|>'\"%@`".toList || (c == '-' && !s.head?.any isBlank) ||
    (!inFlow && (c == '?' || c == ':') && !atGap s)

/-- Reads the token that starts with `c`, with `s` after it. -/
def readToken (l : Layout) (c : Char) (s : List Char) : Option Layout :=
  if l.mark.column == 0 && c == '%' then do
    let l ← (l.closeBlocks (-1)).dropStart
    let (t, rest) ← readDirective s
    return ({ l with keyAllowed := false }.moveTo rest).add t
  else if l.mark.column == 0 && atDocumentMark (c :: s) then
    l.documentMark (if c == '-' then .documentStart else .documentEnd) 3
  else match c with
    | '[' => l.openFlow .openBracket
    | '{' => l.openFlow .openBrace
    | ']' => l.closeFlow .closeBracket
    | '}' => l.closeFlow .closeBrace
    | ',' => l.flowComma
    | '*' => l.addAlias s
    | '&' => l.addAnchor s
    | '!' => l.addStarting (readTag l.inFlow s)
    | '\'' => l.addScalar (readSingle false {} s)
    | '"' => l.addScalar (readDouble false {} s)
    | c =>
      if c == '-' && atGap s then l.blockItem
      else if c == '?' && (l.inFlow || atGap s) then l.explicitKey
      else if c == ':' && (l.inFlow || atGap s) then l.memberValue
      else if c == '|' && !l.inFlow then l.addBlock false
      else if c == '>' && !l.inFlow then l.addBlock true
      else if startsPlain l.inFlow c s then l.addPlain
      else none

/-- The end of the document: all blocks end, and no key is missing. -/
def finish (l : Layout) : Option (List Token) := do
  let l ← (l.closeBlocks (-1)).dropStart
  return l.tokens

/-- Reads token after token. Each of them has to take a character. -/
def run (l : Layout) : Option (List Token) :=
  let l' := l.toNext.closeBlocks l.toNext.mark.column
  match l'.rest with
  | [] => l'.finish
  | c :: s =>
    match l'.readToken c s with
    | none => none
    | some l'' => if l''.rest.length < l.rest.length then l''.run else none
termination_by l.rest.length

end Layout

/-- The tokens of a document. -/
def tokens (s : List Char) : Option (List Token) :=
  if s.all isAllowed then Layout.run { rest := normalize s } else none

end Datamodel.Yaml
