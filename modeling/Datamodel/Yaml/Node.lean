import Datamodel.Yaml.Token

/-! YAML documents.

A document is a tree of scalars, sequences and mappings. An alias stands for the node with the
anchor that it names; it is left in the tree, and `Document.follow` answers with that node. How many
aliases may be followed is limited by the size of the document. -/

namespace Datamodel.Yaml

/-- What is said about a node beside its content. -/
structure Properties where
  anchor : Option Nat := none
  tag : Option String := none
  deriving DecidableEq, Repr

/-- The properties of a scalar that is written out. The tag `!` says nothing about it. -/
def Properties.ofScalar (p : Properties) : Properties :=
  { p with tag := p.tag.filter (· != "!") }

/-- A node. -/
inductive Node where
  | alias (anchor : Nat)
  | scalar (text : String) (plain : Bool) (props : Properties)
  | sequence (items : List Node) (props : Properties)
  | mapping (members : List (Node × Node)) (props : Properties)
  deriving Repr, Inhabited

namespace Node

/-- What stands where a node is left out. -/
def empty : Node := .scalar "" true {}

/-! ### Reading

A reader answers with what it read and the tokens after that. Whatever it reads next has to come
later in the document, and that is what makes the readers end. -/

/-- The meanings of the handles of tags. -/
abbrev Handles := List (String × String)

/-- The tag that a handle and the text behind it make. -/
def tag? (handles : Handles) (handle rest : String) : Option String :=
  if handle.isEmpty then some rest else (handles.lookup handle).map (· ++ rest)

/-- Reads the anchor and the tag of a node, in any order. -/
def readProperties (handles : Handles) : List Token → Option (Properties × List Token)
  | .anchor number :: .tag handle rest :: ts | .tag handle rest :: .anchor number :: ts =>
    (tag? handles handle rest).map fun tag => ({ anchor := some number, tag := some tag }, ts)
  | .anchor number :: ts => some ({ anchor := some number }, ts)
  | .tag handle rest :: ts =>
    (tag? handles handle rest).map fun tag => ({ tag := some tag }, ts)
  | ts => some ({}, ts)

/-- The tokens before which an item of a block may be left out. -/
def endsItem : Token → Bool
  | .item | .blockEnd => true
  | _ => false

/-- The tokens before which a key or a value of a block may be left out. -/
def endsMember : Token → Bool
  | .key | .value | .blockEnd => true
  | _ => false

/-- The same for an item at the indentation of the member that it belongs to. -/
def endsBareItem (t : Token) : Bool := t == .item || endsMember t

/-- The tokens before which a value between braces may be left out. -/
def endsBraced : Token → Bool
  | .comma | .closeBrace => true
  | _ => false

/-- The tokens before which the value of a member between brackets may be left out. -/
def endsBracketed : Token → Bool
  | .comma | .closeBracket => true
  | _ => false

mutual

/-- Reads a node. In a block it may be a block itself, and as part of a member it may be items at
the indentation of the member. -/
def read (handles : Handles) (block bare : Bool) (ts : List Token) : Option (Node × List Token) :=
  match ts with
  | .alias anchor :: rest => some (.alias anchor, rest)
  | ts =>
    match readProperties handles ts with
    | none => none
    | some (p, rest) =>
      if _h : rest.length ≤ ts.length then
        match _h' : rest, block, bare with
        | .scalar text plain :: rest, _, _ => some (.scalar text plain p.ofScalar, rest)
        | .openBracket :: rest, _, _ =>
          (readBracketed handles rest).map fun (items, rest) => (.sequence items p, rest)
        | .openBrace :: rest, _, _ =>
          (readBraced handles rest).map fun (members, rest) => (.mapping members p, rest)
        | .itemsStart :: rest, true, _ =>
          (readItems handles rest).map fun (items, rest) => (.sequence items p, rest)
        | .membersStart :: rest, true, _ =>
          (readMembers handles rest).map fun (members, rest) => (.mapping members p, rest)
        | .item :: rest, _, true =>
          (readBareItems handles (.item :: rest)).map fun (items, rest) => (.sequence items p, rest)
        | rest, _, _ => if rest.length < ts.length then some (.scalar "" true p, rest) else none
      else none
termination_by 4 * ts.length + 1
decreasing_by all_goals (simp only [List.length_cons] at *; omega)

/-- Reads a node that may be left out before the tokens `ends`. -/
def readOptional (handles : Handles) (block bare : Bool) (ends : Token → Bool)
    (ts : List Token) : Option (Node × List Token) :=
  if ts.head?.any ends then some (empty, ts) else read handles block bare ts
termination_by 4 * ts.length + 2

/-- Reads the value behind a key. Where there is no colon, it is left out. -/
def readValue (handles : Handles) (block bare : Bool) (ends : Token → Bool)
    (ts : List Token) : Option (Node × List Token) :=
  match ts with
  | .value :: rest => readOptional handles block bare ends rest
  | ts => some (empty, ts)
termination_by 4 * ts.length
decreasing_by all_goals (simp only [List.length_cons]; omega)

/-- Reads the items of a block, up to its end. -/
def readItems (handles : Handles) (ts : List Token) : Option (List Node × List Token) :=
  match ts with
  | .blockEnd :: rest => some ([], rest)
  | .item :: rest =>
    match readOptional handles true false endsItem rest with
    | none => none
    | some (item, more) =>
      if more.length ≤ rest.length then
        (readItems handles more).map fun (items, rest) => (item :: items, rest)
      else none
  | _ => none
termination_by 4 * ts.length
decreasing_by all_goals (simp only [List.length_cons]; omega)

/-- Reads items at the indentation of the member that they belong to. They end where another token
comes. -/
def readBareItems (handles : Handles) (ts : List Token) : Option (List Node × List Token) :=
  match ts with
  | .item :: rest =>
    match readOptional handles true false endsBareItem rest with
    | none => none
    | some (item, more) =>
      if more.length ≤ rest.length then
        (readBareItems handles more).map fun (items, rest) => (item :: items, rest)
      else none
  | ts => some ([], ts)
termination_by 4 * ts.length
decreasing_by all_goals (simp only [List.length_cons]; omega)

/-- Reads the members of a block, up to its end. -/
def readMembers (handles : Handles) (ts : List Token) :
    Option (List (Node × Node) × List Token) :=
  match ts with
  | .blockEnd :: rest => some ([], rest)
  | .key :: rest =>
    match readOptional handles true true endsMember rest with
    | none => none
    | some (key, more) =>
      if more.length ≤ rest.length then
        match readValue handles true true endsMember more with
        | none => none
        | some (value, more) =>
          if more.length ≤ rest.length then
            (readMembers handles more).map fun (members, rest) => ((key, value) :: members, rest)
          else none
      else none
  | _ => none
termination_by 4 * ts.length
decreasing_by all_goals (simp only [List.length_cons]; omega)

/-- Reads items between brackets, from after the opening one up to the closing one. Two items have
a comma between them, and the last one may have one behind it. -/
def readBracketed (handles : Handles) (ts : List Token) : Option (List Node × List Token) :=
  match ts with
  | .closeBracket :: rest => some ([], rest)
  | ts =>
    match readBracketedItem handles ts with
    | some (item, .closeBracket :: rest) => some ([item], rest)
    | some (item, .comma :: rest) =>
      if rest.length < ts.length then
        (readBracketed handles rest).map fun (items, rest) => (item :: items, rest)
      else none
    | _ => none
termination_by 4 * ts.length + 3

/-- Reads an item between brackets, which may be a single member. Of such a member the key may be
left out, and then the token behind it is left out as well. -/
def readBracketedItem (handles : Handles) (ts : List Token) : Option (Node × List Token) :=
  match ts with
  | .key :: rest =>
    let key? := if rest.head?.any fun t => t == .value || endsBracketed t
      then some (empty, rest.drop 1) else read handles false false rest
    match key? with
    | none => none
    | some (key, more) =>
      if more.length ≤ rest.length then
        (readValue handles false false endsBracketed more).map fun (value, rest) =>
          (.mapping [(key, value)] {}, rest)
      else none
  | ts => read handles false false ts
termination_by 4 * ts.length + 2
decreasing_by all_goals (try simp only [List.length_cons] at *); omega

/-- Reads members between braces, from after the opening one up to the closing one. -/
def readBraced (handles : Handles) (ts : List Token) :
    Option (List (Node × Node) × List Token) :=
  match ts with
  | .closeBrace :: rest => some ([], rest)
  | ts =>
    match readBracedMember handles ts with
    | some (member, .closeBrace :: rest) => some ([member], rest)
    | some (member, .comma :: rest) =>
      if rest.length < ts.length then
        (readBraced handles rest).map fun (members, rest) => (member :: members, rest)
      else none
    | _ => none
termination_by 4 * ts.length + 3

/-- Reads a member between braces. A key that is not marked as one has no value. -/
def readBracedMember (handles : Handles) (ts : List Token) :
    Option ((Node × Node) × List Token) :=
  match ts with
  | .key :: rest =>
    match readOptional handles false false (fun t => t == .value || endsBraced t) rest with
    | none => none
    | some (key, more) =>
      if more.length ≤ rest.length then
        (readValue handles false false endsBraced more).map fun (value, rest) =>
          ((key, value), rest)
      else none
  | ts => (read handles false false ts).map fun (key, rest) => ((key, empty), rest)
termination_by 4 * ts.length + 2
decreasing_by all_goals (try simp only [List.length_cons] at *); omega

end

mutual

/-- The nodes of a tree, each before those in it. -/
def all : Node → List Node
  | .alias anchor => [.alias anchor]
  | .scalar text plain p => [.scalar text plain p]
  | .sequence items p => .sequence items p :: allOf items
  | .mapping members p => .mapping members p :: allOfMembers members

def allOf : List Node → List Node
  | [] => []
  | n :: ns => n.all ++ allOf ns

def allOfMembers : List (Node × Node) → List Node
  | [] => []
  | (key, value) :: members => key.all ++ value.all ++ allOfMembers members

end

mutual

/-- The number of events that a node is made of. What holds others starts and ends with one. -/
def events : Node → Nat
  | .alias _ | .scalar .. => 1
  | .sequence items _ => eventsOf items + 2
  | .mapping members _ => eventsOfMembers members + 2

def eventsOf : List Node → Nat
  | [] => 0
  | n :: ns => n.events + eventsOf ns

def eventsOfMembers : List (Node × Node) → Nat
  | [] => 0
  | (key, value) :: members => key.events + value.events + eventsOfMembers members

end

/-- The number of the anchor of a node. -/
def anchor? : Node → Option Nat
  | .alias _ => none
  | .scalar _ _ p | .sequence _ p | .mapping _ p => p.anchor

end Node

/-- A document: its tree, and the nodes that aliases stand for. -/
structure Document where
  root : Node
  anchors : List (Nat × Node)
  deriving Repr

namespace Document

/-- How many times aliases may be followed. -/
def limit (d : Document) : Nat := 100 * d.root.events

/-- The node that a node stands for. An alias is followed if that may be done once more. -/
def follow (d : Document) : Node → StateT Nat Option Node
  | .alias anchor => fun
    | 0 => none
    | left + 1 => (d.anchors.lookup anchor).map (·, left)
  | node => pure node

/-- The directives of a document: the version may be given once, a handle once, and the handles
with one and with two exclamation marks have a meaning without it. -/
def readDirectives (version : Bool) (handles : Node.Handles) :
    List Token → Option (Node.Handles × List Token)
  | .version major minor :: ts =>
    if version || major != 1 || (minor != 1 && minor != 2) then none
    else readDirectives true handles ts
  | .handle name text :: ts =>
    if (handles.lookup name).isSome then none else readDirectives version ((name, text) :: handles) ts
  | ts => some (handles ++ [("!", "!"), ("!!", "tag:yaml.org,2002:")], ts)

/-- The tokens that end a document without content. -/
def endsContent : Token → Bool
  | .version .. | .handle .. | .documentStart | .documentEnd => true
  | _ => false

/-- Reads a document. There may be no second one in the text. -/
def ofTokens? (ts : List Token) : Option Document := do
  let (handles, content) ← readDirectives false [] ts
  let marked := content.head? == some .documentStart
  if content.length < ts.length && !marked then none
  let content := if marked then content.drop 1 else content
  let (root, rest) ←
    if marked && content.head?.all endsContent then some (Node.empty, content)
    else Node.read handles true false content
  if !rest.all (· == .documentEnd) then none
  return { root, anchors := (root.all.filterMap fun n => n.anchor?.map (·, n)).reverse }

/-- Reads a text that holds one document. -/
def ofText? (s : List Char) : Option Document := do ofTokens? (← tokens s)

end Document

end Datamodel.Yaml
