import Datamodel.Outline

/-! Outlines as JSON.

Each item and each member stands on a line of its own, two columns behind the brackets around
it. -/

namespace Datamodel.Outline

/-- A digit of a hexadecimal number. -/
def hexDigitChar (n : Nat) : Char := if n < 10 then Char.ofNat (48 + n) else Char.ofNat (87 + n)

/-- One character as it stands inside a JSON text. -/
def jsonChar : Char → List Char
  | '"' => ['\\', '"']
  | '\\' => ['\\', '\\']
  | '\n' => ['\\', 'n']
  | '\r' => ['\\', 'r']
  | '\t' => ['\\', 't']
  | '\x08' => ['\\', 'b']
  | '\x0C' => ['\\', 'f']
  | c =>
    if c.toNat < 0x20 then
      ['\\', 'u', '0', '0', hexDigitChar (c.toNat / 16), hexDigitChar (c.toNat % 16)]
    else [c]

def jsonText (s : String) : String := String.ofList ('"' :: s.toList.flatMap jsonChar ++ ['"'])

/-- A new line, indented by `depth` levels. -/
def jsonLine (depth : Nat) : String := String.ofList ('\n' :: List.replicate (2 * depth) ' ')

/-- The parts between two brackets, each on a line of its own. -/
def jsonBlock (opening closing : String) (depth : Nat) (parts : List String) : String :=
  if parts.isEmpty then opening ++ closing
  else opening ++ ",".intercalate (parts.map (jsonLine (depth + 1) ++ ·)) ++ jsonLine depth ++ closing

mutual

/-- The text of an outline that stands `depth` levels deep. A kind is shown as the name of a single
member. -/
def jsonAt (depth : Nat) : Outline → String
  | .null => "null"
  | .flag value => if value then "true" else "false"
  | .text value => jsonText value
  | .items xs => jsonBlock "[" "]" depth (jsonItems (depth + 1) xs)
  | .members ms => jsonBlock "\x7b" "\x7d" depth (jsonMembers (depth + 1) ms)
  | .variant kind value =>
    jsonBlock "\x7b" "\x7d" depth [jsonText kind ++ ": " ++ jsonAt (depth + 1) value]

def jsonItems (depth : Nat) : List Outline → List String
  | [] => []
  | x :: xs => jsonAt depth x :: jsonItems depth xs

def jsonMembers (depth : Nat) : List (String × Outline) → List String
  | [] => []
  | (name, x) :: ms => (jsonText name ++ ": " ++ jsonAt depth x) :: jsonMembers depth ms

end

/-- The outline as a JSON document. -/
def toJson (x : Outline) : String := jsonAt 0 x ++ "\n"

end Datamodel.Outline
