/-! Reading bytes as a text, whatever they are.

Bytes that begin a character and do not go on as it has to stand for one replacement character, and
so does each byte that begins none. -/

namespace Datamodel.Text

/-- How many bytes follow the first byte of a character, and the range of the next one. -/
def following? (b : UInt8) : Option (Nat × UInt8 × UInt8) :=
  if b < 0x80 then some (0, 0x80, 0xBF)
  else if b < 0xC2 then none
  else if b < 0xE0 then some (1, 0x80, 0xBF)
  else if b == 0xE0 then some (2, 0xA0, 0xBF)
  else if b == 0xED then some (2, 0x80, 0x9F)
  else if b < 0xF0 then some (2, 0x80, 0xBF)
  else if b == 0xF0 then some (3, 0x90, 0xBF)
  else if b < 0xF4 then some (3, 0x80, 0xBF)
  else if b == 0xF4 then some (3, 0x80, 0x8F)
  else none

/-- The bytes at the head of a text that go on with a character: `count` of them at most, the first
one in a range of its own. -/
def goingOn (count : Nat) (lo hi : UInt8) : List UInt8 → List UInt8
  | [] => []
  | b :: bs =>
    match count with
    | 0 => []
    | count + 1 => if lo ≤ b && b ≤ hi then b :: goingOn count 0x80 0xBF bs else []

/-- The text that bytes stand for. -/
def ofBytes (bytes : List UInt8) : List Char :=
  match bytes with
  | [] => []
  | b :: bs =>
    match following? b with
    | none => '\uFFFD' :: ofBytes bs
    | some (count, lo, hi) =>
      let more := goingOn count lo hi bs
      let c := if more.length = count then
          (String.fromUTF8? ⟨(b :: more).toArray⟩).bind fun s => s.toList.head?
        else none
      c.getD '\uFFFD' :: ofBytes (bs.drop more.length)
termination_by bytes.length
decreasing_by all_goals (simp only [List.length_cons, List.length_drop]; omega)

end Datamodel.Text
