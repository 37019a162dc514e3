import Datamodel.Path
import Datamodel.Text.Pattern

/-! Patterns for paths.

In a name `?` stands for one character, `*` for any text, `[ab]`, `[a-c]` and `[!a]` for one
character of a class or outside of it. A name `**` of its own stands for folders, one or more of
them below each other. `Glob.ofText` reads a pattern, and `Glob.fits` tells whether a name fits its
part of one. -/

namespace Datamodel

namespace Glob

/-- Characters of a class. -/
inductive Range where
  | one (c : Char)
  | between (first last : Char)
  deriving DecidableEq, Repr

/-- What stands for the next characters of a name. -/
inductive Item where
  | char (c : Char)
  | anyChar
  | anyText
  | anyFolders
  | within (ranges : List Range)
  | outside (ranges : List Range)
  deriving DecidableEq, Repr

/-- The character that an item stands for, if it stands for one only. -/
def Item.char? : Item → Option Char
  | char c => some c
  | _ => none

/-- What is wrong with a pattern. -/
inductive Fault where
  | wildcards
  | folders
  | range
  deriving DecidableEq, Repr

def Fault.message : Fault → String
  | wildcards => "wildcards are either regular `*` or recursive `**`"
  | folders => "recursive wildcards must form a single path component"
  | range => "invalid range pattern"

/-- What is wrong, and before which character. -/
structure Error where
  position : Nat
  fault : Fault
  deriving DecidableEq, Repr

def Error.message (e : Error) : String :=
  "Pattern syntax error near position " ++ toString e.position ++ ": " ++ e.fault.message

/-! ### Reading -/

/-- The text with its special characters in classes of their own, so that it stands for itself. -/
def escape (s : List Char) : List Char :=
  s.flatMap fun c => if c ∈ ['?', '*', '[', ']'] then ['[', c, ']'] else [c]

/-- The characters of a class, up to the closing bracket, and the text after that. The first
character may be a closing bracket itself. -/
def classBody? : List Char → Option (List Char × List Char)
  | [] => none
  | c :: s =>
    match Text.span (· != ']') s with
    | (cs, ']' :: rest) => some (c :: cs, rest)
    | _ => none

theorem length_of_classBody? {s cs rest : List Char} (h : classBody? s = some (cs, rest)) :
    rest.length < s.length := by
  cases s with
  | nil => simp [classBody?] at h
  | cons c s =>
    simp only [classBody?, Text.span] at h
    split at h
    · next _ rest' heq =>
      simp only [Prod.mk.injEq] at heq
      simp only [Option.some.injEq, Prod.mk.injEq] at h
      have := (List.dropWhile_sublist (l := s) (· != ']')).length_le
      simp only [heq.2, List.length_cons, h.2] at this
      simp only [List.length_cons]
      omega
    · simp at h

/-- The ranges of a class. -/
def ranges : List Char → List Range
  | a :: '-' :: b :: s => .between a b :: ranges s
  | a :: s => .one a :: ranges s
  | [] => []

/-- The class after an opening bracket, and the text after it. -/
def class? : List Char → Option (Item × List Char)
  | '!' :: s => (classBody? s).map fun (cs, rest) => (.outside (ranges cs), rest)
  | s => (classBody? s).map fun (cs, rest) => (.within (ranges cs), rest)

theorem length_of_class? {s rest : List Char} {item : Item} (h : class? s = some (item, rest)) :
    rest.length < s.length := by
  unfold class? at h
  split at h
  · simp only [Option.map_eq_some_iff, Prod.mk.injEq, Prod.exists] at h
    obtain ⟨cs, r, hb, -, rfl⟩ := h
    have := length_of_classBody? hb
    simp only [List.length_cons]
    omega
  · simp only [Option.map_eq_some_iff, Prod.mk.injEq, Prod.exists] at h
    obtain ⟨cs, r, hb, -, rfl⟩ := h
    exact length_of_classBody? hb

/-- The items of a pattern. `position` counts the characters before `s`, and `before` is the last
of them. -/
def readItems (position : Nat) (before : Option Char) (s : List Char) :
    Except Error (List Item) :=
  match s with
  | [] => .ok []
  | '?' :: s => (readItems (position + 1) (some '?') s).map (.anyChar :: ·)
  | '*' :: '*' :: '*' :: _ => .error ⟨position + 2, .wildcards⟩
  | '*' :: '*' :: s =>
    if before = none ∨ before = some '/' then
      match s with
      | [] => .ok [.anyFolders]
      | '/' :: s => (readItems (position + 3) (some '/') s).map (.anyFolders :: ·)
      | _ => .error ⟨position + 2, .folders⟩
    else .error ⟨position - 1, .folders⟩
  | '*' :: s => (readItems (position + 1) (some '*') s).map (.anyText :: ·)
  | '[' :: s =>
    match _h : class? s with
    | some (item, rest) =>
      (readItems (position + 1 + (s.length - rest.length)) (some ']') rest).map (item :: ·)
    | none => .error ⟨position, .range⟩
  | c :: s => (readItems (position + 1) (some c) s).map (.char c :: ·)
termination_by s.length
decreasing_by
  all_goals simp_wf
  any_goals omega
  have := length_of_class? _h
  omega

/-- The items of one name of a pattern. -/
abbrev Part := List Item

/-- Whether the part stands for folders. -/
def Part.isFolders (p : Part) : Bool := p.contains .anyFolders

/-- The name that a part without wildcards stands for. -/
def Part.literal? (p : Part) : Option String :=
  (p.mapM Item.char?).map String.ofList

end Glob

/-- A pattern for paths: one part for each name on the way. -/
structure Glob where
  absolute : Bool
  parts : List Glob.Part
  /-- Whether only folders are meant. -/
  foldersOnly : Bool
  deriving DecidableEq, Repr

namespace Glob

/-- The parts, where one `**` does for several in a row. -/
def mergeFolders : List Part → List Part
  | p :: q :: ps =>
    if p.isFolders && q.isFolders then mergeFolders (q :: ps) else p :: mergeFolders (q :: ps)
  | ps => ps

/-- The texts between slashes. No text follows a slash at the end. -/
def names (s : List Char) : List (List Char) :=
  let pieces := s.splitOn '/'
  if pieces.getLast? = some [] then pieces.dropLast else pieces

/-- Reads a pattern. It is read as a whole first, and then name by name. -/
def ofText (s : List Char) : Except Error Glob := do
  let _ ← readItems 0 none s
  let absolute := s.head? == some '/'
  let parts ← (names (if absolute then s.drop 1 else s)).mapM (readItems 0 none)
  return { absolute, parts := mergeFolders parts, foldersOnly := s.getLast? == some '/' }

/-! ### Fitting -/

def Range.has (c : Char) : Range → Bool
  | one d => c == d
  | between a b => a ≤ c && c ≤ b

/-- Whether a name fits its part of a pattern. -/
def fits : Part → List Char → Bool
  | [], s => s.isEmpty
  | .anyText :: p, [] | .anyFolders :: p, [] => fits p []
  | .anyText :: p, c :: s => fits p (c :: s) || fits (.anyText :: p) s
  | .anyFolders :: p, c :: s => fits p (c :: s) || fits (.anyFolders :: p) s
  | _ :: _, [] => false
  | .char d :: p, c :: s => c == d && fits p s
  | .anyChar :: p, _ :: s => fits p s
  | .within ranges :: p, c :: s => ranges.any (·.has c) && fits p s
  | .outside ranges :: p, c :: s => !ranges.any (·.has c) && fits p s

end Glob

end Datamodel
