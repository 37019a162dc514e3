/-! Blank characters, by the Unicode property `White_Space`, and trimming them off a text.

The class is wider than the ASCII blanks: a no-break space or a line separator at the edge of a
line is trimmed as a space is. -/

namespace Datamodel.Text

/-- The code points with the Unicode property `White_Space`. -/
def isBlank (c : Char) : Bool :=
  let n := c.toNat
  (0x9 ≤ n && n ≤ 0xD) || n == 0x20 || n == 0x85 || n == 0xA0 || n == 0x1680 ||
    (0x2000 ≤ n && n ≤ 0x200A) || n == 0x2028 || n == 0x2029 || n == 0x202F || n == 0x205F ||
    n == 0x3000

/-- Every ASCII blank is blank. -/
theorem isBlank_of_isWhitespace {c : Char} (h : c.isWhitespace = true) : isBlank c = true := by
  simp only [Char.isWhitespace, Bool.or_eq_true, decide_eq_true_eq] at h
  rcases h with ((rfl | rfl) | rfl) | rfl <;> decide

def trimLeft (s : List Char) : List Char := s.dropWhile isBlank

def trimRight (s : List Char) : List Char := (s.reverse.dropWhile isBlank).reverse

def trim (s : List Char) : List Char := trimRight (trimLeft s)

/-- A text of blanks only, the empty text included. -/
def allBlank (s : List Char) : Bool := s.all isBlank

theorem trimLeft_eq_nil_iff {s : List Char} : trimLeft s = [] ↔ allBlank s = true := by
  induction s with
  | nil => simp [trimLeft, allBlank]
  | cons c s ih => by_cases h : isBlank c <;> simp_all [trimLeft, allBlank]

/-- What is trimmed away on the left is blank. -/
theorem exists_trimLeft (s : List Char) : ∃ b, allBlank b = true ∧ s = b ++ trimLeft s :=
  ⟨s.takeWhile isBlank, by simp [allBlank], by simp [trimLeft]⟩

/-- What is trimmed away on the right is blank. -/
theorem exists_trimRight (s : List Char) : ∃ b, allBlank b = true ∧ s = trimRight s ++ b := by
  obtain ⟨b, hb, h⟩ := exists_trimLeft s.reverse
  refine ⟨b.reverse, by simpa [allBlank] using hb, ?_⟩
  have := congrArg List.reverse h
  simpa [trimRight, trimLeft] using this

/-- `s` without its leading byte order mark, if it has one. -/
def dropMark : List Char → List Char
  | '\uFEFF' :: s => s
  | s => s

end Datamodel.Text
