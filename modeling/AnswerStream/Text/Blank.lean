/-
  This file defines the white space of text, by the Unicode
  property `White_Space`, and trimming by it.

  Key definitions include:
    * `Text.isBlank`
    * `Text.trimEnd`
    * `Text.trim`
-/

namespace AnswerStream

namespace Text

------------------------------------------------------------
-- White Space
------------------------------------------------------------

/-
  The ranges of code points with the property `White_Space`,
  each as its first and its last code point.
-/
def blankRanges : List (Nat × Nat) :=
  [ (0x9, 0xD), (0x20, 0x20), (0x85, 0x85), (0xA0, 0xA0),
    (0x1680, 0x1680), (0x2000, 0x200A), (0x2028, 0x2029),
    (0x202F, 0x202F), (0x205F, 0x205F), (0x3000, 0x3000) ]

/- A character is blank when it is white space. -/
def isBlank (c : Char) : Bool :=
  blankRanges.any fun r => r.1 ≤ c.toNat && c.toNat ≤ r.2

------------------------------------------------------------
-- Trimming
------------------------------------------------------------

/- Characters without the blank ones in front. -/
def dropBlank (cs : List Char) : List Char :=
  cs.dropWhile isBlank

/- Characters without the blank ones behind. -/
def dropBlankEnd (cs : List Char) : List Char :=
  (cs.reverse.dropWhile isBlank).reverse

/- Text without the white space behind. -/
def trimEnd (s : String) : String :=
  String.ofList (dropBlankEnd s.toList)

/- Text without the white space on both sides. -/
def trim (s : String) : String :=
  String.ofList (dropBlankEnd (dropBlank s.toList))

/- The characters of a trimmed text. -/
theorem toList_trim (s : String) :
    (trim s).toList = dropBlankEnd (dropBlank s.toList) := by
  simp [trim]

end Text

end AnswerStream
