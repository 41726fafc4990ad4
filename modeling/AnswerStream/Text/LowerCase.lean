import AnswerStream.Text.CaseTable

/-
  This file defines the lower case of text: each character by
  its own mapping, and a capital sigma by its place, since at
  the end of a word it becomes the final small sigma.

  Key definitions include:
    * `Text.lowerChar`
    * `Text.endsWord`
    * `Text.lower`
-/

namespace AnswerStream

namespace Text

------------------------------------------------------------
-- Properties of Letters
------------------------------------------------------------

/- A code point lies in one of the given ranges. -/
def inRanges
    (ranges : List (Nat × Nat))
    (n : Nat) : Bool :=
  ranges.any fun r => r.1 ≤ n && n ≤ r.2

/- A character has a case. -/
def isCased (c : Char) : Bool :=
  inRanges casedRanges c.toNat

/- A character is skipped when the case around it is asked for. -/
def isCaseIgnorable (c : Char) : Bool :=
  inRanges caseIgnorableRanges c.toNat

/- The next character that is not skipped has a case. -/
def meetsCased (cs : List Char) : Bool :=
  match cs.dropWhile isCaseIgnorable with
  | [] => false
  | c :: _ => isCased c

------------------------------------------------------------
-- Lower Case
------------------------------------------------------------

/- The range of capital letters that holds a code point. -/
def lowerRange? (n : Nat) : Option LowerRange :=
  lowerRanges.find? fun r =>
    r.first ≤ n && n ≤ r.last && (n - r.first) % r.step == 0

/- The small letters of one character, wherever it stands. -/
def lowerChar (c : Char) : List Char :=
  if c.toNat = 0x130 then
    ['i', '\u0307']
  else
    match lowerRange? c.toNat with
    | none => [c]
    | some r => [Char.ofNat (c.toNat + r.distance).toNat]

/-
  The capital sigma with the given text behind it (last
  character first) and in front of it stands at the end of a
  word: a cased character comes before it and none after it.
-/
def endsWord
    (before after : List Char) : Bool :=
  meetsCased before && !meetsCased after

/-
  The lower case of characters, after the given ones (last
  character first).
-/
def lowerFrom
    (before : List Char) : List Char → List Char
  | [] => []
  | c :: rest =>
      let small :=
        if c = 'Σ' then
          if endsWord before rest then ['ς'] else ['σ']
        else
          lowerChar c
      small ++ lowerFrom (c :: before) rest

/- The lower case of text. -/
def lower (s : String) : String :=
  String.ofList (lowerFrom [] s.toList)

end Text

end AnswerStream
