import AnswerStream.Text.PrintTable
import AnswerStream.Text.LowerCase

/-
  This file defines quoted text for summaries: double quotes
  around the text, a backslash before what would end or bend
  it, and the code point in braces for characters that have no
  shape of their own.

  Key definitions include:
    * `Text.quotedChar`
    * `Text.quoted`
    * `Text.quotedOption`
    * `Text.quotedList`
-/

namespace AnswerStream

namespace Text

------------------------------------------------------------
-- Quoted Text
------------------------------------------------------------

/- A character without a shape of its own. -/
def isShapeless (c : Char) : Bool :=
  inRanges shapelessRanges c.toNat

/- The code point of a character in lower case hexadecimal. -/
def codePoint (c : Char) : List Char :=
  Nat.toDigits 16 c.toNat

/- The written form of one character between quotes. -/
def quotedChar (c : Char) : List Char :=
  match c with
  | '\t' => ['\\', 't']
  | '\r' => ['\\', 'r']
  | '\n' => ['\\', 'n']
  | '"' => ['\\', '"']
  | '\\' => ['\\', '\\']
  | '\x00' => ['\\', '0']
  | c =>
      if isShapeless c then
        ['\\', 'u', '\x7b'] ++ codePoint c ++ ['\x7d']
      else
        [c]

/- Text between double quotes. -/
def quoted (s : String) : String :=
  String.ofList ('"' :: s.toList.flatMap quotedChar ++ ['"'])

/- An optional text, by the name of its case. -/
def quotedOption : Option String → String
  | none => "None"
  | some s => "Some(" ++ quoted s ++ ")"

/- A list of texts between brackets. -/
def quotedList (ss : List String) : String :=
  "[" ++ String.intercalate ", " (ss.map quoted) ++ "]"

end Text

end AnswerStream
