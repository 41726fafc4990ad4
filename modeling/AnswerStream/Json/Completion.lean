import AnswerStream.Text.Blank
import AnswerStream.Json.Reader

/-
  This file defines the completion of JSON text that was cut
  off, and the best reading of such text. The scan of a text
  tells whether it ends inside a string and which containers
  are open; completion closes them. It is no grammar: text
  cut off inside a word or behind a key stays unreadable.

  Key definitions include:
    * `Json.Scan`
    * `Json.Scan.step`
    * `Json.Scan.ofChars`
    * `Json.complete`
    * `Json.partialValue?`
-/

namespace AnswerStream

namespace Json

------------------------------------------------------------
-- Scanning
------------------------------------------------------------

/-
  What a scan knows at a place of a text: whether it is inside
  a string, whether a backslash stands just before it there,
  and the brackets that close the open containers, innermost
  first.
-/
structure Scan where
  inString : Bool
  escaped : Bool
  closers : List Char
deriving DecidableEq, Repr

namespace Scan

/- The scan of no characters. -/
def start : Scan :=
  ⟨false, false, []⟩

/- One more character inside a string. -/
def stringStep
    (s : Scan)
    (c : Char) : Scan :=
  if s.escaped then { s with escaped := false }
  else if c = '\\' then { s with escaped := true }
  else if c = '"' then { s with inString := false }
  else s

/-
  One more character outside of strings. A bracket that closes
  nothing is passed over.
-/
def outerStep
    (s : Scan)
    (c : Char) : Scan :=
  if c = '"' then { s with inString := true }
  else if c = '\x7b' then { s with closers := '\x7d' :: s.closers }
  else if c = '[' then { s with closers := ']' :: s.closers }
  else if c = '\x7d' ∨ c = ']' then
    if s.closers.head? = some c then
      { s with closers := s.closers.tail }
    else s
  else s

/- One more character. -/
def step
    (s : Scan)
    (c : Char) : Scan :=
  if s.inString then s.stringStep c else s.outerStep c

/- The scan of characters. -/
def ofChars (cs : List Char) : Scan :=
  cs.foldl step start

end Scan

------------------------------------------------------------
-- Completion
------------------------------------------------------------

/-
  The end of a text outside of strings: white space is
  dropped, then a colon of an object gets a null and a comma
  is dropped.
-/
def completeOuter
    (closers : List Char)
    (cs : List Char) : List Char :=
  let kept := Text.dropBlankEnd cs
  match kept.getLast? with
  | some ':' =>
      if closers.head? = some '\x7d' then
        kept ++ ['n', 'u', 'l', 'l']
      else kept
  | some ',' => kept.dropLast
  | _ => kept

/-
  The end of a text inside a string: an unfinished escape is
  dropped and the string is closed.
-/
def completeString
    (escaped : Bool)
    (cs : List Char) : List Char :=
  (if escaped then cs.dropLast else cs) ++ ['"']

/- Characters with everything closed that is open at the end. -/
def completeChars (cs : List Char) : List Char :=
  let s := Scan.ofChars cs
  let body :=
    if s.inString then completeString s.escaped cs
    else completeOuter s.closers cs
  body ++ s.closers

/- A text with everything closed that is open at the end. -/
def complete (s : String) : String :=
  String.ofList (completeChars s.toList)

------------------------------------------------------------
-- Reading Unfinished Text
------------------------------------------------------------

/-
  The best reading of a text that may be cut off: the strict
  one if there is one, else that of the completed text. White
  space around the text does not count, and there is none of
  an empty text.
-/
def partialValue? (s : String) : Option Value :=
  let trimmed := Text.trim s
  if trimmed.isEmpty then none
  else
    match value? trimmed with
    | some v => some v
    | none => value? (complete trimmed)

end Json

end AnswerStream
