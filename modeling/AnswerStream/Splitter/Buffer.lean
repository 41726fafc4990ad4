import AnswerStream.Text.Blank
import AnswerStream.Settings.Basic

/-
  This file defines the caps of the buffers of a splitter, and
  how prose beyond its cap is shortened from the front: down
  to three quarters of the cap, and on to just behind the next
  white space, if there is any left.

  Key definitions include:
    * `Limits`
    * `Overflow`
    * `dropBytes`
    * `shorten`
-/

namespace AnswerStream

------------------------------------------------------------
-- Caps
------------------------------------------------------------

/- The caps of the buffers in bytes. -/
structure Limits where
  text : Nat
  structured : Nat
deriving DecidableEq, Repr

namespace Limits

/- The caps of the settings. -/
def ofSettings (s : BufferSettings) : Limits where
  text := s.textLimit
  structured := s.structuredLimit

/- The caps of the default settings. -/
def standard : Limits :=
  ofSettings {}

/- The bytes of prose that stay at most when it is shortened. -/
def kept (l : Limits) : Nat :=
  l.text - l.text / 4

end Limits

/- A fence outgrew its cap. -/
structure Overflow where
  limit : Nat
deriving DecidableEq, Repr

/- The wording of the failure. -/
def Overflow.message (e : Overflow) : String :=
  "structured block exceeds " ++ toString e.limit ++ " bytes"

------------------------------------------------------------
-- Shortening Prose
------------------------------------------------------------

/- The number of bytes of characters. -/
def byteCount : List Char → Nat
  | [] => 0
  | c :: rest => c.utf8Size + byteCount rest

/-
  The characters that start at or behind the given number of
  bytes.
-/
def dropBytes : Nat → List Char → List Char
  | _, [] => []
  | 0, cs => cs
  | n + 1, c :: rest => dropBytes (n + 1 - c.utf8Size) rest

/-
  Characters without the given number of bytes in front, and
  without what is left of the word that is cut there.
-/
def dropFront
    (excess : Nat)
    (cs : List Char) : List Char :=
  let rest := dropBytes excess cs
  match rest.dropWhile fun c => !Text.isBlank c with
  | [] => rest
  | _ :: after => after

/- Prose shortened to the bytes that stay. -/
def shorten
    (limits : Limits)
    (text : String) : String :=
  String.ofList
    (dropFront (text.utf8ByteSize - limits.kept) text.toList)

end AnswerStream
