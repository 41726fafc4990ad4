import AnswerStream.Json.Render

/-
  This file defines the fingerprint of a JSON value: eight
  hexadecimal digits that equal values share, computed from
  the bytes of the canonical text. The canonical text is a
  compact one, in which the keys of an object are sorted and the
  value of each is looked up.

  Key definitions include:
    * `Json.sortKeys`
    * `Json.Value.canonicalChars`
    * `Json.Value.canonical`
    * `Json.Fingerprint.mix`
    * `Json.Fingerprint.ofText`
    * `Json.Value.fingerprint`
-/

namespace AnswerStream

namespace Json

------------------------------------------------------------
-- Canonical Text
------------------------------------------------------------

/- The written parts with commas between them. -/
def joined
    {α : Type}
    (write : α → List Char) : List α → List Char
  | [] => []
  | [x] => write x
  | x :: rest => write x ++ ',' :: joined write rest

/- A key among others, in front of the first that is not less. -/
def insertKey (key : String) : List String → List String
  | [] => [key]
  | k :: rest =>
      if key ≤ k then key :: k :: rest
      else k :: insertKey key rest

/- Keys in their order. -/
def sortKeys : List String → List String
  | [] => []
  | key :: rest => insertKey key (sortKeys rest)

/- A key with the text that belongs to it. -/
def keyedText
    (texts : Table String (List Char))
    (key : String) : List Char :=
  quoted key ++ ':' :: (Table.get? key texts).getD []

namespace Value

mutual

/-
  The canonical characters of a value: the elements of an array
  in their order, the members of an object in that of their
  keys.
-/
def canonicalChars : Value → List Char
  | .array items => '[' :: joined id (canonicalItems items) ++ [']']
  | .object members =>
      let texts := canonicalMembers members
      let keys := sortKeys (texts.map Prod.fst)
      '\x7b' :: joined (keyedText texts) keys ++ ['\x7d']
  | v => v.chars

/- The canonical characters of each of some values. -/
def canonicalItems : List Value → List (List Char)
  | [] => []
  | v :: rest => canonicalChars v :: canonicalItems rest

/- The canonical characters of each value, by its key. -/
def canonicalMembers :
    List (String × Value) → Table String (List Char)
  | [] => []
  | (key, v) :: rest =>
      (key, canonicalChars v) :: canonicalMembers rest

end

/- The canonical text of a value. -/
def canonical (v : Value) : String :=
  String.ofList v.canonicalChars

end Value

------------------------------------------------------------
-- Fingerprints
------------------------------------------------------------

namespace Fingerprint

/- The hash so far takes in one byte. -/
def mix
    (hash : UInt32)
    (byte : UInt8) : UInt32 :=
  hash * 33 + byte.toUInt32

/- The hash of no bytes. -/
def seed : UInt32 := 5381

/- The hash of the bytes of a text. -/
def ofText (s : String) : UInt32 :=
  s.toUTF8.foldl mix seed

/- A word as eight hexadecimal digits. -/
def hex (n : UInt32) : String :=
  let digits := Nat.toDigits 16 n.toNat
  String.ofList (List.replicate (8 - digits.length) '0' ++ digits)

end Fingerprint

/- The fingerprint of a value. -/
def Value.fingerprint (v : Value) : String :=
  Fingerprint.hex (Fingerprint.ofText v.canonical)

end Json

end AnswerStream
