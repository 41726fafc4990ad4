import AnswerStream.Json.Value

/-
  This file defines the text of JSON values: compact, the
  members of an object in the order of the value. Since values
  keep their members in the order of the keys, equal values
  have equal texts.

  Key definitions include:
    * `Json.quotedChar`
    * `Json.quoted`
    * `Json.Value.chars`
    * `Json.Value.text`
-/

namespace AnswerStream

namespace Json

------------------------------------------------------------
-- Quoted Strings
------------------------------------------------------------

/- A character as four hexadecimal digits behind `\u00`. -/
def controlChar (c : Char) : List Char :=
  let n := c.toNat
  ['\\', 'u', '0', '0',
    Nat.digitChar (n / 16), Nat.digitChar (n % 16)]

/-
  The written form of one character of a string: quotes,
  backslashes and control characters are escaped, by a letter
  where there is one.
-/
def quotedChar (c : Char) : List Char :=
  match c with
  | '"' => ['\\', '"']
  | '\\' => ['\\', '\\']
  | '\x08' => ['\\', 'b']
  | '\x0c' => ['\\', 'f']
  | '\n' => ['\\', 'n']
  | '\r' => ['\\', 'r']
  | '\t' => ['\\', 't']
  | c => if c.toNat < 0x20 then controlChar c else [c]

/- A string between double quotes. -/
def quoted (s : String) : List Char :=
  '"' :: s.toList.flatMap quotedChar ++ ['"']

------------------------------------------------------------
-- Text of Values
------------------------------------------------------------

namespace Value

mutual

/- The characters of a value. -/
def chars : Value → List Char
  | .null => ['n', 'u', 'l', 'l']
  | .bool true => ['t', 'r', 'u', 'e']
  | .bool false => ['f', 'a', 'l', 's', 'e']
  | .number n => n.text
  | .string s => quoted s
  | .array items => '[' :: itemsChars items ++ [']']
  | .object members => '\x7b' :: membersChars members ++ ['\x7d']

/- The characters of values with commas between them. -/
def itemsChars : List Value → List Char
  | [] => []
  | [v] => chars v
  | v :: rest => chars v ++ ',' :: itemsChars rest

/- The characters of members with commas between them. -/
def membersChars : List (String × Value) → List Char
  | [] => []
  | [(k, v)] => quoted k ++ ':' :: chars v
  | (k, v) :: rest =>
      quoted k ++ ':' :: chars v ++ ',' :: membersChars rest

end

/- The text of a value. -/
def text (v : Value) : String :=
  String.ofList v.chars

end Value

end Json

end AnswerStream
