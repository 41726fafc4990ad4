/-
  This file defines how a quoted JSON string is read, one
  character at a time. An escaped code unit of a surrogate
  pair means a character only together with its partner; a
  string with half of a pair is well written and has no text.

  Key definitions include:
    * `Json.Quote`
    * `Json.Quote.Escape`
    * `Json.Quote.settled`
    * `Json.Quote.step`
-/

namespace AnswerStream

namespace Json

namespace Quote

------------------------------------------------------------
-- Escapes
------------------------------------------------------------

/-
  Where the reading of an escape stands: outside of one, after
  the backslash, or in the digits of a code unit, given by the
  number still due and the value so far.
-/
inductive Escape where
| outside
| started
| digits (due value : Nat)
deriving DecidableEq, Repr

/- The character of an escape by letter. -/
def letter? (c : Char) : Option Char :=
  match c with
  | '"' => some '"'
  | '\\' => some '\\'
  | '/' => some '/'
  | 'b' => some '\x08'
  | 'f' => some '\x0c'
  | 'n' => some '\n'
  | 'r' => some '\r'
  | 't' => some '\t'
  | _ => none

/- The value of a hexadecimal digit. -/
def hexValue? (c : Char) : Option Nat :=
  if '0' ≤ c ∧ c ≤ '9' then some (c.toNat - '0'.toNat)
  else if 'a' ≤ c ∧ c ≤ 'f' then some (c.toNat - 'a'.toNat + 10)
  else if 'A' ≤ c ∧ c ≤ 'F' then some (c.toNat - 'A'.toNat + 10)
  else none

/- A code unit that opens a surrogate pair. -/
def opensPair (unit : Nat) : Bool :=
  0xD800 ≤ unit && unit < 0xDC00

/- A code unit that closes a surrogate pair. -/
def closesPair (unit : Nat) : Bool :=
  0xDC00 ≤ unit && unit < 0xE000

/- The character of a surrogate pair. -/
def pairChar (first second : Nat) : Char :=
  Char.ofNat
    (0x10000 + (first - 0xD800) * 0x400 + (second - 0xDC00))

end Quote

------------------------------------------------------------
-- Quotes
------------------------------------------------------------

/-
  A string that is being read: the text so far, none if half
  of a pair stands in it alone; the first unit of a pair if
  its partner has to follow; and the escape at its end.
-/
structure Quote where
  text : Option String
  first : Option Nat
  escape : Quote.Escape
deriving DecidableEq, Repr

namespace Quote

/- A string of which only the opening quote has been read. -/
def start : Quote :=
  ⟨some "", none, .outside⟩

/- What one character does to a string being read. -/
inductive Progress where
| more (quote : Quote)
| closed (text : Option String)
| refused

/- The text if no second unit of a pair follows. -/
def settled (q : Quote) : Option String :=
  match q.first with
  | none => q.text
  | some _ => none

/- One more character of the string itself. -/
def push
    (q : Quote)
    (c : Char) : Quote :=
  match q with
  | ⟨some s, none, _⟩ => ⟨some (s.push c), none, .outside⟩
  | _ => ⟨none, none, .outside⟩

/- The second unit of a pair. -/
def closePair
    (q : Quote)
    (second : Nat) : Quote :=
  match q with
  | ⟨some s, some first, _⟩ =>
      ⟨some (s.push (pairChar first second)), none, .outside⟩
  | _ => ⟨none, none, .outside⟩

/- A code unit is complete. -/
def unit
    (q : Quote)
    (value : Nat) : Quote :=
  if opensPair value then ⟨q.settled, some value, .outside⟩
  else if closesPair value then q.closePair value
  else q.push (Char.ofNat value)

/- One more character. -/
def step
    (q : Quote)
    (c : Char) : Progress :=
  match q.escape with
  | .outside =>
      if c = '"' then .closed q.settled
      else if c = '\\' then .more { q with escape := .started }
      else if c.toNat < 0x20 then .refused
      else .more (q.push c)
  | .started =>
      if c = 'u' then .more { q with escape := .digits 4 0 }
      else
        match letter? c with
        | some d => .more (q.push d)
        | none => .refused
  | .digits due value =>
      match hexValue? c with
      | none => .refused
      | some d =>
          let value := value * 16 + d
          if due ≤ 1 then .more (q.unit value)
          else .more { q with escape := .digits (due - 1) value }

end Quote

end Json

end AnswerStream
