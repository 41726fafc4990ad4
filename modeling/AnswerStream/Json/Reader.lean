import AnswerStream.Json.Written
import AnswerStream.Json.Quote

/-
  This file defines the strict reading of JSON text, one
  character at a time, with the open containers on a stack.
  What has been read of a text is the state after its last
  character, so what a reader makes of the beginning of a text
  does not depend on the rest. A text is read to the tree that
  is written there, and its value is the value of the tree.

  Key definitions include:
    * `Json.Reader`
    * `Json.Reader.step?`
    * `Json.Reader.run?`
    * `Json.Reader.finish?`
    * `Json.written?`
    * `Json.value?`
-/

namespace AnswerStream

namespace Json

------------------------------------------------------------
-- States
------------------------------------------------------------

/-
  An open container that waits for its next value: what it
  holds so far, last first, and in an object the key of the
  value.
-/
inductive Frame where
| array (items : List Written)
| object
    (members : List (Option String × Written))
    (key : Option String)

/-
  What may come next: a value; a value or the end of an empty
  array; a key or the end of an empty object; a key; more of a
  key; the colon behind a key; more of a string, of a number or
  of a word; a comma or the end of an array or of an object; or
  nothing but white space.
-/
inductive Mode where
| value
| firstItem
| firstKey
| nextKey (members : List (Option String × Written))
| key
    (members : List (Option String × Written))
    (quote : Quote)
| colon
    (members : List (Option String × Written))
    (key : Option String)
| string (quote : Quote)
| number (phase : Numeral.Phase) (numeral : Numeral)
| word (due : List Char) (tree : Written)
| afterItem (items : List Written)
| afterMember (members : List (Option String × Written))
| done (tree : Written)

/-
  A reader: what may come next, and the containers around it
  that wait for a value, innermost first.
-/
structure Reader where
  mode : Mode
  stack : List Frame

namespace Reader

/- A reader before the first character. -/
def start : Reader :=
  ⟨.value, []⟩

/- White space between the parts of a text. -/
def isSpace (c : Char) : Bool :=
  c == ' ' || c == '\t' || c == '\n' || c == '\r'

------------------------------------------------------------
-- Steps
------------------------------------------------------------

/- A complete tree goes to the innermost open container. -/
def deliver
    (stack : List Frame)
    (t : Written) : Reader :=
  match stack with
  | [] => ⟨.done t, []⟩
  | .array items :: rest => ⟨.afterItem (t :: items), rest⟩
  | .object members key :: rest =>
      ⟨.afterMember ((key, t) :: members), rest⟩

/- The first character of a value. -/
def begin?
    (stack : List Frame)
    (c : Char) : Option Reader :=
  if c = '\x7b' then some ⟨.firstKey, stack⟩
  else if c = '[' then some ⟨.firstItem, stack⟩
  else if c = '"' then some ⟨.string .start, stack⟩
  else if c = '-' then
    some ⟨.number .sign (.start true), stack⟩
  else if c.isDigit then
    ((Numeral.start false).step .sign c).map fun r =>
      ⟨.number r.1 r.2, stack⟩
  else if c = 't' then
    some ⟨.word ['r', 'u', 'e'] (.bool true), stack⟩
  else if c = 'f' then
    some ⟨.word ['a', 'l', 's', 'e'] (.bool false), stack⟩
  else if c = 'n' then
    some ⟨.word ['u', 'l', 'l'] .null, stack⟩
  else
    none

/- A character behind a complete value. -/
def afterValue?
    (r : Reader)
    (c : Char) : Option Reader :=
  if isSpace c then some r
  else
    match r.mode with
    | .afterItem items =>
        if c = ',' then some ⟨.value, .array items :: r.stack⟩
        else if c = ']' then
          some (deliver r.stack (.array items.reverse))
        else none
    | .afterMember members =>
        if c = ',' then some ⟨.nextKey members, r.stack⟩
        else if c = '\x7d' then
          some (deliver r.stack (.object members.reverse))
        else none
    | _ => none

/- One more character, or none if no text goes on with it. -/
def step?
    (r : Reader)
    (c : Char) : Option Reader :=
  match r.mode with
  | .value =>
      if isSpace c then some r else begin? r.stack c
  | .firstItem =>
      if isSpace c then some r
      else if c = ']' then some (deliver r.stack (.array []))
      else begin? (.array [] :: r.stack) c
  | .firstKey =>
      if isSpace c then some r
      else if c = '\x7d' then some (deliver r.stack (.object []))
      else if c = '"' then some ⟨.key [] .start, r.stack⟩
      else none
  | .nextKey members =>
      if isSpace c then some r
      else if c = '"' then some ⟨.key members .start, r.stack⟩
      else none
  | .key members quote =>
      match quote.step c with
      | .more quote => some ⟨.key members quote, r.stack⟩
      | .closed key => some ⟨.colon members key, r.stack⟩
      | .refused => none
  | .colon members key =>
      if isSpace c then some r
      else if c = ':' then
        some ⟨.value, .object members key :: r.stack⟩
      else none
  | .string quote =>
      match quote.step c with
      | .more quote => some ⟨.string quote, r.stack⟩
      | .closed s => some (deliver r.stack (.string s))
      | .refused => none
  | .number phase numeral =>
      match numeral.step phase c with
      | some (phase, numeral) =>
          some ⟨.number phase numeral, r.stack⟩
      | none =>
          if phase.complete then
            (deliver r.stack (.number numeral)).afterValue? c
          else none
  | .word due tree =>
      match due with
      | [] => none
      | d :: due =>
          if c ≠ d then none
          else if due.isEmpty then some (deliver r.stack tree)
          else some ⟨.word due tree, r.stack⟩
  | .afterItem _ | .afterMember _ | .done _ => r.afterValue? c

/- The characters of a text, one after the other. -/
def run?
    (r : Reader) : List Char → Option Reader
  | [] => some r
  | c :: rest =>
      match r.step? c with
      | some next => run? next rest
      | none => none

/- The tree of a text that ends here. -/
def finish? (r : Reader) : Option Written :=
  match r.mode, r.stack with
  | .done t, [] => some t
  | .number phase numeral, [] =>
      if phase.complete then some (.number numeral) else none
  | _, _ => none

/- Reading two parts of a text is reading one after the other. -/
theorem run?_append
    (r : Reader)
    (cs ds : List Char) :
    r.run? (cs ++ ds) = (r.run? cs).bind fun q => q.run? ds := by
  induction cs generalizing r with
  | nil => simp [run?]
  | cons c cs ih =>
    simp only [List.cons_append, run?]
    cases r.step? c with
    | none => rfl
    | some next => exact ih next

end Reader

------------------------------------------------------------
-- Texts
------------------------------------------------------------

/- The tree of a text, if it is well written. -/
def written? (s : String) : Option Written :=
  (Reader.start.run? s.toList).bind Reader.finish?

/- The value of a text. -/
def value? (s : String) : Option Value :=
  (written? s).bind (Written.value? Written.depthLimit)

end Json

end AnswerStream
