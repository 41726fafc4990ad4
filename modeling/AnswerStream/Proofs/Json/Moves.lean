import AnswerStream.Proofs.Text.Trimming

/-
  This file lists the moves of a reader: what a character can
  do to one. The character behind a number ends the number and
  is then a move of the reader that has the number; all other
  moves are simple. What holds of every text is proven by cases
  on the moves, and not on the step.

  Key definitions include:
    * `Json.Quote.Moves`
    * `Json.Mode.isQuiet`
    * `Json.Reader.First`
    * `Json.Reader.Moves`

  That the moves are those of a step, and that a text is read
  move by move, is stated by:
    * `Json.Quote.moves_of_more`
    * `Json.Reader.step?_eq_some_iff`
    * `Json.Reader.run?_keeps`
-/

namespace AnswerStream

namespace Json

------------------------------------------------------------
-- Moves in a String
------------------------------------------------------------

namespace Quote

/-
  What a character makes of a string that goes on: it stands
  for itself, it opens an escape, or it is part of one.
-/
inductive Moves (q : Quote) : Char → Quote → Prop where
| plain
    {c : Char}
    (hOutside : q.escape = .outside)
    (hQuote : c ≠ '"')
    (hBackslash : c ≠ '\\') :
    Moves q c (q.push c)
| backslash
    (hOutside : q.escape = .outside) :
    Moves q '\\' { q with escape := .started }
| letter
    {c d : Char}
    (hStarted : q.escape = .started)
    (hLetter : letter? c = some d) :
    Moves q c (q.push d)
| code
    (hStarted : q.escape = .started) :
    Moves q 'u' { q with escape := .digits 4 0 }
| digit
    {c : Char}
    {due value d later : Nat}
    (hDigits : q.escape = .digits due value)
    (hHex : hexValue? c = some d) :
    Moves q c { q with escape := .digits later (value * 16 + d) }
| unit
    {c : Char}
    {due value d : Nat}
    (hDigits : q.escape = .digits due value)
    (hHex : hexValue? c = some d) :
    Moves q c (q.unit (value * 16 + d))

/- A string goes on by a move. -/
theorem moves_of_more
    {q next : Quote}
    {c : Char}
    (hStep : q.step c = .more next) :
    Moves q c next := by
  unfold step at hStep
  split at hStep
  · next hOutside =>
    split at hStep
    · cases hStep
    next hQuote =>
    split at hStep
    · next h => cases hStep; exact h ▸ .backslash hOutside
    next hBackslash =>
    split at hStep
    · cases hStep
    · cases hStep; exact .plain hOutside hQuote hBackslash
  · next hStarted =>
    split at hStep
    · next h => cases hStep; exact h ▸ .code hStarted
    split at hStep
    · next hLetter => cases hStep; exact .letter hStarted hLetter
    · cases hStep
  · next due value hDigits =>
    split at hStep
    · cases hStep
    next d hHex =>
    simp only at hStep
    split at hStep
    · cases hStep; exact .unit hDigits hHex
    · cases hStep; exact .digit hDigits hHex

/- A string ends with a quote outside of escapes. -/
theorem step_eq_closed_iff
    {q : Quote}
    {c : Char}
    {text : Option String} :
    q.step c = .closed text ↔
      q.escape = .outside ∧ c = '"' ∧ text = q.settled := by
  constructor
  · intro hStep
    unfold step at hStep
    split at hStep
    · next hOutside =>
      split at hStep
      · next hQuote => cases hStep; exact ⟨hOutside, hQuote, rfl⟩
      split at hStep
      · cases hStep
      split at hStep <;> cases hStep
    · split at hStep
      · cases hStep
      split at hStep <;> cases hStep
    · split at hStep
      · cases hStep
      simp only at hStep
      split at hStep <;> cases hStep
  · rintro ⟨hOutside, rfl, rfl⟩
    simp [step, hOutside]

/- A character of the string ends its escape. -/
theorem escape_push
    (q : Quote)
    (c : Char) :
    (q.push c).escape = .outside := by
  unfold push
  split <;> rfl

/- So does the last digit of a code unit. -/
theorem escape_unit
    (q : Quote)
    (value : Nat) :
    (q.unit value).escape = .outside := by
  unfold unit
  split
  · rfl
  split
  · unfold closePair
    split <;> rfl
  · exact escape_push q _

end Quote

------------------------------------------------------------
-- Moves
------------------------------------------------------------

/- White space may stand here. -/
def Mode.isQuiet : Mode → Bool
| .value | .firstItem | .firstKey | .nextKey _ | .colon _ _
| .afterItem _ | .afterMember _ | .done _ => true
| .key _ _ | .string _ | .number _ _ | .word _ _ => false

namespace Reader

/- How a value begins: its first character, and what may follow. -/
inductive First : Char → Mode → Prop where
| object : First '\x7b' .firstKey
| array : First '[' .firstItem
| string : First '"' (.string .start)
| minus : First '-' (.number .sign (.start true))
| digit
    {c : Char}
    {phase : Numeral.Phase}
    {numeral : Numeral}
    (hDigit : c.isDigit = true)
    (hStep :
      (Numeral.start false).step .sign c = some (phase, numeral)) :
    First c (.number phase numeral)
| yes : First 't' (.word ['r', 'u', 'e'] (.bool true))
| no : First 'f' (.word ['a', 'l', 's', 'e'] (.bool false))
| null : First 'n' (.word ['u', 'l', 'l'] .null)

/- What a character makes of a reader. -/
inductive Moves : Reader → Char → Reader → Prop where
| space
    {mode : Mode}
    {stack : List Frame}
    {c : Char}
    (hSpace : isSpace c = true)
    (hQuiet : mode.isQuiet = true) :
    Moves ⟨mode, stack⟩ c ⟨mode, stack⟩
| value
    {mode : Mode}
    {stack : List Frame}
    {c : Char}
    (hFirst : First c mode) :
    Moves ⟨.value, stack⟩ c ⟨mode, stack⟩
| item
    {mode : Mode}
    {stack : List Frame}
    {c : Char}
    (hFirst : First c mode) :
    Moves ⟨.firstItem, stack⟩ c ⟨mode, .array [] :: stack⟩
| noItem
    {stack : List Frame} :
    Moves ⟨.firstItem, stack⟩ ']' (deliver stack (.array []))
| noMember
    {stack : List Frame} :
    Moves ⟨.firstKey, stack⟩ '\x7d' (deliver stack (.object []))
| firstKey
    {stack : List Frame} :
    Moves ⟨.firstKey, stack⟩ '"' ⟨.key [] .start, stack⟩
| nextKey
    {members : List (Option String × Written)}
    {stack : List Frame} :
    Moves ⟨.nextKey members, stack⟩ '"'
      ⟨.key members .start, stack⟩
| key
    {members : List (Option String × Written)}
    {quote next : Quote}
    {stack : List Frame}
    {c : Char}
    (hStep : quote.step c = .more next) :
    Moves ⟨.key members quote, stack⟩ c ⟨.key members next, stack⟩
| endKey
    {members : List (Option String × Written)}
    {quote : Quote}
    {key : Option String}
    {stack : List Frame}
    {c : Char}
    (hStep : quote.step c = .closed key) :
    Moves ⟨.key members quote, stack⟩ c ⟨.colon members key, stack⟩
| colon
    {members : List (Option String × Written)}
    {key : Option String}
    {stack : List Frame} :
    Moves ⟨.colon members key, stack⟩ ':'
      ⟨.value, .object members key :: stack⟩
| string
    {quote next : Quote}
    {stack : List Frame}
    {c : Char}
    (hStep : quote.step c = .more next) :
    Moves ⟨.string quote, stack⟩ c ⟨.string next, stack⟩
| endString
    {quote : Quote}
    {text : Option String}
    {stack : List Frame}
    {c : Char}
    (hStep : quote.step c = .closed text) :
    Moves ⟨.string quote, stack⟩ c (deliver stack (.string text))
| number
    {phase later : Numeral.Phase}
    {numeral next : Numeral}
    {stack : List Frame}
    {c : Char}
    (hStep : numeral.step phase c = some (later, next)) :
    Moves ⟨.number phase numeral, stack⟩ c
      ⟨.number later next, stack⟩
| endNumber
    {phase : Numeral.Phase}
    {numeral : Numeral}
    {stack : List Frame}
    {c : Char}
    {next : Reader}
    (hComplete : phase.complete = true)
    (hStep : numeral.step phase c = none)
    (hMove : Moves (deliver stack (.number numeral)) c next) :
    Moves ⟨.number phase numeral, stack⟩ c next
| word
    {c d : Char}
    {due : List Char}
    {tree : Written}
    {stack : List Frame} :
    Moves ⟨.word (c :: d :: due) tree, stack⟩ c
      ⟨.word (d :: due) tree, stack⟩
| endWord
    {c : Char}
    {tree : Written}
    {stack : List Frame} :
    Moves ⟨.word [c] tree, stack⟩ c (deliver stack tree)
| nextItem
    {items : List Written}
    {stack : List Frame} :
    Moves ⟨.afterItem items, stack⟩ ','
      ⟨.value, .array items :: stack⟩
| endArray
    {items : List Written}
    {stack : List Frame} :
    Moves ⟨.afterItem items, stack⟩ ']'
      (deliver stack (.array items.reverse))
| nextMember
    {members : List (Option String × Written)}
    {stack : List Frame} :
    Moves ⟨.afterMember members, stack⟩ ',' ⟨.nextKey members, stack⟩
| endObject
    {members : List (Option String × Written)}
    {stack : List Frame} :
    Moves ⟨.afterMember members, stack⟩ '\x7d'
      (deliver stack (.object members.reverse))

------------------------------------------------------------
-- First Characters
------------------------------------------------------------

/- No value begins with white space, of JSON or of Unicode. -/
theorem First.isBlank_eq
    {c : Char}
    {mode : Mode}
    (hFirst : First c mode) :
    Text.isBlank c = false := by
  cases hFirst with
  | digit hDigit _ => exact Text.isBlank_of_isDigit hDigit
  | _ => decide

/- Nor does it with what stands behind a value. -/
theorem First.not_mem
    {c : Char}
    {mode : Mode}
    (hFirst : First c mode) :
    c ∉ [',', ':', ']', '\x7d'] := by
  cases hFirst with
  | digit hDigit _ =>
      intro hMember
      simp only [List.mem_cons, List.not_mem_nil, or_false]
        at hMember
      rcases hMember with rfl | rfl | rfl | rfl <;>
        exact absurd hDigit (by decide)
  | _ => decide

/- White space of JSON is white space. -/
theorem isBlank_of_isSpace
    {c : Char}
    (hSpace : isSpace c = true) :
    Text.isBlank c = true := by
  simp only [isSpace, Bool.or_eq_true, beq_iff_eq] at hSpace
  rcases hSpace with ((rfl | rfl) | rfl) | rfl <;> decide

theorem isSpace_of_visible
    {c : Char}
    (hVisible : Text.isBlank c = false) :
    isSpace c = false := by
  cases hSpace : isSpace c with
  | false => rfl
  | true =>
      rw [isBlank_of_isSpace hSpace] at hVisible
      cases hVisible

/- A value begins as it is read. -/
theorem begin?_eq_some_iff
    {stack : List Frame}
    {c : Char}
    {r : Reader} :
    begin? stack c = some r ↔
      ∃ mode, First c mode ∧ r = ⟨mode, stack⟩ := by
  constructor
  · intro hBegin
    unfold begin? at hBegin
    split at hBegin
    · next h => exact ⟨_, h ▸ .object, (Option.some.inj hBegin).symm⟩
    split at hBegin
    · next h => exact ⟨_, h ▸ .array, (Option.some.inj hBegin).symm⟩
    split at hBegin
    · next h => exact ⟨_, h ▸ .string, (Option.some.inj hBegin).symm⟩
    split at hBegin
    · next h => exact ⟨_, h ▸ .minus, (Option.some.inj hBegin).symm⟩
    split at hBegin
    · next hDigit =>
      rcases Option.map_eq_some_iff.mp hBegin with
        ⟨⟨phase, numeral⟩, hStep, hReader⟩
      exact ⟨_, .digit hDigit hStep, hReader.symm⟩
    split at hBegin
    · next h => exact ⟨_, h ▸ .yes, (Option.some.inj hBegin).symm⟩
    split at hBegin
    · next h => exact ⟨_, h ▸ .no, (Option.some.inj hBegin).symm⟩
    split at hBegin
    · next h => exact ⟨_, h ▸ .null, (Option.some.inj hBegin).symm⟩
    cases hBegin
  · rintro ⟨mode, hFirst, rfl⟩
    cases hFirst with
    | digit hDigit hStep =>
        have hOther :
            c ≠ '\x7b' ∧ c ≠ '[' ∧ c ≠ '"' ∧ c ≠ '-' := by
          refine ⟨?_, ?_, ?_, ?_⟩ <;>
            (rintro rfl; exact absurd hDigit (by decide))
        simp [begin?, hOther, hDigit, hStep]
    | _ => rfl

------------------------------------------------------------
-- The Moves of a Step
------------------------------------------------------------

/- A reader that has a value looks at what follows. -/
theorem step?_deliver
    (stack : List Frame)
    (t : Written)
    (c : Char) :
    (deliver stack t).step? c = (deliver stack t).afterValue? c := by
  cases stack with
  | nil => rfl
  | cons frame rest => cases frame <;> rfl

/- What follows a value is a move. -/
theorem moves_of_afterValue
    {r next : Reader}
    {c : Char}
    (hQuiet : r.mode.isQuiet = true)
    (hAfter : r.afterValue? c = some next) :
    Moves r c next := by
  rcases r with ⟨mode, stack⟩
  unfold afterValue? at hAfter
  split at hAfter
  · next hSpace =>
    cases hAfter
    exact .space hSpace hQuiet
  split at hAfter
  · next items hMode =>
    cases hMode
    split at hAfter
    · next h => cases hAfter; exact h ▸ .nextItem
    split at hAfter
    · next h => cases hAfter; exact h ▸ .endArray
    cases hAfter
  · next members hMode =>
    cases hMode
    split at hAfter
    · next h => cases hAfter; exact h ▸ .nextMember
    split at hAfter
    · next h => cases hAfter; exact h ▸ .endObject
    cases hAfter
  · cases hAfter

theorem isQuiet_deliver
    (stack : List Frame)
    (t : Written) :
    (deliver stack t).mode.isQuiet = true := by
  cases stack with
  | nil => rfl
  | cons frame rest => cases frame <;> rfl

/- A step is a move. -/
theorem moves_of_step
    {r next : Reader}
    {c : Char}
    (hStep : r.step? c = some next) :
    Moves r c next := by
  rcases r with ⟨mode, stack⟩
  cases mode with
  | value =>
      simp only [step?] at hStep
      split at hStep
      · next hSpace => cases hStep; exact .space hSpace rfl
      · rcases begin?_eq_some_iff.mp hStep with ⟨mode, hFirst, rfl⟩
        exact .value hFirst
  | firstItem =>
      simp only [step?] at hStep
      split at hStep
      · next hSpace => cases hStep; exact .space hSpace rfl
      split at hStep
      · next h => cases hStep; exact h ▸ .noItem
      · rcases begin?_eq_some_iff.mp hStep with ⟨mode, hFirst, rfl⟩
        exact .item hFirst
  | firstKey =>
      simp only [step?] at hStep
      split at hStep
      · next hSpace => cases hStep; exact .space hSpace rfl
      split at hStep
      · next h => cases hStep; exact h ▸ .noMember
      split at hStep
      · next h => cases hStep; exact h ▸ .firstKey
      cases hStep
  | nextKey members =>
      simp only [step?] at hStep
      split at hStep
      · next hSpace => cases hStep; exact .space hSpace rfl
      split at hStep
      · next h => cases hStep; exact h ▸ .nextKey
      cases hStep
  | key members quote =>
      simp only [step?] at hStep
      split at hStep
      · next hMore => cases hStep; exact .key hMore
      · next hClosed => cases hStep; exact .endKey hClosed
      · cases hStep
  | colon members key =>
      simp only [step?] at hStep
      split at hStep
      · next hSpace => cases hStep; exact .space hSpace rfl
      split at hStep
      · next h => cases hStep; exact h ▸ .colon
      cases hStep
  | string quote =>
      simp only [step?] at hStep
      split at hStep
      · next hMore => cases hStep; exact .string hMore
      · next hClosed => cases hStep; exact .endString hClosed
      · cases hStep
  | number phase numeral =>
      simp only [step?] at hStep
      split at hStep
      · next hMore => cases hStep; exact .number hMore
      · next hNone =>
        split at hStep
        · next hComplete =>
          exact
            .endNumber hComplete hNone
              (moves_of_afterValue (isQuiet_deliver _ _) hStep)
        · cases hStep
  | word due tree =>
      cases due with
      | nil => cases hStep
      | cons d due =>
          simp only [step?] at hStep
          split at hStep
          · cases hStep
          next hSame =>
          rw [Decidable.not_not] at hSame
          subst hSame
          cases due with
          | nil => cases hStep; exact .endWord
          | cons e rest => cases hStep; exact .word
  | afterItem items => exact moves_of_afterValue rfl hStep
  | afterMember members => exact moves_of_afterValue rfl hStep
  | done tree => exact moves_of_afterValue rfl hStep

/- A move is a step. -/
theorem Moves.step?_eq
    {r next : Reader}
    {c : Char}
    (hMoves : Moves r c next) :
    r.step? c = some next := by
  induction hMoves with
  | @space mode stack c hSpace hQuiet =>
      cases mode <;>
        first
        | exact absurd hQuiet Bool.false_ne_true
        | simp [step?, afterValue?, hSpace]
  | value hFirst =>
      have hNoSpace := isSpace_of_visible hFirst.isBlank_eq
      simp only [step?, hNoSpace, if_false, Bool.false_eq_true]
      exact begin?_eq_some_iff.mpr ⟨_, hFirst, rfl⟩
  | @item mode stack c hFirst =>
      have hNoSpace := isSpace_of_visible hFirst.isBlank_eq
      have hOther : c ≠ ']' := fun h =>
        hFirst.not_mem (by simp [h])
      simp only [step?, hNoSpace, hOther, if_false,
        Bool.false_eq_true]
      exact begin?_eq_some_iff.mpr ⟨_, hFirst, rfl⟩
  | key hStep => simp [step?, hStep]
  | endKey hStep => simp [step?, hStep]
  | string hStep => simp [step?, hStep]
  | endString hStep => simp [step?, hStep]
  | number hStep => simp [step?, hStep]
  | endNumber hComplete hStep _ ih =>
      rw [step?_deliver] at ih
      simp [step?, hStep, hComplete, ih]
  | word => simp [step?]
  | endWord => simp [step?]
  | _ => rfl

/- The moves are those of a step. -/
theorem step?_eq_some_iff
    {r next : Reader}
    {c : Char} :
    r.step? c = some next ↔ Moves r c next :=
  ⟨moves_of_step, Moves.step?_eq⟩

------------------------------------------------------------
-- Texts
------------------------------------------------------------

/- A text is read from its first character on. -/
theorem run?_cons_eq_some_iff
    {r last : Reader}
    {c : Char}
    {cs : List Char} :
    r.run? (c :: cs) = some last ↔
      ∃ next, Moves r c next ∧ next.run? cs = some last := by
  simp only [← step?_eq_some_iff, run?]
  cases r.step? c <;> simp

/- A text is read up to its last character. -/
theorem run?_concat_eq_some_iff
    {r last : Reader}
    {cs : List Char}
    {c : Char} :
    r.run? (cs ++ [c]) = some last ↔
      ∃ q, r.run? cs = some q ∧ Moves q c last := by
  have hLast :
      ∀ q : Reader, q.run? [c] = some last ↔ Moves q c last := by
    intro q
    rw [run?_cons_eq_some_iff]
    simp [run?]
  simp only [run?_append, Option.bind_eq_some_iff, hLast]

/- A text is read in two parts. -/
theorem run?_append_eq_some_iff
    {r last : Reader}
    {cs ds : List Char} :
    r.run? (cs ++ ds) = some last ↔
      ∃ q, r.run? cs = some q ∧ q.run? ds = some last := by
  rw [run?_append, Option.bind_eq_some_iff]

/- White space in front of a text changes nothing. -/
theorem run?_dropBlank
    {cs : List Char}
    {r : Reader}
    (hRun : start.run? cs = some r) :
    start.run? (Text.dropBlank cs) = some r := by
  induction cs with
  | nil => exact hRun
  | cons c cs ih =>
      unfold Text.dropBlank at ih ⊢
      rw [List.dropWhile_cons]
      split
      · next hBlank =>
        rcases run?_cons_eq_some_iff.mp hRun with ⟨next, hMove, hRest⟩
        cases hMove with
        | space => exact ih hRest
        | value hFirst =>
            rw [hFirst.isBlank_eq] at hBlank
            cases hBlank
      · exact hRun

/- What every move of a text keeps, the text keeps. -/
theorem run?_keeps
    {P : Reader → Prop}
    {r last : Reader}
    {cs : List Char}
    (hKeeps :
      ∀ {q c next}, c ∈ cs → Moves q c next → P q → P next)
    (hRun : r.run? cs = some last)
    (hHolds : P r) :
    P last := by
  induction cs generalizing r with
  | nil =>
      cases hRun
      exact hHolds
  | cons c cs ih =>
      rcases run?_cons_eq_some_iff.mp hRun with ⟨next, hMove, hRest⟩
      exact
        ih (fun hMember => hKeeps (List.mem_cons_of_mem c hMember))
          hRest (hKeeps List.mem_cons_self hMove hHolds)

/-
  What holds behind a text and in front of every move to where
  it holds, holds in front of the text.
-/
theorem run?_keeps_before
    {P : Reader → Prop}
    (hKeeps : ∀ {q c next}, Moves q c next → P next → P q)
    {r last : Reader}
    {cs : List Char}
    (hRun : r.run? cs = some last)
    (hHolds : P last) :
    P r := by
  induction cs generalizing r with
  | nil =>
      cases hRun
      exact hHolds
  | cons c cs ih =>
      rcases run?_cons_eq_some_iff.mp hRun with ⟨next, hMove, hRest⟩
      exact hKeeps hMove (ih hRest)

end Reader

end Json

end AnswerStream
