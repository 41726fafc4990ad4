import AnswerStream.Proofs.Json.Tracking

/-
  This file proves what is read inside of a string: characters
  that neither end the string nor escape a code unit lead to a
  place where no half of a surrogate pair stands alone. There,
  or in front of a backslash that stands there, a quote ends
  the string and it has a text.

  Key definitions include:
    * `Json.staysOpen`
    * `Json.Quote.Whole`

  Main statements:
    * `Json.Reader.Moves.of_started`
    * `Json.Reader.run?_staysOpen`
    * `Json.Reader.moves_of_whole`
-/

namespace AnswerStream

namespace Json

------------------------------------------------------------
-- Characters that Leave a String Open
------------------------------------------------------------

/-
  The characters behind an opening quote leave the string open
  and escape no code unit. They may end with a backslash.
-/
def staysOpen : List Char → Bool
| [] => true
| ['\\'] => true
| '\\' :: c :: rest => c != 'u' && staysOpen rest
| c :: rest => c != '"' && staysOpen rest

/- What no case of an escape fits is no backslash. -/
theorem ne_of_plain
    {c : Char}
    {rest : List Char}
    (hLast : c = '\\' → rest = [] → False)
    (hEscape :
      ∀ d later, c = '\\' → rest = d :: later → False) :
    c ≠ '\\' := by
  intro hSame
  cases rest with
  | nil => exact hLast hSame rfl
  | cons d later => exact hEscape d later hSame rfl

/- Any character but a backslash stands for itself. -/
theorem staysOpen_cons_of_ne
    {c : Char}
    (hBackslash : c ≠ '\\')
    (rest : List Char) :
    staysOpen (c :: rest) = (c != '"' && staysOpen rest) :=
  staysOpen.eq_4 c rest (fun h _ => hBackslash h)
    fun _ _ h _ => hBackslash h

/- A string that stays open was open before. -/
theorem staysOpen_of_append
    {cs ds : List Char}
    (hOpen : staysOpen (cs ++ ds) = true) :
    staysOpen cs = true := by
  induction cs using staysOpen.induct with
  | case1 => rfl
  | case2 => rfl
  | case3 c rest ih =>
      rw [List.cons_append, List.cons_append, staysOpen,
        Bool.and_eq_true] at hOpen
      rw [staysOpen, Bool.and_eq_true]
      exact ⟨hOpen.1, ih hOpen.2⟩
  | case4 c rest hLast hEscape ih =>
      have hBackslash := ne_of_plain hLast hEscape
      rw [List.cons_append, staysOpen_cons_of_ne hBackslash,
        Bool.and_eq_true] at hOpen
      rw [staysOpen_cons_of_ne hBackslash, Bool.and_eq_true]
      exact ⟨hOpen.1, ih hOpen.2⟩

------------------------------------------------------------
-- Whole Strings
------------------------------------------------------------

namespace Quote

/- No half of a surrogate pair stands in the string. -/
structure Whole (q : Quote) : Prop where
  first : q.first = none
  text : q.text.isSome = true

theorem whole_start : start.Whole :=
  ⟨rfl, rfl⟩

theorem Whole.push
    {q : Quote}
    (hWhole : q.Whole)
    (c : Char) :
    (q.push c).Whole := by
  rcases q with ⟨text, first, escape⟩
  cases hWhole.first
  rcases Option.isSome_iff_exists.mp hWhole.text with ⟨s, rfl⟩
  exact ⟨rfl, rfl⟩

/- A whole string has a text. -/
theorem Whole.exists_settled
    {q : Quote}
    (hWhole : q.Whole) :
    ∃ s, q.settled = some s := by
  rcases q with ⟨text, first, escape⟩
  cases hWhole.first
  exact Option.isSome_iff_exists.mp hWhole.text

theorem Whole.started
    {q : Quote}
    (hWhole : q.Whole) :
    ({ q with escape := .started } : Quote).Whole :=
  ⟨hWhole.first, hWhole.text⟩

/- A backslash in a string opens an escape. -/
theorem Moves.eq_of_backslash
    {q next : Quote}
    (hMove : Moves q '\\' next)
    (hOutside : q.escape = .outside) :
    next = { q with escape := .started } := by
  cases hMove with
  | plain _ _ hBackslash => exact absurd rfl hBackslash
  | backslash => rfl
  | _ => simp_all

/- Behind it a character is escaped, or a code unit is. -/
theorem Moves.exists_eq_push
    {q next : Quote}
    {c : Char}
    (hMove : Moves q c next)
    (hStarted : q.escape = .started)
    (hLetter : c ≠ 'u') :
    ∃ d, next = q.push d := by
  cases hMove with
  | plain => exact ⟨c, rfl⟩
  | letter => exact ⟨_, rfl⟩
  | code => exact absurd rfl hLetter
  | _ => simp_all

/- Any other character is one of the string. -/
theorem Moves.eq_push
    {q next : Quote}
    {c : Char}
    (hMove : Moves q c next)
    (hOutside : q.escape = .outside)
    (hBackslash : c ≠ '\\') :
    next = q.push c := by
  cases hMove with
  | plain => rfl
  | backslash => exact absurd rfl hBackslash
  | _ => simp_all

/- Only a backslash leaves the next character escaped. -/
theorem Moves.of_started
    {q next : Quote}
    {c : Char}
    (hMove : Moves q c next)
    (hStarted : next.escape = .started) :
    c = '\\' ∧ q = { next with escape := .outside } := by
  cases hMove with
  | plain =>
      rw [escape_push] at hStarted
      cases hStarted
  | backslash hOutside =>
      rcases q with ⟨text, first, escape⟩
      cases hOutside
      exact ⟨rfl, rfl⟩
  | letter =>
      rw [escape_push] at hStarted
      cases hStarted
  | code => cases hStarted
  | digit => cases hStarted
  | unit =>
      rw [escape_unit] at hStarted
      cases hStarted

end Quote

------------------------------------------------------------
-- Strings of a Reader
------------------------------------------------------------

namespace Reader

theorem mode_deliver_ne
    (stack : List Frame)
    (t : Written)
    (q : Quote) :
    (deliver stack t).mode ≠ .string q := by
  intro hSame
  have hQuote := quote?_deliver stack t
  rw [hSame] at hQuote
  cases hQuote

/- The reader before such a backslash is in the same string. -/
theorem Moves.of_started
    {r next : Reader}
    {c : Char}
    {q : Quote}
    (hMove : Moves r c next)
    (hMode : next.mode = .string q)
    (hStarted : q.escape = .started) :
    c = '\\' ∧
      r = ⟨.string { q with escape := .outside }, next.stack⟩ := by
  induction hMove with
  | space _ hQuiet =>
      cases hMode
      cases hQuiet
  | value hFirst =>
      cases hMode
      cases hFirst
      cases hStarted
  | item hFirst =>
      cases hMode
      cases hFirst
      cases hStarted
  | string hStep =>
      cases hMode
      rcases (Quote.moves_of_more hStep).of_started hStarted with
        ⟨hChar, rfl⟩
      exact ⟨hChar, rfl⟩
  | endNumber _ _ _ ih =>
      have hSame := congrArg Reader.mode (ih hMode).2
      exact absurd hSame (mode_deliver_ne _ _ _)
  | noItem => exact absurd hMode (mode_deliver_ne _ _ _)
  | noMember => exact absurd hMode (mode_deliver_ne _ _ _)
  | endString => exact absurd hMode (mode_deliver_ne _ _ _)
  | endWord => exact absurd hMode (mode_deliver_ne _ _ _)
  | endArray => exact absurd hMode (mode_deliver_ne _ _ _)
  | endObject => exact absurd hMode (mode_deliver_ne _ _ _)
  | _ => cases hMode

/- A quote begins a string where a value comes next. -/
theorem exists_string_of_next
    {q : Reader}
    (hNext : q.mode = .value ∨ q.mode = .firstItem) :
    ∃ stack, Moves q '"' ⟨.string .start, stack⟩ := by
  rcases q with ⟨mode, stack⟩
  rcases hNext with rfl | rfl
  · exact ⟨stack, .value .string⟩
  · exact ⟨.array [] :: stack, .item .string⟩

/- What does not end a string goes on with it. -/
theorem Moves.exists_of_string
    {q : Quote}
    {stack : List Frame}
    {c : Char}
    {r : Reader}
    (hMove : Moves ⟨.string q, stack⟩ c r)
    (hInside : ¬ (q.escape = .outside ∧ c = '"')) :
    ∃ next, Quote.Moves q c next ∧ r = ⟨.string next, stack⟩ := by
  cases hMove with
  | space _ hQuiet => cases hQuiet
  | string hStep => exact ⟨_, Quote.moves_of_more hStep, rfl⟩
  | endString hStep =>
      rcases Quote.step_eq_closed_iff.mp hStep with ⟨hOutside, rfl, -⟩
      exact absurd ⟨hOutside, rfl⟩ hInside

/-
  Characters that leave a string open lead to a place in it
  where no half of a pair stands alone.
-/
theorem run?_staysOpen
    {inner : List Char}
    {q : Quote}
    {stack : List Frame}
    {r : Reader}
    (hOpen : staysOpen inner = true)
    (hRun : run? ⟨.string q, stack⟩ inner = some r)
    (hWhole : q.Whole)
    (hOutside : q.escape = .outside) :
    ∃ last,
      r = ⟨.string last, stack⟩ ∧
        last.Whole ∧
        (last.escape = .outside ∨ last.escape = .started) := by
  induction inner using staysOpen.induct generalizing q with
  | case1 =>
      cases hRun
      exact ⟨q, rfl, hWhole, .inl hOutside⟩
  | case2 =>
      rcases run?_cons_eq_some_iff.mp hRun with ⟨_, hMove, hRest⟩
      cases hRest
      rcases hMove.exists_of_string (by simp) with
        ⟨next, hMoves, rfl⟩
      rw [hMoves.eq_of_backslash hOutside]
      exact ⟨_, rfl, hWhole.started, .inr rfl⟩
  | case3 c rest ih =>
      rcases run?_cons_eq_some_iff.mp hRun with ⟨_, hMove, hBehind⟩
      rcases hMove.exists_of_string (by simp) with
        ⟨started, hMoves, rfl⟩
      rw [hMoves.eq_of_backslash hOutside] at hBehind
      rcases run?_cons_eq_some_iff.mp hBehind with ⟨_, hMove, hRest⟩
      rcases hMove.exists_of_string (by simp) with
        ⟨next, hMoves, rfl⟩
      rw [staysOpen, Bool.and_eq_true, bne_iff_ne] at hOpen
      rcases hMoves.exists_eq_push rfl hOpen.1 with ⟨d, rfl⟩
      exact
        ih hOpen.2 hRest (hWhole.started.push d)
          (Quote.escape_push _ d)
  | case4 c rest hLast hEscape ih =>
      have hBackslash := ne_of_plain hLast hEscape
      rw [staysOpen_cons_of_ne hBackslash, Bool.and_eq_true,
        bne_iff_ne] at hOpen
      rcases run?_cons_eq_some_iff.mp hRun with ⟨_, hMove, hRest⟩
      rcases hMove.exists_of_string (fun h => hOpen.1 h.2) with
        ⟨next, hMoves, rfl⟩
      rw [hMoves.eq_push hOutside hBackslash] at hRest
      exact ih hOpen.2 hRest (hWhole.push c) (Quote.escape_push q c)

/- A quote delivers a whole string. -/
theorem moves_of_whole
    {q : Quote}
    (hWhole : q.Whole)
    (hOutside : q.escape = .outside)
    (stack : List Frame) :
    ∃ s,
      Moves ⟨.string q, stack⟩ '"'
        (deliver stack (.string (some s))) := by
  rcases hWhole.exists_settled with ⟨s, hSettled⟩
  refine ⟨s, .endString ?_⟩
  rw [← hSettled]
  exact Quote.step_eq_closed_iff.mpr ⟨hOutside, rfl, rfl⟩

end Reader

end Json

end AnswerStream
