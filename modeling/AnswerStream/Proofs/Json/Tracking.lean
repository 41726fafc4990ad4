import AnswerStream.Proofs.Json.Balance
import AnswerStream.Proofs.Json.Moves

/-
  This file proves that the scan of a text follows the reader
  of it: as far as a text is well written, the scan knows where
  the strings are and which containers are open. So completion
  leaves a well-written text as it is, and the best reading of
  a text is always that of the completed one.

  Key definitions include:
    * `Json.Frame.closer`
    * `Json.Reader.closers`
    * `Json.Reader.scan`

  Main statements:
    * `Json.Reader.Moves.scan`
    * `Json.Reader.ofChars_of_run?`
    * `Json.complete_of_value?`
    * `best_reading_is_completed`
-/

namespace AnswerStream

namespace Json

------------------------------------------------------------
-- What a Scan Knows of a Reader
------------------------------------------------------------

/- The bracket that closes a container. -/
def Frame.closer : Frame → Char
| .array _ => ']'
| .object _ _ => '\x7d'

namespace Mode

/- The bracket of the container whose part is being read. -/
def closers : Mode → List Char
| .firstItem | .afterItem _ => [']']
| .firstKey | .nextKey _ | .key _ _ | .colon _ _
| .afterMember _ => ['\x7d']
| .value | .string _ | .number _ _ | .word _ _ | .done _ => []

/- The string or key that is being read. -/
def quote? : Mode → Option Quote
| .key _ quote | .string quote => some quote
| _ => none

/- Only letters are due in a word. -/
def Spelled : Mode → Prop
| .word due _ => ∀ c ∈ due, c.isAlpha = true
| _ => True

end Mode

namespace Reader

/- The brackets that close the open containers. -/
def closers (r : Reader) : List Char :=
  r.mode.closers ++ r.stack.map Frame.closer

/- The reader is inside a string or a key. -/
def inString (r : Reader) : Bool :=
  r.mode.quote?.isSome

/- What a scan knows at the place of a reader. -/
def scan (r : Reader) : Scan where
  inString := r.inString
  escaped := r.mode.quote?.any fun q => q.escape == .started
  closers := r.closers

@[simp] theorem closers_deliver
    (stack : List Frame)
    (t : Written) :
    (deliver stack t).closers = stack.map Frame.closer := by
  cases stack with
  | nil => rfl
  | cons frame rest => cases frame <;> rfl

@[simp] theorem quote?_deliver
    (stack : List Frame)
    (t : Written) :
    (deliver stack t).mode.quote? = none := by
  cases stack with
  | nil => rfl
  | cons frame rest => cases frame <;> rfl

theorem scan_deliver
    (stack : List Frame)
    (t : Written) :
    (deliver stack t).scan =
      ⟨false, false, stack.map Frame.closer⟩ := by
  simp [scan, inString]

theorem spelled_deliver
    (stack : List Frame)
    (t : Written) :
    (deliver stack t).mode.Spelled := by
  cases stack with
  | nil => trivial
  | cons frame rest => cases frame <;> trivial

end Reader

------------------------------------------------------------
-- Strings
------------------------------------------------------------

namespace Quote

/- No hexadecimal digit ends a string or opens an escape. -/
theorem ne_of_hexValue?
    {c : Char}
    {d : Nat}
    (hHex : hexValue? c = some d) :
    c ≠ '"' ∧ c ≠ '\\' := by
  refine ⟨?_, ?_⟩ <;> (rintro rfl; cases hHex)

/- A scan keeps track of the escapes in a string. -/
theorem Moves.scan
    {q next : Quote}
    {c : Char}
    (hMove : Moves q c next)
    (closers : List Char) :
    Scan.step ⟨true, q.escape == .started, closers⟩ c =
      ⟨true, next.escape == .started, closers⟩ := by
  cases hMove with
  | plain hOutside hQuote hBackslash =>
      rw [hOutside, escape_push]
      simp [Scan.step, Scan.stringStep, hQuote, hBackslash]
  | backslash hOutside =>
      rw [hOutside]
      rfl
  | letter hStarted _ =>
      rw [hStarted, escape_push]
      rfl
  | code hStarted =>
      rw [hStarted]
      rfl
  | digit hDigits hHex =>
      rcases ne_of_hexValue? hHex with ⟨hQuote, hBackslash⟩
      rw [hDigits]
      simp [Scan.step, Scan.stringStep, hQuote, hBackslash]
  | unit hDigits hHex =>
      rcases ne_of_hexValue? hHex with ⟨hQuote, hBackslash⟩
      rw [hDigits, escape_unit]
      simp [Scan.step, Scan.stringStep, hQuote, hBackslash]

/- It leaves the string where the string ends. -/
theorem scan_of_closed
    {q : Quote}
    {c : Char}
    {text : Option String}
    (hStep : q.step c = .closed text)
    (closers : List Char) :
    Scan.step ⟨true, q.escape == .started, closers⟩ c =
      ⟨false, false, closers⟩ := by
  rcases step_eq_closed_iff.mp hStep with ⟨hOutside, rfl, -⟩
  rw [hOutside]
  rfl

end Quote

------------------------------------------------------------
-- Plain Parts of a Text
------------------------------------------------------------

/- White space is plain, and so are letters and numerals. -/
theorem Scan.IsPlain.of_isAlpha
    {c : Char}
    (hAlpha : c.isAlpha = true) :
    IsPlain c := by
  intro hMark
  simp only [marks, List.mem_cons, List.not_mem_nil, or_false]
    at hMark
  rcases hMark with rfl | rfl | rfl | rfl | rfl <;>
    exact absurd hAlpha (by decide)

theorem Scan.IsPlain.of_isDigit
    {c : Char}
    (hDigit : c.isDigit = true) :
    IsPlain c := by
  intro hMark
  simp only [marks, List.mem_cons, List.not_mem_nil, or_false]
    at hMark
  rcases hMark with rfl | rfl | rfl | rfl | rfl <;>
    exact absurd hDigit (by decide)

theorem Scan.IsPlain.of_numeral
    {n next : Numeral}
    {phase later : Numeral.Phase}
    {c : Char}
    (hStep : n.step phase c = some (later, next)) :
    IsPlain c := by
  intro hMark
  simp only [marks, List.mem_cons, List.not_mem_nil, or_false]
    at hMark
  rcases hMark with rfl | rfl | rfl | rfl | rfl <;> cases hStep

/- A plain character leaves a scan outside of strings as it is. -/
theorem Scan.step_of_plain
    {c : Char}
    (hPlain : IsPlain c)
    (closers : List Char) :
    step ⟨false, false, closers⟩ c = ⟨false, false, closers⟩ :=
  outerStep_of_plain hPlain _

------------------------------------------------------------
-- The Scan Follows the Reader
------------------------------------------------------------

namespace Reader

theorem scan_of_quiet
    {mode : Mode}
    (hQuiet : mode.isQuiet = true)
    (stack : List Frame) :
    (Reader.mk mode stack).scan =
      ⟨false, false, (Reader.mk mode stack).closers⟩ := by
  cases mode <;> first | rfl | cases hQuiet

/- The first character of a value. -/
theorem First.scan
    {c : Char}
    {mode : Mode}
    (hFirst : First c mode)
    (stack : List Frame) :
    Scan.step ⟨false, false, stack.map Frame.closer⟩ c =
      (Reader.mk mode stack).scan := by
  cases hFirst with
  | minus => exact Scan.step_of_plain (by decide) _
  | digit hDigit _ => exact Scan.step_of_plain (.of_isDigit hDigit) _
  | yes => exact Scan.step_of_plain (by decide) _
  | no => exact Scan.step_of_plain (by decide) _
  | null => exact Scan.step_of_plain (by decide) _
  | _ => rfl

theorem First.spelled
    {c : Char}
    {mode : Mode}
    (hFirst : First c mode) :
    mode.Spelled := by
  cases hFirst <;> simp [Mode.Spelled]

/- Only letters are due in a word, whatever is read. -/
theorem Moves.spelled
    {r next : Reader}
    {c : Char}
    (hMove : Moves r c next)
    (hSpelled : r.mode.Spelled) :
    next.mode.Spelled := by
  induction hMove with
  | space _ _ => exact hSpelled
  | value hFirst => exact hFirst.spelled
  | item hFirst => exact hFirst.spelled
  | endNumber _ _ _ ih => exact ih (spelled_deliver _ _)
  | word => exact fun d hMember => hSpelled d (.tail _ hMember)
  | noItem => exact spelled_deliver _ _
  | noMember => exact spelled_deliver _ _
  | endString _ => exact spelled_deliver _ _
  | endWord => exact spelled_deliver _ _
  | endArray => exact spelled_deliver _ _
  | endObject => exact spelled_deliver _ _
  | _ => trivial

/- With every character the scan does what the reader does. -/
theorem Moves.scan
    {r next : Reader}
    {c : Char}
    (hMove : Moves r c next)
    (hSpelled : r.mode.Spelled) :
    r.scan.step c = next.scan := by
  induction hMove with
  | space hSpace hQuiet =>
      rw [scan_of_quiet hQuiet]
      have hBlank := isBlank_of_isSpace hSpace
      exact Scan.step_of_plain (.of_isBlank hBlank) _
  | value hFirst => exact hFirst.scan _
  | @item mode stack c hFirst =>
      exact hFirst.scan (.array [] :: stack)
  | noItem => rw [scan_deliver]; rfl
  | noMember => rw [scan_deliver]; rfl
  | key hStep => exact (Quote.moves_of_more hStep).scan _
  | endKey hStep => exact Quote.scan_of_closed hStep _
  | string hStep => exact (Quote.moves_of_more hStep).scan _
  | endString hStep =>
      rw [scan_deliver]
      exact Quote.scan_of_closed hStep _
  | number hStep => exact Scan.step_of_plain (.of_numeral hStep) _
  | endNumber _ _ _ ih =>
      rw [← ih (spelled_deliver _ _), scan_deliver]
      rfl
  | word =>
      exact Scan.step_of_plain (.of_isAlpha (hSpelled _ (.head _))) _
  | endWord =>
      rw [scan_deliver]
      exact Scan.step_of_plain (.of_isAlpha (hSpelled _ (.head _))) _
  | endArray => rw [scan_deliver]; rfl
  | endObject => rw [scan_deliver]; rfl
  | _ => rfl

/- Only letters are due in a word of a text. -/
theorem spelled_of_run?
    {cs : List Char}
    {r : Reader}
    (hRun : start.run? cs = some r) :
    r.mode.Spelled :=
  run?_keeps (P := fun q => q.mode.Spelled)
    (fun _ hMove hSpelled => hMove.spelled hSpelled) hRun trivial

/- So the scan of a text is that of the reader. -/
theorem ofChars_of_run?
    {cs : List Char}
    {r : Reader}
    (hRun : start.run? cs = some r) :
    Scan.ofChars cs = r.scan := by
  induction cs using List.reverseRecOn generalizing r with
  | nil =>
      cases hRun
      rfl
  | append_singleton cs c ih =>
      rcases run?_concat_eq_some_iff.mp hRun with ⟨q, hBefore, hMove⟩
      rw [Scan.ofChars_concat, ih hBefore]
      exact hMove.scan (spelled_of_run? hBefore)

/- A character that the scan does not heed can be left out. -/
theorem scan_of_concat_plain
    {cs : List Char}
    {c : Char}
    {q r : Reader}
    (hBefore : start.run? cs = some q)
    (hRun : start.run? (cs ++ [c]) = some r)
    (hPlain : Scan.IsPlain c)
    (hOutside : r.inString = false) :
    q.scan = r.scan := by
  rw [← ofChars_of_run? hBefore, ← ofChars_of_run? hRun]
  refine Scan.ofChars_of_concat_plain hPlain ?_
  rw [ofChars_of_run? hRun]
  exact hOutside

------------------------------------------------------------
-- What Completion Adds
------------------------------------------------------------

/- Inside a string it ends the string and closes what is open. -/
theorem completeChars_of_inside
    {cs : List Char}
    {r : Reader}
    (hRun : start.run? cs = some r)
    (hInside : r.inString = true) :
    completeChars cs =
      completeString r.scan.escaped cs ++ r.closers := by
  rw [completeChars, ofChars_of_run? hRun]
  exact congrArg (· ++ r.closers) (if_pos hInside)

/- Outside of strings it tidies the end and closes what is open. -/
theorem completeChars_of_outside
    {cs : List Char}
    {r : Reader}
    (hRun : start.run? cs = some r)
    (hOutside : r.inString = false) :
    completeChars cs = completeOuter r.closers cs ++ r.closers := by
  rw [completeChars, ofChars_of_run? hRun]
  refine congrArg (· ++ r.closers) (if_neg ?_)
  exact ne_true_of_eq_false hOutside

end Reader

------------------------------------------------------------
-- Behind a Value
------------------------------------------------------------

/- A value has just been read, or a number that may end here. -/
def Mode.hasValue : Mode → Bool
| .afterItem _ | .afterMember _ | .done _ => true
| .number phase _ => phase.complete
| _ => false

namespace Reader

theorem hasValue_deliver
    (stack : List Frame)
    (t : Written) :
    (deliver stack t).mode.hasValue = true := by
  cases stack with
  | nil => rfl
  | cons frame rest => cases frame <;> rfl

/- A text ends behind its value, or with a number. -/
theorem eq_of_finish?
    {r : Reader}
    {t : Written}
    (hFinish : r.finish? = some t) :
    r = ⟨.done t, []⟩ ∨
      ∃ phase numeral,
        phase.complete = true ∧
          r = ⟨.number phase numeral, []⟩ ∧ t = .number numeral := by
  rcases r with ⟨mode, stack⟩
  unfold finish? at hFinish
  split at hFinish
  · next hMode hStack =>
    cases hMode
    cases hStack
    cases hFinish
    exact .inl rfl
  · next phase numeral hMode hStack =>
    cases hMode
    cases hStack
    split at hFinish
    · next hComplete =>
      cases hFinish
      exact .inr ⟨phase, numeral, hComplete, rfl, rfl⟩
    · cases hFinish
  · cases hFinish

theorem hasValue_of_finish?
    {r : Reader}
    {t : Written}
    (hFinish : r.finish? = some t) :
    r.mode.hasValue = true := by
  rcases eq_of_finish? hFinish with
    rfl | ⟨phase, numeral, hComplete, rfl, -⟩
  · rfl
  · exact hComplete

theorem inString_of_hasValue
    {r : Reader}
    (hValue : r.mode.hasValue = true) :
    r.inString = false := by
  rcases r with ⟨mode, stack⟩
  cases mode <;> first | rfl | cases hValue

theorem scan_of_finish?
    {r : Reader}
    {t : Written}
    (hFinish : r.finish? = some t) :
    r.scan = Scan.start := by
  rcases eq_of_finish? hFinish with
    rfl | ⟨phase, numeral, -, rfl, -⟩ <;> rfl

/- White space is no part of a numeral. -/
theorem isBlank_of_numeral
    {n next : Numeral}
    {phase later : Numeral.Phase}
    {c : Char}
    (hStep : n.step phase c = some (later, next)) :
    Text.isBlank c = false := by
  unfold Numeral.step at hStep
  split at hStep
  · next hDigit => exact Text.isBlank_of_isDigit hDigit
  split at hStep
  · next h => rw [h]; decide
  split at hStep
  · next h => rcases h with rfl | rfl <;> decide
  split at hStep
  · next h => rw [h]; decide
  split at hStep
  · next h => rw [h]; decide
  · cases hStep

/- Outside of strings white space comes only behind a value. -/
theorem Moves.hasValue_before
    {r next : Reader}
    {c : Char}
    (hMove : Moves r c next)
    (hSpelled : r.mode.Spelled)
    (hBlank : Text.isBlank c = true)
    (hValue : next.mode.hasValue = true) :
    r.mode.hasValue = true := by
  cases hMove with
  | space _ _ => exact hValue
  | value hFirst =>
      rw [hFirst.isBlank_eq] at hBlank
      cases hBlank
  | item hFirst =>
      rw [hFirst.isBlank_eq] at hBlank
      cases hBlank
  | endString hStep =>
      rcases Quote.step_eq_closed_iff.mp hStep with ⟨-, rfl, -⟩
      exact absurd hBlank (by decide)
  | number hStep =>
      rw [isBlank_of_numeral hStep] at hBlank
      cases hBlank
  | endNumber hComplete _ _ => exact hComplete
  | endWord =>
      rw [Text.isBlank_of_isAlpha (hSpelled _ (.head _))] at hBlank
      cases hBlank
  | noItem => exact absurd hBlank (by decide)
  | noMember => exact absurd hBlank (by decide)
  | endArray => rfl
  | endObject => rfl
  | _ => cases hValue

/- No value ends with a comma or with a colon. -/
theorem Moves.hasValue_of_comma
    {r next : Reader}
    {c : Char}
    (hMove : Moves r c next)
    (hSpelled : r.mode.Spelled)
    (hComma : c = ',' ∨ c = ':') :
    next.mode.hasValue = false := by
  induction hMove with
  | space hSpace _ => rcases hComma with rfl | rfl <;> cases hSpace
  | value hFirst =>
      refine absurd hFirst.not_mem ?_
      rcases hComma with rfl | rfl <;> simp
  | item hFirst =>
      refine absurd hFirst.not_mem ?_
      rcases hComma with rfl | rfl <;> simp
  | endString hStep =>
      rcases Quote.step_eq_closed_iff.mp hStep with ⟨-, rfl, -⟩
      rcases hComma with h | h <;> cases h
  | number hStep => rcases hComma with rfl | rfl <;> cases hStep
  | endNumber _ _ _ ih => exact ih (spelled_deliver _ _) hComma
  | endWord =>
      have hAlpha := hSpelled _ (.head _)
      rcases hComma with rfl | rfl <;> cases hAlpha
  | noItem => rcases hComma with h | h <;> cases h
  | noMember => rcases hComma with h | h <;> cases h
  | endArray => rcases hComma with h | h <;> cases h
  | endObject => rcases hComma with h | h <;> cases h
  | _ => rfl

/- If a value stands behind white space, it stands before it. -/
theorem hasValue_of_blanks
    {r last : Reader}
    {blanks : List Char}
    (hSpelled : r.mode.Spelled)
    (hBlank : ∀ c ∈ blanks, Text.isBlank c = true)
    (hRun : r.run? blanks = some last)
    (hValue : last.mode.hasValue = true) :
    r.mode.hasValue = true := by
  induction blanks generalizing r with
  | nil =>
      cases hRun
      exact hValue
  | cons c blanks ih =>
      rcases run?_cons_eq_some_iff.mp hRun with ⟨next, hMove, hRest⟩
      rcases List.forall_mem_cons.mp hBlank with ⟨hFirst, hOthers⟩
      have hNext :=
        ih (hMove.spelled hSpelled) hOthers hRest
      exact hMove.hasValue_before hSpelled hFirst hNext

end Reader

------------------------------------------------------------
-- Well-Written Texts
------------------------------------------------------------

/- Completion only trims a text that is well written. -/
theorem completeChars_of_finish?
    {cs : List Char}
    {r : Reader}
    {t : Written}
    (hRun : Reader.start.run? cs = some r)
    (hFinish : r.finish? = some t) :
    completeChars cs = Text.dropBlankEnd cs := by
  have hBalanced : Scan.ofChars cs = Scan.start :=
    (Reader.ofChars_of_run? hRun).trans
      (Reader.scan_of_finish? hFinish)
  refine completeChars_of_balanced hBalanced ?_
  intro hComma
  rcases List.getLast?_eq_some_iff.mp hComma with ⟨body, hBody⟩
  rcases Text.exists_blank_behind cs with ⟨blanks, hParts, hBlank⟩
  rw [hParts, hBody] at hRun
  rcases Reader.run?_append_eq_some_iff.mp hRun with
    ⟨q, hBefore, hBehind⟩
  rcases Reader.run?_concat_eq_some_iff.mp hBefore with
    ⟨_, hFirst, hMove⟩
  have hLast :=
    Reader.hasValue_of_blanks (Reader.spelled_of_run? hBefore)
      hBlank hBehind (Reader.hasValue_of_finish? hFinish)
  rw [hMove.hasValue_of_comma (Reader.spelled_of_run? hFirst)
    (.inl rfl)] at hLast
  cases hLast

/- So it does with a text that has a value. -/
theorem complete_of_value?
    {s : String}
    {v : Value}
    (hValue : value? s = some v) :
    complete s = Text.trimEnd s := by
  rcases Option.bind_eq_some_iff.mp hValue with ⟨t, hWritten, -⟩
  rcases Option.bind_eq_some_iff.mp hWritten with ⟨r, hRun, hFinish⟩
  exact congrArg String.ofList (completeChars_of_finish? hRun hFinish)

end Json

/- Reading the completed text first makes no difference. -/
theorem Json.partialValue?_eq (s : String) :
    Json.partialValue? s =
      Json.value? (Json.complete (Text.trim s)) := by
  unfold Json.partialValue?
  cases hEmpty : (Text.trim s).isEmpty with
  | true =>
      rw [String.isEmpty_iff.mp hEmpty]
      rfl
  | false =>
      cases hValue : Json.value? (Text.trim s) with
      | none => simp [hEmpty, hValue]
      | some v =>
          rw [Json.complete_of_value? hValue, Text.trimEnd_trim]
          simp [hEmpty, hValue]

/-
  The best reading of a text is that of the completed one,
  whether or not the text can be read as it is: completion only
  trims a text that has a value.
-/
theorem best_reading_is_completed (s : String) :
    Json.partialValue? s =
        Json.value? (Json.complete (Text.trim s)) ∧
      ((Json.value? s).isSome = true →
        Json.complete s = Text.trimEnd s) := by
  refine ⟨Json.partialValue?_eq s, ?_⟩
  intro hSome
  rcases Option.isSome_iff_exists.mp hSome with ⟨v, hValue⟩
  exact Json.complete_of_value? hValue

/- White space behind a value is all that completion drops. -/
theorem spaced_text_is_trimmed :
    let s := " [1, \x7b\"a\": \"b,\"\x7d]\n"
    Json.partialValue? s =
        Json.value? (Json.complete (Text.trim s)) ∧
      Json.complete s = Text.trimEnd s := by
  intro s
  rcases best_reading_is_completed s with ⟨hReading, hTrimmed⟩
  exact ⟨hReading, hTrimmed (by decide +kernel)⟩

end AnswerStream
