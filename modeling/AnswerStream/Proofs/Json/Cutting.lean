import AnswerStream.Proofs.Json.Closing
import AnswerStream.Proofs.Json.Quoting

/-
  This file proves where a text can be cut and still has a best
  reading: behind an opening bracket, a comma or a colon, behind
  a value, and inside a string that is a value, as long as no
  code unit is escaped there. What stands in front of the cut
  is completed to a text that has a value.

  Key definitions include:
    * `Json.ValueNext`
    * `Json.EndsOutside`
    * `Json.Delimited`
    * `Json.CleanCut`

  Main statements:
    * `Json.Reader.isSome_value?_of_token`
    * `Json.Reader.isSome_value?_of_hasValue`
    * `Json.Reader.isSome_value?_of_string`
    * `clean_cuts_are_completed`
-/

namespace AnswerStream

namespace Json

------------------------------------------------------------
-- Cuts
------------------------------------------------------------

/- Behind the characters a value comes next. -/
def ValueNext (cs : List Char) : Prop :=
  ∃ r,
    Reader.start.run? cs = some r ∧
      (r.mode = .value ∨ r.mode = .firstItem)

/- The characters end outside of strings and keys. -/
def EndsOutside (cs : List Char) : Prop :=
  ∃ r, Reader.start.run? cs = some r ∧ r.inString = false

/- The characters behind which a text can be cut. -/
def tokens : List Char :=
  ['\x7b', '[', ',', ':']

/-
  The characters do not go on with a value that ends before
  them: they begin with white space, a comma or a closing
  bracket, if there are any.
-/
def Delimited (cs : List Char) : Prop :=
  ∀ c ∈ cs.head?,
    Reader.isSpace c = true ∨ c ∈ [',', ']', '\x7d']

/-
  A place where a text is cut cleanly, by the characters behind
  it and those in front of it: behind an opening bracket, a
  comma or a colon, or behind a whole value, with any white
  space, or inside a string that is a value.
-/
inductive CleanCut (rest : List Char) : List Char → Prop where
| token
    {kept blanks : List Char}
    {c : Char}
    (hToken : c ∈ tokens)
    (hOutside : EndsOutside kept)
    (hSpace : ∀ b ∈ blanks, Reader.isSpace b = true) :
    CleanCut rest (kept ++ c :: blanks)
| value
    {kept blanks : List Char}
    {v : String}
    (hNext : ValueNext kept)
    (hWritten : (written? v).isSome = true)
    (hTrimmed : Text.trim v = v)
    (hSpace : ∀ b ∈ blanks, Reader.isSpace b = true)
    (hEnd : Delimited (blanks ++ rest)) :
    CleanCut rest (kept ++ v.toList ++ blanks)
| string
    {kept inner : List Char}
    (hNext : ValueNext kept)
    (hOpen : staysOpen inner = true) :
    CleanCut rest (kept ++ '"' :: inner)

namespace Reader

------------------------------------------------------------
-- Tokens
------------------------------------------------------------

theorem First.of_token
    {c : Char}
    {mode : Mode}
    (hFirst : First c mode)
    (hToken : c ∈ tokens) :
    (c = '\x7b' ∧ mode = .firstKey) ∨
      (c = '[' ∧ mode = .firstItem) := by
  cases hFirst with
  | object => exact .inl ⟨rfl, rfl⟩
  | array => exact .inr ⟨rfl, rfl⟩
  | digit hDigit _ =>
      simp only [tokens, List.mem_cons, List.not_mem_nil, or_false]
        at hToken
      rcases hToken with rfl | rfl | rfl | rfl <;> cases hDigit
  | _ => exact absurd hToken (by decide)

/- What a bracket, a comma or a colon does outside of strings. -/
theorem Moves.of_token
    {r next : Reader}
    {c : Char}
    (hMove : Moves r c next)
    (hSpelled : r.mode.Spelled)
    (hOutside : r.inString = false)
    (hToken : c ∈ tokens) :
    (c = '\x7b' ∧ next.mode = .firstKey) ∨
      (c = '[' ∧ next.mode = .firstItem) ∨
      (c = ',' ∧ r.mode.hasValue = true ∧ next.inString = false) ∨
      (c = ':' ∧
        ∃ members key stack,
          next = ⟨.value, .object members key :: stack⟩) := by
  have hCases : c = '\x7b' ∨ c = '[' ∨ c = ',' ∨ c = ':' := by
    simpa [tokens] using hToken
  induction hMove with
  | space hSpace _ =>
      rcases hCases with rfl | rfl | rfl | rfl <;> cases hSpace
  | value hFirst =>
      rcases hFirst.of_token hToken with hObject | hArray
      · exact .inl hObject
      · exact .inr (.inl hArray)
  | item hFirst =>
      rcases hFirst.of_token hToken with hObject | hArray
      · exact .inl hObject
      · exact .inr (.inl hArray)
  | key _ => cases hOutside
  | endKey _ => cases hOutside
  | string _ => cases hOutside
  | endString _ => cases hOutside
  | number hStep =>
      rcases hCases with rfl | rfl | rfl | rfl <;> cases hStep
  | endNumber hComplete _ _ ih =>
      have hRest :=
        ih (spelled_deliver _ _) (by simp [inString]) hToken hCases
      rcases hRest with hObject | hArray | hComma | hColon
      · exact .inl hObject
      · exact .inr (.inl hArray)
      · exact .inr (.inr (.inl ⟨hComma.1, hComplete, hComma.2.2⟩))
      · exact .inr (.inr (.inr hColon))
  | word =>
      have hAlpha := hSpelled _ (.head _)
      rcases hCases with rfl | rfl | rfl | rfl <;> cases hAlpha
  | endWord =>
      have hAlpha := hSpelled _ (.head _)
      rcases hCases with rfl | rfl | rfl | rfl <;> cases hAlpha
  | colon => exact .inr (.inr (.inr ⟨rfl, _, _, _, rfl⟩))
  | nextItem => exact .inr (.inr (.inl ⟨rfl, rfl, rfl⟩))
  | nextMember => exact .inr (.inr (.inl ⟨rfl, rfl, rfl⟩))
  | _ => exact absurd hToken (by decide)

/- A number that has ended has a value if the text goes on to one. -/
theorem Moves.readable_number
    {phase : Numeral.Phase}
    {numeral : Numeral}
    {stack : List Frame}
    {next : Reader}
    {c : Char}
    (hMove : Moves ⟨.number phase numeral, stack⟩ c next)
    (hEnd : numeral.step phase c = none)
    (hReadable : next.Readable) :
    (deliver stack (.number numeral)).Readable := by
  cases hMove with
  | space _ hQuiet => cases hQuiet
  | number hStep => rw [hEnd] at hStep; cases hStep
  | endNumber _ _ hMove => exact hMove.readable_before hReadable

/- So does one before a delimiter, or at the end. -/
theorem readable_number_of_delimited
    {phase : Numeral.Phase}
    {numeral : Numeral}
    {stack : List Frame}
    {last : Reader}
    {cs : List Char}
    {t : Written}
    (hEnd : Delimited cs)
    (hRun : run? ⟨.number phase numeral, stack⟩ cs = some last)
    (hFinish : last.finish? = some t)
    (hTree : Written.Readable Written.depthLimit t) :
    (deliver stack (.number numeral)).Readable := by
  cases cs with
  | nil =>
      cases hRun
      rcases eq_of_finish? hFinish with hDone | ⟨_, _, _, hSame, rfl⟩
      · cases hDone
      · cases hSame
        exact ⟨_, ⟨rfl, hTree⟩, rfl⟩
  | cons c cs =>
      rcases run?_cons_eq_some_iff.mp hRun with ⟨next, hMove, hRest⟩
      refine hMove.readable_number ?_
        (readable_of_run? hRest (readable_of_finish? hFinish hTree))
      cases hStep : numeral.step phase c with
      | none => rfl
      | some result =>
          rcases hEnd c rfl with hSpace | hMember
          · have hVisible := isBlank_of_numeral hStep
            rw [isBlank_of_isSpace hSpace] at hVisible
            cases hVisible
          · simp only [List.mem_cons, List.not_mem_nil, or_false]
              at hMember
            rcases hMember with rfl | rfl | rfl <;> cases hStep

------------------------------------------------------------
-- Completed Cuts
------------------------------------------------------------

/- What was read and can be closed is completed to a value. -/
theorem Closes.isSome_value?
    {r : Reader}
    {cs : List Char}
    (hCloses : r.Closes)
    (hRun : start.run? cs = some r) :
    (value? (String.ofList (cs ++ r.closers))).isSome = true := by
  rcases hCloses with ⟨last, tree, hClosers, hFinish, hTree⟩
  have hWritten :
      written? (String.ofList (cs ++ r.closers)) = some tree := by
    rw [written?, String.toList_ofList, run?_append, hRun]
    simp only [Option.bind_some, hClosers, hFinish]
  rw [value?, hWritten]
  exact hTree

/- Outside of strings a visible end is kept but for a comma. -/
theorem completeChars_of_visible
    {cs : List Char}
    {c : Char}
    {r : Reader}
    (hRun : start.run? (cs ++ [c]) = some r)
    (hOutside : r.inString = false)
    (hVisible : Text.isBlank c = false)
    (hComma : c ≠ ',')
    (hColon : c ≠ ':') :
    completeChars (cs ++ [c]) = cs ++ [c] ++ r.closers := by
  have hKept := Text.dropBlankEnd_concat hVisible cs
  rw [completeChars_of_outside hRun hOutside,
    completeOuter_of_other (by rw [hKept]; simpa using hColon)
      (by rw [hKept]; simpa using hComma), hKept]

/- A colon that is kept gets a null. -/
theorem completeChars_of_colon
    {cs : List Char}
    {members : List (Option String × Written)}
    {key : Option String}
    {stack : List Frame}
    (hRun :
      start.run? (cs ++ [':']) =
        some ⟨.value, .object members key :: stack⟩) :
    completeChars (cs ++ [':']) =
      cs ++ [':'] ++ ['n', 'u', 'l', 'l'] ++
        (Frame.object members key :: stack).map Frame.closer := by
  have hKept :=
    Text.dropBlankEnd_concat (c := ':') (by decide) cs
  rw [completeChars_of_outside hRun rfl,
    completeOuter_of_colon (by rw [hKept]; simp) rfl, hKept]
  rfl

/- A comma is left out. -/
theorem completeChars_of_comma
    {cs : List Char}
    {q r : Reader}
    (hBefore : start.run? cs = some q)
    (hRun : start.run? (cs ++ [',']) = some r)
    (hOutside : r.inString = false) :
    completeChars (cs ++ [',']) = cs ++ q.closers := by
  have hScan : q.scan = r.scan :=
    scan_of_concat_plain hBefore hRun (by decide) hOutside
  have hClosers : q.closers = r.closers :=
    congrArg Scan.closers hScan
  have hKept :=
    Text.dropBlankEnd_concat (c := ',') (by decide) cs
  rw [completeChars_of_outside hRun hOutside,
    completeOuter_of_comma (by rw [hKept]; simp), hKept,
    List.dropLast_concat, hClosers]

/- A null is delivered where a value is due. -/
theorem run?_null (stack : List Frame) :
    run? ⟨.value, stack⟩ ['n', 'u', 'l', 'l'] =
      some (deliver stack .null) :=
  rfl

/- A text is completed behind a bracket, a comma or a colon. -/
theorem isSome_value?_of_token
    {cs : List Char}
    {c : Char}
    {q r : Reader}
    (hRun : start.run? cs = some q)
    (hMove : Moves q c r)
    (hOutside : q.inString = false)
    (hToken : c ∈ tokens)
    (hReadable : r.Readable) :
    (value? (String.ofList (completeChars (cs ++ [c])))).isSome =
      true := by
  have hBehind := run?_concat_eq_some_iff.mpr ⟨q, hRun, hMove⟩
  have hSpelled := spelled_of_run? hRun
  rcases hMove.of_token hSpelled hOutside hToken with
    ⟨rfl, hMode⟩ | ⟨rfl, hMode⟩ | ⟨rfl, hValue, hBetween⟩ |
    ⟨rfl, members, key, stack, rfl⟩
  · rcases r with ⟨mode, stack⟩
    cases hMode
    rw [completeChars_of_visible hBehind rfl (by decide) (by decide)
      (by decide)]
    refine Closes.isSome_value? ?_ hBehind
    exact
      closes_of_bracket rfl .noMember
        (readable_deliver_iff.mpr hReadable)
  · rcases r with ⟨mode, stack⟩
    cases hMode
    rw [completeChars_of_visible hBehind rfl (by decide) (by decide)
      (by decide)]
    refine Closes.isSome_value? ?_ hBehind
    exact
      closes_of_bracket rfl .noItem
        (readable_deliver_iff.mpr hReadable)
  · rw [completeChars_of_comma hRun hBehind hBetween]
    refine Closes.isSome_value? ?_ hRun
    refine
      closes_of_hasValue hValue (hMove.readable_before hReadable) ?_
    intro phase numeral hNumber
    rcases q with ⟨mode, stack⟩
    cases hNumber
    exact hMove.readable_number rfl hReadable
  · rw [completeChars_of_colon hBehind]
    rcases hReadable with ⟨depth, -, hStack⟩
    have hNull :
        (deliver (.object members key :: stack) .null).Closes :=
      closes_deliver
        (readable_deliver_iff.mpr
          ⟨depth, Written.readable_null, hStack⟩)
    have hSome :=
      hNull.isSome_value?
        (run?_append_eq_some_iff.mpr ⟨_, hBehind, run?_null _⟩)
    rwa [closers_deliver] at hSome

------------------------------------------------------------
-- Values
------------------------------------------------------------

/- A text is completed behind a value. -/
theorem isSome_value?_of_hasValue
    {cs : List Char}
    {c : Char}
    {r : Reader}
    (hRun : start.run? (cs ++ [c]) = some r)
    (hVisible : Text.isBlank c = false)
    (hValue : r.mode.hasValue = true)
    (hCloses : r.Closes) :
    (value? (String.ofList (completeChars (cs ++ [c])))).isSome =
      true := by
  rcases run?_concat_eq_some_iff.mp hRun with ⟨q, hBefore, hMove⟩
  have hNoComma : ¬ (c = ',' ∨ c = ':') := fun hComma => by
    rw [hMove.hasValue_of_comma (spelled_of_run? hBefore) hComma]
      at hValue
    cases hValue
  rw [not_or] at hNoComma
  rw [completeChars_of_visible hRun (inString_of_hasValue hValue)
    hVisible hNoComma.1 hNoComma.2]
  exact hCloses.isSome_value? hRun

------------------------------------------------------------
-- Strings
------------------------------------------------------------

/- A text is completed behind a part of a string. -/
theorem isSome_value?_of_string
    {cs : List Char}
    {q : Quote}
    {stack : List Frame}
    (hRun : start.run? cs = some ⟨.string q, stack⟩)
    (hWhole : q.Whole)
    (hEscape : q.escape = .outside ∨ q.escape = .started)
    (hReadable : Readable ⟨.string q, stack⟩) :
    (value? (String.ofList (completeChars cs))).isSome = true := by
  -- the text in front of an unfinished escape
  have hKept :
      ∃ kept last,
        completeChars cs =
            kept ++ '"' :: stack.map Frame.closer ∧
          start.run? kept = some ⟨.string last, stack⟩ ∧
          last.Whole ∧ last.escape = .outside := by
    rw [completeChars_of_inside hRun rfl]
    rcases hEscape with hOutside | hStarted
    · refine ⟨cs, q, ?_, hRun, hWhole, hOutside⟩
      simp [completeString, scan, closers, Mode.closers,
        Mode.quote?, hOutside]
    · rcases List.eq_nil_or_concat' cs with rfl | ⟨kept, c, rfl⟩
      · cases hRun
      · rcases run?_concat_eq_some_iff.mp hRun with
          ⟨r, hBefore, hMove⟩
        rcases hMove.of_started rfl hStarted with ⟨rfl, rfl⟩
        refine
          ⟨kept, _, ?_, hBefore, ⟨hWhole.first, hWhole.text⟩, rfl⟩
        simp [completeString, scan, closers, Mode.closers,
          Mode.quote?, hStarted]
  rcases hKept with ⟨kept, last, hChars, hBefore, hWhole, hOutside⟩
  rcases moves_of_whole hWhole hOutside stack with ⟨s, hMove⟩
  rcases hReadable with ⟨depth, -, hStack⟩
  have hCloses : (deliver stack (.string (some s))).Closes :=
    closes_deliver
      (readable_deliver_iff.mpr
        ⟨depth, Written.readable_string s, hStack⟩)
  have hSome :=
    hCloses.isSome_value?
      (run?_concat_eq_some_iff.mpr ⟨_, hBefore, hMove⟩)
  rw [closers_deliver, List.append_assoc, List.singleton_append]
    at hSome
  rwa [hChars]

end Reader

------------------------------------------------------------
-- Clean Cuts
------------------------------------------------------------

open Reader

/- White space behind a visible character is trimmed away. -/
theorem toList_trim_of_spaces
    {s : String}
    {c : Char}
    {cs blanks : List Char}
    (hParts : s.toList = cs ++ c :: blanks)
    (hVisible : Text.isBlank c = false)
    (hSpace : ∀ b ∈ blanks, isSpace b = true) :
    (Text.trim s).toList = Text.dropBlank cs ++ [c] := by
  rw [Text.toList_trim_of_visible hVisible hParts,
    Text.dropBlankEnd_of_blank fun b hMember =>
      isBlank_of_isSpace (hSpace b hMember)]

/- A text with a value is read to a tree with a value. -/
theorem exists_run?_of_value?
    {s : String}
    (hText : (value? s).isSome = true) :
    ∃ last t,
      start.run? s.toList = some last ∧
        last.finish? = some t ∧
        Written.Readable Written.depthLimit t := by
  rcases Option.isSome_iff_exists.mp hText with ⟨v, hValue⟩
  rcases Option.bind_eq_some_iff.mp hValue with ⟨t, hWritten, hTree⟩
  rcases Option.bind_eq_some_iff.mp hWritten with
    ⟨last, hRun, hFinish⟩
  exact
    ⟨last, t, hRun, hFinish, Option.isSome_iff_exists.mpr ⟨v, hTree⟩⟩

theorem isBlank_of_token
    {c : Char}
    (hToken : c ∈ tokens) :
    Text.isBlank c = false := by
  simp only [tokens, List.mem_cons, List.not_mem_nil, or_false]
    at hToken
  rcases hToken with rfl | rfl | rfl | rfl <;> decide

section

-- a text and what it goes on with, read together
variable {p : String} {behind : List Char} {last : Reader}

/- The text is cut behind a bracket, a comma or a colon. -/
theorem isSome_value?_cut_token
    (hRun : start.run? (p.toList ++ behind) = some last)
    (hLast : last.Readable)
    {kept blanks : List Char}
    {c : Char}
    (hParts : p.toList = kept ++ c :: blanks)
    (hToken : c ∈ tokens)
    (hOutside : EndsOutside kept)
    (hSpace : ∀ b ∈ blanks, isSpace b = true) :
    (value? (complete (Text.trim p))).isSome = true := by
  rcases hOutside with ⟨q, hBefore, hOutside⟩
  have hBehind : q.run? (c :: (blanks ++ behind)) = some last := by
    rw [hParts, List.append_assoc, run?_append, hBefore] at hRun
    exact hRun
  rcases run?_cons_eq_some_iff.mp hBehind with ⟨r, hMove, hRest⟩
  rw [complete,
    toList_trim_of_spaces hParts (isBlank_of_token hToken) hSpace]
  exact
    isSome_value?_of_token (run?_dropBlank hBefore) hMove hOutside
      hToken (readable_of_run? hRest hLast)

/- It is cut behind a value. -/
theorem isSome_value?_cut_value
    {t : Written}
    (hRun : start.run? (p.toList ++ behind) = some last)
    (hFinish : last.finish? = some t)
    (hTree : Written.Readable Written.depthLimit t)
    {kept blanks : List Char}
    {v : String}
    (hParts : p.toList = kept ++ v.toList ++ blanks)
    (hNext : ValueNext kept)
    (hWritten : (written? v).isSome = true)
    (hTrimmed : Text.trim v = v)
    (hSpace : ∀ b ∈ blanks, isSpace b = true)
    (hEnd : Delimited (blanks ++ behind)) :
    (value? (complete (Text.trim p))).isSome = true := by
  rcases hNext with ⟨q, hBefore, hNext⟩
  rcases Option.isSome_iff_exists.mp hWritten with ⟨u, hValue⟩
  rcases Option.bind_eq_some_iff.mp hValue with
    ⟨w, hAlone, hComplete⟩
  have hFirst : ∀ c ∈ v.toList.head?, Text.isBlank c = false := by
    intro c hHead
    rw [← hTrimmed] at hHead
    exact Text.isBlank_of_head?_trim hHead
  rcases exists_run?_of_next hNext hAlone hComplete hFirst with
    ⟨r, hInPlace, hHasValue⟩
  have hWhole : start.run? (kept ++ v.toList) = some r :=
    run?_append_eq_some_iff.mpr ⟨q, hBefore, hInPlace⟩
  have hRest : r.run? (blanks ++ behind) = some last := by
    rw [hParts, List.append_assoc, run?_append, hWhole] at hRun
    exact hRun
  have hReadable : r.Readable :=
    readable_of_run? hRest (readable_of_finish? hFinish hTree)
  have hCloses : r.Closes := by
    refine closes_of_hasValue hHasValue hReadable ?_
    intro phase numeral hNumber
    rcases r with ⟨mode, stack⟩
    cases hNumber
    exact readable_number_of_delimited hEnd hRest hFinish hTree
  have hSome : (Text.trim v).toList ≠ [] := by
    intro hNil
    rw [hTrimmed] at hNil
    rw [hNil] at hAlone
    cases hAlone
    cases hComplete
  -- the trimmed text ends with the last character of the value
  rcases Text.exists_visible_end hSome with ⟨front, d, hFront, hVisible⟩
  rw [hTrimmed] at hFront
  rw [hFront, ← List.append_assoc] at hWhole
  have hSplit : p.toList = (kept ++ front) ++ d :: blanks := by
    rw [hParts, hFront]
    simp
  have hTrim := run?_dropBlank hWhole
  rw [Text.dropBlank_append_visible hVisible] at hTrim
  rw [complete, toList_trim_of_spaces hSplit hVisible hSpace]
  exact isSome_value?_of_hasValue hTrim hVisible hHasValue hCloses

/- It is cut inside of a string. -/
theorem isSome_value?_cut_string
    (hRun : start.run? (p.toList ++ behind) = some last)
    (hLast : last.Readable)
    {kept inner : List Char}
    (hParts : p.toList = kept ++ '"' :: inner)
    (hNext : ValueNext kept)
    (hOpen : staysOpen inner = true) :
    (value? (complete (Text.trim p))).isSome = true := by
  rcases Text.exists_blank_behind inner with ⟨blanks, hInner, -⟩
  generalize hBody : Text.dropBlankEnd inner = body at hInner
  subst hInner
  rcases hNext with ⟨q, hBefore, hNext⟩
  rcases exists_string_of_next hNext with ⟨stack, hQuote⟩
  have hStart :
      start.run? (kept ++ ['"']) = some ⟨.string .start, stack⟩ :=
    run?_concat_eq_some_iff.mpr ⟨q, hBefore, hQuote⟩
  have hBehind :
      run? ⟨.string .start, stack⟩ (body ++ (blanks ++ behind)) =
        some last := by
    have hSplit :
        p.toList ++ behind =
          kept ++ ['"'] ++ (body ++ (blanks ++ behind)) := by
      simp [hParts]
    rw [hSplit, run?_append, hStart] at hRun
    exact hRun
  rcases run?_append_eq_some_iff.mp hBehind with ⟨r, hString, hRest⟩
  rcases run?_staysOpen (staysOpen_of_append hOpen) hString
      Quote.whole_start rfl with
    ⟨quote, rfl, hWhole, hEscape⟩
  -- the trimmed text ends inside the string
  have hVisible : Text.isBlank '"' = false := by decide
  have hTrim :
      start.run? (Text.dropBlank kept ++ '"' :: body) =
        some ⟨.string quote, stack⟩ := by
    rw [← Text.dropBlank_append_visible hVisible]
    refine run?_dropBlank ?_
    rw [List.append_cons, run?_append, hStart]
    exact hString
  rw [complete, Text.toList_trim_of_visible hVisible hParts, hBody]
  exact
    isSome_value?_of_string hTrim hWhole hEscape
      (readable_of_run? hRest hLast)

end

end Json

/-
  A text with a value can be cut cleanly anywhere: what stands
  in front of the cut has a best reading.
-/
theorem clean_cuts_are_completed
    (p rest : String)
    (hText : (Json.value? (p ++ rest)).isSome = true)
    (hCut : Json.CleanCut rest.toList p.toList) :
    (Json.partialValue? p).isSome = true := by
  rcases Json.exists_run?_of_value? hText with
    ⟨last, t, hRun, hFinish, hTree⟩
  rw [String.toList_append] at hRun
  have hLast := Json.Reader.readable_of_finish? hFinish hTree
  rw [Json.partialValue?_eq]
  generalize hParts : p.toList = cs at hCut
  cases hCut with
  | token hToken hOutside hSpace =>
      exact
        Json.isSome_value?_cut_token hRun hLast hParts hToken
          hOutside hSpace
  | value hNext hWritten hTrimmed hSpace hEnd =>
      exact
        Json.isSome_value?_cut_value hRun hFinish hTree hParts hNext
          hWritten hTrimmed hSpace hEnd
  | string hNext hOpen =>
      exact
        Json.isSome_value?_cut_string hRun hLast hParts hNext hOpen

/- A text is cut cleanly between a backslash and its letter. -/
theorem cut_escape_is_completed :
    (Json.partialValue? "\x7b\"a\": [1, \"b\\").isSome = true := by
  refine clean_cuts_are_completed _ "n\"]\x7d" (by decide +kernel) ?_
  have hCut :
      Json.CleanCut "n\"]\x7d".toList
        ("\x7b\"a\": [1, ".toList ++ '"' :: ['b', '\\']) :=
    .string ⟨_, rfl, .inl rfl⟩ rfl
  exact hCut

end AnswerStream
