import AnswerStream.Proofs.Text.Trimming

/-
  This file proves that completion balances any text, JSON or
  not: a scan of the completed text ends outside of strings
  with nothing open. So a text that is completed once needs no
  second completion, unless only its end was tidied up.

  Key definitions include:
    * `Json.Scan.IsPlain`
    * `Json.Scan.Sound`

  Main statements:
    * `Json.Scan.ofChars_completeChars`
    * `Json.completeChars_of_balanced`
    * `complete_is_balanced`
-/

namespace AnswerStream

namespace Json

------------------------------------------------------------
-- Ends of Texts
------------------------------------------------------------

/- A colon of an object gets a null. -/
theorem completeOuter_of_colon
    {closers cs : List Char}
    (hLast : (Text.dropBlankEnd cs).getLast? = some ':')
    (hObject : closers.head? = some '\x7d') :
    completeOuter closers cs =
      Text.dropBlankEnd cs ++ ['n', 'u', 'l', 'l'] := by
  simp [completeOuter, hLast, hObject]

/- Any other colon is left as it is. -/
theorem completeOuter_of_lone_colon
    {closers cs : List Char}
    (hLast : (Text.dropBlankEnd cs).getLast? = some ':')
    (hOther : closers.head? ≠ some '\x7d') :
    completeOuter closers cs = Text.dropBlankEnd cs := by
  simp [completeOuter, hLast, hOther]

/- A comma is dropped. -/
theorem completeOuter_of_comma
    {closers cs : List Char}
    (hLast : (Text.dropBlankEnd cs).getLast? = some ',') :
    completeOuter closers cs =
      (Text.dropBlankEnd cs).dropLast := by
  simp [completeOuter, hLast]

/- Any other end is only trimmed. -/
theorem completeOuter_of_other
    {closers cs : List Char}
    (hColon : (Text.dropBlankEnd cs).getLast? ≠ some ':')
    (hComma : (Text.dropBlankEnd cs).getLast? ≠ some ',') :
    completeOuter closers cs = Text.dropBlankEnd cs := by
  unfold completeOuter
  split <;> simp_all

namespace Scan

------------------------------------------------------------
-- Plain Characters
------------------------------------------------------------

/- The characters that a scan heeds outside of strings. -/
def marks : List Char :=
  ['"', '\x7b', '[', '\x7d', ']']

/- Outside of strings the character changes nothing. -/
def IsPlain (c : Char) : Prop :=
  c ∉ marks

instance (c : Char) : Decidable (IsPlain c) := by
  unfold IsPlain
  infer_instance

theorem IsPlain.of_isBlank
    {c : Char}
    (hBlank : Text.isBlank c = true) :
    IsPlain c := by
  intro hMark
  simp only [marks, List.mem_cons, List.not_mem_nil, or_false]
    at hMark
  rcases hMark with rfl | rfl | rfl | rfl | rfl <;>
    exact absurd hBlank (by decide)

theorem outerStep_of_plain
    {c : Char}
    (hPlain : IsPlain c)
    (s : Scan) :
    s.outerStep c = s := by
  simp only [IsPlain, marks, List.mem_cons, List.not_mem_nil,
    or_false, not_or] at hPlain
  simp [outerStep, hPlain]

/- Only a quote leads out of a string. -/
theorem inString_step_of_ne
    {c : Char}
    (hOther : c ≠ '"')
    {s : Scan}
    (hInside : s.inString = true) :
    (s.step c).inString = true := by
  rw [step, if_pos hInside, stringStep, if_neg hOther]
  split
  · exact hInside
  · split <;> exact hInside

------------------------------------------------------------
-- Scans of Parts
------------------------------------------------------------

theorem ofChars_append (cs ds : List Char) :
    ofChars (cs ++ ds) = ds.foldl step (ofChars cs) :=
  List.foldl_append

theorem ofChars_concat
    (cs : List Char)
    (c : Char) :
    ofChars (cs ++ [c]) = (ofChars cs).step c := by
  rw [ofChars_append, List.foldl_cons, List.foldl_nil]

/-
  A plain character at the end, outside of strings, can be left
  out of the scan.
-/
theorem ofChars_of_concat_plain
    {cs : List Char}
    {c : Char}
    (hPlain : IsPlain c)
    (hOutside : (ofChars (cs ++ [c])).inString = false) :
    ofChars cs = ofChars (cs ++ [c]) := by
  rw [ofChars_concat] at hOutside ⊢
  have hQuote : c ≠ '"' := fun hSame =>
    hPlain (by simp [marks, hSame])
  cases hInside : (ofChars cs).inString with
  | true =>
      rw [inString_step_of_ne hQuote hInside] at hOutside
      cases hOutside
  | false =>
      rw [step, hInside, if_neg Bool.false_ne_true,
        outerStep_of_plain hPlain]

/- So can plain characters. -/
theorem ofChars_of_append_plain
    {cs ds : List Char}
    (hPlain : ∀ c ∈ ds, IsPlain c)
    (hOutside : (ofChars (cs ++ ds)).inString = false) :
    ofChars cs = ofChars (cs ++ ds) := by
  induction ds using List.reverseRecOn with
  | nil => rw [List.append_nil]
  | append_singleton ds c ih =>
      rw [← List.append_assoc] at hOutside ⊢
      have hLast :=
        ofChars_of_concat_plain
          (hPlain c (List.mem_append_right ds List.mem_cons_self))
          hOutside
      rw [← hLast] at hOutside ⊢
      exact
        ih (fun d hMember =>
            hPlain d (List.mem_append_left [c] hMember))
          hOutside

/- Plain characters outside of strings add nothing to a scan. -/
theorem foldl_step_of_plain
    {ds : List Char}
    (hPlain : ∀ c ∈ ds, IsPlain c)
    {s : Scan}
    (hOutside : s.inString = false) :
    ds.foldl step s = s := by
  induction ds with
  | nil => rfl
  | cons d ds ih =>
      rw [List.foldl_cons, step, hOutside,
        if_neg Bool.false_ne_true,
        outerStep_of_plain (hPlain d List.mem_cons_self)]
      exact ih fun c hMember =>
        hPlain c (List.mem_cons_of_mem d hMember)

------------------------------------------------------------
-- Sound Scans
------------------------------------------------------------

/-
  A scan of characters: a backslash counts only in a string,
  and what is to come are closing brackets.
-/
structure Sound (s : Scan) : Prop where
  escaped : s.escaped = true → s.inString = true
  closers : ∀ c ∈ s.closers, c = '\x7d' ∨ c = ']'

theorem Sound.step
    {s : Scan}
    (hSound : Sound s)
    (c : Char) :
    Sound (s.step c) := by
  rcases hSound with ⟨hEscaped, hClosers⟩
  unfold Scan.step
  cases hInside : s.inString with
  | true =>
      refine ⟨?_, ?_⟩
      · grind [stringStep]
      · grind [stringStep]
  | false =>
      have hNot : s.escaped ≠ true := fun h =>
        Bool.false_ne_true (hInside ▸ hEscaped h)
      refine ⟨?_, ?_⟩
      · grind [outerStep]
      · have hTail : ∀ c ∈ s.closers.tail, c = '\x7d' ∨ c = ']' :=
          fun d hMember => hClosers d (List.mem_of_mem_tail hMember)
        grind [outerStep]

theorem sound_ofChars (cs : List Char) :
    Sound (ofChars cs) := by
  induction cs using List.reverseRecOn with
  | nil =>
      exact ⟨fun h => (Bool.false_ne_true h).elim, fun c h => nomatch h⟩
  | append_singleton cs c ih =>
      rw [ofChars_concat]
      exact ih.step c

/- The brackets that are due close what is open. -/
theorem foldl_step_closers
    {closers : List Char}
    (hClosers : ∀ c ∈ closers, c = '\x7d' ∨ c = ']') :
    closers.foldl step ⟨false, false, closers⟩ = start := by
  induction closers with
  | nil => rfl
  | cons c rest ih =>
      rcases List.forall_mem_cons.mp hClosers with ⟨hFirst, hRest⟩
      have hStep :
          step ⟨false, false, c :: rest⟩ c =
            ⟨false, false, rest⟩ := by
        rcases hFirst with rfl | rfl <;> simp [step, outerStep]
      rw [List.foldl_cons, hStep]
      exact ih hRest

/- A scan outside of strings is given by what is open. -/
theorem eq_of_outside
    {s : Scan}
    (hSound : Sound s)
    (hOutside : s.inString = false) :
    s = ⟨false, false, s.closers⟩ := by
  rcases s with ⟨inString, escaped, closers⟩
  cases hOutside
  cases hEscaped : escaped with
  | false => rfl
  | true => cases hSound.escaped hEscaped

------------------------------------------------------------
-- Unfinished Escapes
------------------------------------------------------------

/- Only a backslash in a string leaves the next one escaped. -/
theorem eq_of_escaped_step
    {s : Scan}
    (hSound : Sound s)
    {c : Char}
    (hEscaped : (s.step c).escaped = true) :
    s = ⟨true, false, (s.step c).closers⟩ := by
  rcases s with ⟨inString, escaped, closers⟩
  cases inString with
  | true => cases escaped <;> grind [step, stringStep]
  | false =>
      have hNot : escaped ≠ true := fun h =>
        Bool.false_ne_true (hSound.escaped h)
      grind [step, outerStep]

/- The text without it is inside the same string. -/
theorem ofChars_dropLast_of_escaped
    {cs : List Char}
    (hEscaped : (ofChars cs).escaped = true) :
    ofChars cs.dropLast = ⟨true, false, (ofChars cs).closers⟩ := by
  rcases List.eq_nil_or_concat' cs with rfl | ⟨kept, c, rfl⟩
  · cases hEscaped
  · rw [ofChars_concat] at hEscaped ⊢
    rw [List.dropLast_concat]
    exact eq_of_escaped_step (sound_ofChars kept) hEscaped

------------------------------------------------------------
-- Completed Characters
------------------------------------------------------------

/- A quote closes the string at the end of a text. -/
theorem ofChars_completeString
    {cs : List Char}
    (hInside : (ofChars cs).inString = true) :
    ofChars (completeString (ofChars cs).escaped cs) =
      ⟨false, false, (ofChars cs).closers⟩ := by
  have hKept :
      ofChars
          (if (ofChars cs).escaped then cs.dropLast else cs) =
        ⟨true, false, (ofChars cs).closers⟩ := by
    cases hEscaped : (ofChars cs).escaped with
    | true => exact ofChars_dropLast_of_escaped hEscaped
    | false =>
        rcases hScan : ofChars cs with ⟨inString, escaped, closers⟩
        rw [hScan] at hInside hEscaped
        cases hInside
        cases hEscaped
        exact hScan
  rw [completeString, ofChars_concat, hKept]
  rfl

/-
  Outside of strings the end is tidied up without any of the
  characters that a scan heeds.
-/
theorem ofChars_completeOuter
    {cs : List Char}
    (hOutside : (ofChars cs).inString = false) :
    ofChars (completeOuter (ofChars cs).closers cs) =
      ⟨false, false, (ofChars cs).closers⟩ := by
  have hKept : ofChars (Text.dropBlankEnd cs) = ofChars cs := by
    rcases Text.exists_blank_behind cs with ⟨blanks, hParts, hBlank⟩
    rw [hParts] at hOutside
    have hSame :=
      ofChars_of_append_plain
        (fun c hMember => .of_isBlank (hBlank c hMember)) hOutside
    rwa [← hParts] at hSame
  rw [← eq_of_outside (sound_ofChars cs) hOutside]
  by_cases hColon : (Text.dropBlankEnd cs).getLast? = some ':'
  · by_cases hObject : (ofChars cs).closers.head? = some '\x7d'
    · rw [completeOuter_of_colon hColon hObject, ofChars_append,
        hKept]
      refine foldl_step_of_plain ?_ hOutside
      simp [IsPlain, marks]
    · rw [completeOuter_of_lone_colon hColon hObject, hKept]
  · by_cases hComma : (Text.dropBlankEnd cs).getLast? = some ','
    · rcases List.getLast?_eq_some_iff.mp hComma with ⟨body, hBody⟩
      rw [completeOuter_of_comma hComma]
      rw [← hKept] at hOutside ⊢
      rw [hBody] at hOutside ⊢
      rw [List.dropLast_concat]
      exact ofChars_of_concat_plain (by decide) hOutside
    · rw [completeOuter_of_other hColon hComma, hKept]

/- So the brackets that are due close all that is open. -/
theorem ofChars_completeChars (cs : List Char) :
    ofChars (completeChars cs) = start := by
  have hBody :
      ofChars
          (if (ofChars cs).inString then
            completeString (ofChars cs).escaped cs
          else
            completeOuter (ofChars cs).closers cs) =
        ⟨false, false, (ofChars cs).closers⟩ := by
    cases hInside : (ofChars cs).inString with
    | true => exact ofChars_completeString hInside
    | false => exact ofChars_completeOuter hInside
  rw [completeChars, ofChars_append, hBody]
  exact foldl_step_closers (sound_ofChars cs).closers

end Scan

------------------------------------------------------------
-- Completing Again
------------------------------------------------------------

/-
  Of a text with nothing open only the white space and a comma
  behind it are dropped.
-/
theorem completeChars_of_balanced
    {cs : List Char}
    (hBalanced : Scan.ofChars cs = Scan.start)
    (hLast : (Text.dropBlankEnd cs).getLast? ≠ some ',') :
    completeChars cs = Text.dropBlankEnd cs := by
  rw [completeChars, hBalanced]
  change completeOuter [] cs ++ [] = _
  rw [List.append_nil]
  by_cases hColon : (Text.dropBlankEnd cs).getLast? = some ':'
  · exact completeOuter_of_lone_colon hColon nofun
  · exact completeOuter_of_other hColon hLast

/-
  What completion adds to a text with something open ends with
  a quote or with a bracket.
-/
theorem getLast?_completeChars
    {cs : List Char}
    (hOpen :
      (Scan.ofChars cs).inString = true ∨
        (Scan.ofChars cs).closers ≠ []) :
    ∃ c,
      (completeChars cs).getLast? = some c ∧
        ¬ Scan.IsPlain c := by
  have hClosers := (Scan.sound_ofChars cs).closers
  rw [completeChars, List.getLast?_append]
  cases hLast : (Scan.ofChars cs).closers.getLast? with
  | some c =>
      refine ⟨c, rfl, ?_⟩
      rcases hClosers c (List.mem_of_getLast? hLast) with rfl | rfl <;>
        decide
  | none =>
      have hNone := List.getLast?_eq_none_iff.mp hLast
      have hInside := hOpen.resolve_right fun h => h hNone
      refine ⟨'"', ?_, by decide⟩
      rw [hInside, if_pos rfl, completeString,
        List.getLast?_concat, Option.none_or]

/- Such a text is complete when it is completed. -/
theorem completeChars_completeChars
    {cs : List Char}
    (hOpen :
      (Scan.ofChars cs).inString = true ∨
        (Scan.ofChars cs).closers ≠ []) :
    completeChars (completeChars cs) = completeChars cs := by
  rcases getLast?_completeChars hOpen with ⟨c, hLast, hMark⟩
  have hBlank : Text.isBlank c = false := by
    by_contra hBlank
    rw [Bool.not_eq_false] at hBlank
    exact hMark (.of_isBlank hBlank)
  have hKept :
      Text.dropBlankEnd (completeChars cs) = completeChars cs := by
    rcases List.getLast?_eq_some_iff.mp hLast with ⟨body, hBody⟩
    rw [hBody]
    exact Text.dropBlankEnd_concat hBlank body
  rw [completeChars_of_balanced (Scan.ofChars_completeChars cs),
    hKept]
  rw [hKept, hLast]
  rintro ⟨⟩
  exact hMark (by decide)

end Json

/-
  Completion balances every text: a scan of the completed text
  ends outside of strings and with nothing open. If something
  was open, then completing the text again changes nothing.
-/
theorem complete_is_balanced (s : String) :
    (Json.Scan.ofChars (Json.complete s).toList).inString = false ∧
      (Json.Scan.ofChars (Json.complete s).toList).closers = [] ∧
      ((Json.Scan.ofChars s.toList).inString = true ∨
          (Json.Scan.ofChars s.toList).closers ≠ [] →
        Json.complete (Json.complete s) = Json.complete s) := by
  have hChars :
      (Json.complete s).toList = Json.completeChars s.toList :=
    String.toList_ofList
  have hBalanced := Json.Scan.ofChars_completeChars s.toList
  rw [← hChars] at hBalanced
  refine
    ⟨congrArg Json.Scan.inString hBalanced,
      congrArg Json.Scan.closers hBalanced, ?_⟩
  intro hOpen
  have hAgain := Json.completeChars_completeChars hOpen
  rw [Json.complete, hChars, hAgain]
  rfl

/-
  A text that ends behind a backslash in a string, with a
  bracket that closes nothing: it is completed once.
-/
theorem mismatched_text_is_completed_once :
    let s := "[\x7b\"a\": 1] \x7d, \"b\\"
    (Json.Scan.ofChars (Json.complete s).toList).inString = false ∧
      (Json.Scan.ofChars (Json.complete s).toList).closers = [] ∧
      Json.complete (Json.complete s) = Json.complete s := by
  intro s
  rcases complete_is_balanced s with ⟨hOutside, hClosed, hAgain⟩
  exact ⟨hOutside, hClosed, hAgain (.inl (by decide +kernel))⟩

end AnswerStream
