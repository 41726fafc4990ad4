import AnswerStream.Proofs.Splitter.Layout

/-
  This file proves what a splitter does with the characters up
  to the next mark, in each of its modes. Backticks that are
  held back count as characters that are still to be read, so
  that the mark is the one that a search finds.

  Key definitions include:
    * `Splitter.run`
    * `Splitter.proseMode`
    * `Splitter.jsonMode`

  Each mode is followed to its mark by:
    * `Splitter.run_prose`
    * `Splitter.run_tag`
    * `Splitter.run_json`
    * `Splitter.run_other`
-/

namespace AnswerStream

open Json
open Layout (ticks dropTicksEnd)
open Legacy (splitTicks? splitLine?)

namespace Splitter

------------------------------------------------------------
-- Runs
------------------------------------------------------------

/- What becomes of a splitter by characters, without the notes. -/
def run
    (p : Splitter)
    (cs : List Char) : Result :=
  (feed (pure (.ok p)) cs).value

/- What was noted before does not matter. -/
theorem feed_value
    (done : Noted Result)
    (cs : List Char) :
    (feed done cs).value = (feed (pure done.value) cs).value := by
  induction cs generalizing done with
  | nil => rfl
  | cons c cs ih =>
      by_cases hFailure : done.value.failure.isSome = true
      · simp only [feed, Noted.value_pure, hFailure, if_true]
      · simp only [feed, Noted.value_pure, hFailure,
          Bool.false_eq_true, if_false]
        rw [ih, eq_comm, ih]

@[simp] theorem run_nil (p : Splitter) :
    p.run [] = .ok p :=
  rfl

/- A run goes on behind a step that does not fail. -/
theorem run_cons_of_ok
    {p q : Splitter}
    {c : Char}
    (hStep : (p.step c).value = .ok q)
    (cs : List Char) :
    p.run (c :: cs) = q.run cs := by
  have hNext :
      p.run (c :: cs) =
        (feed ⟨(p.step c).value, #[] ++ (p.step c).notes⟩
          cs).value :=
    rfl
  rw [hNext, feed_value]
  show (feed (pure (p.step c).value) cs).value = _
  rw [hStep]
  rfl

/- Nothing is read behind a failure. -/
theorem feed_of_failure
    {done : Result}
    (hFailure : done.failure.isSome = true)
    (notes : Array Note)
    (cs : List Char) :
    feed ⟨done, notes⟩ cs = ⟨done, notes⟩ := by
  cases cs with
  | nil => rfl
  | cons c cs => rw [feed, if_pos hFailure]

/- A run ends with a step that fails. -/
theorem run_cons_of_failure
    {p : Splitter}
    {c : Char}
    (hFailure : (p.step c).value.failure.isSome = true)
    (cs : List Char) :
    p.run (c :: cs) = (p.step c).value := by
  have hNext :
      p.run (c :: cs) =
        (feed ⟨(p.step c).value, #[] ++ (p.step c).notes⟩
          cs).value :=
    rfl
  rw [hNext, feed_of_failure hFailure]

/- A run that does not fail takes its steps one by one. -/
theorem ok_of_run_cons
    {p q : Splitter}
    {c : Char}
    {cs : List Char}
    (hRun : p.run (c :: cs) = .ok q) :
    ∃ next, (p.step c).value = .ok next ∧
      next.run cs = .ok q := by
  rcases hStep : (p.step c).value with ⟨next, failure⟩
  cases failure with
  | none => exact ⟨next, rfl, run_cons_of_ok hStep cs ▸ hRun⟩
  | some cause =>
      have hFailure :
          (p.step c).value.failure.isSome = true := by
        rw [hStep]
        rfl
      rw [run_cons_of_failure hFailure, hStep] at hRun
      cases congrArg Result.failure hRun

theorem append_value
    (p : Splitter)
    (chunk : String) :
    (p.append chunk).value = p.run chunk.toList :=
  rfl

------------------------------------------------------------
-- Prose
------------------------------------------------------------

@[simp] theorem byteCount_ticks (held : Nat) :
    byteCount (ticks held) = held := by
  induction held with
  | zero => rfl
  | succ held ih =>
      rw [Layout.ticks_succ, byteCount_append, ih]
      rfl

/- The mode of prose with backticks held back. -/
def proseMode : Nat → Mode
  | 0 => .prose
  | held + 1 => .opening (held + 1)

/- Prose within its cap is taken as it is. -/
theorem pushText_value
    {p : Splitter}
    {c : Char}
    (hFits : p.text.utf8ByteSize + c.utf8Size ≤ p.limits.text) :
    (p.pushText c).value =
      { p with text := p.text.push c } := by
  unfold pushText
  rw [if_neg]
  rw [String.utf8ByteSize_push]
  omega

theorem pushTexts_value
    {p : Splitter}
    {cs : List Char}
    (hFits :
      p.text.utf8ByteSize + byteCount cs ≤ p.limits.text) :
    (p.pushTexts cs).value =
      { p with text := p.text ++ String.ofList cs } := by
  induction cs generalizing p with
  | nil => simp [pushTexts]
  | cons c cs ih =>
      rw [byteCount_cons] at hFits
      have hHere := pushText_value (p := p) (c := c) (by omega)
      rw [pushTexts, Noted.value_bind, hHere, ih]
      · congr 1
        apply String.toList_injective
        simp
      · simp only [String.utf8ByteSize_push]
        omega

/- The mode of prose is all that a splitter in it is left with. -/
theorem eq_of_mode
    {p : Splitter}
    {mode : Mode}
    (hMode : p.mode = mode) :
    { p with mode := mode } = p := by
  rw [← hMode]

theorem trailingText_proseMode
    {p : Splitter}
    {held : Nat}
    (hMode : p.mode = proseMode held) :
    p.trailingText.toList = p.text.toList ++ ticks held := by
  unfold trailingText
  rw [hMode]
  cases held with
  | zero => simp [proseMode]
  | succ held => simp [proseMode, ticks]

/- A third backtick ends prose. -/
theorem step_mark_of_prose
    {p : Splitter}
    (hMode : p.mode = proseMode 2) :
    (p.step tick).value = .ok { p with mode := .tag "" } := by
  unfold step
  rw [hMode]
  rfl

/- One more backtick of prose is held back. -/
theorem step_tick_of_prose
    {p : Splitter}
    {held : Nat}
    (hHeld : held < 2)
    (hMode : p.mode = proseMode held) :
    (p.step tick).value =
      .ok { p with mode := proseMode (held + 1) } := by
  unfold step
  rw [hMode]
  match held, hHeld with
  | 0, _ => rfl
  | 1, _ => rfl

/- Another character of prose comes behind what was held back. -/
theorem step_other_of_prose
    {p : Splitter}
    {held : Nat}
    {c : Char}
    (hMode : p.mode = proseMode held)
    (hOther : c ≠ tick)
    (hFits :
      p.text.utf8ByteSize + byteCount (ticks held ++ [c]) ≤
        p.limits.text) :
    (p.step c).value =
      .ok
        { p with
          text := p.text ++ String.ofList (ticks held ++ [c])
          mode := .prose } := by
  unfold step
  rw [hMode]
  cases held with
  | zero =>
      have hPushed : p.text ++ String.ofList [c] = p.text.push c :=
        String.toList_injective (by simp)
      simp only [proseMode, if_neg hOther]
      change Result.ok (p.pushText c).value = _
      rw [pushText_value (by simpa using hFits)]
      rw [← eq_of_mode (p := { p with text := p.text.push c }) hMode]
      rw [Layout.ticks_zero, List.nil_append, hPushed]
      rfl
  | succ held =>
      simp only [proseMode, if_neg hOther]
      change
        Result.ok
          (({ p with mode := .prose }).pushTexts
            (ticks (held + 1) ++ [c])).value = _
      rw [pushTexts_value (p := { p with mode := .prose }) hFits]

/-
  Prose is read up to the next mark; without one, what is held
  back belongs to it.
-/
theorem run_prose
    (p : Splitter)
    (cs : List Char)
    {held : Nat}
    (hHeld : held < 3)
    (hMode : p.mode = proseMode held)
    (hFits :
      p.text.utf8ByteSize + byteCount (ticks held ++ cs) ≤
        p.limits.text) :
    match splitTicks? (ticks held ++ cs) with
    | none =>
        ∃ later text, later < 3 ∧
          text.toList ++ ticks later =
            p.text.toList ++ (ticks held ++ cs) ∧
          p.run cs =
            .ok { p with text := text, mode := proseMode later }
    | some (before, rest) =>
        p.run cs =
          run
            { p with
              text := p.text ++ String.ofList before
              mode := .tag "" } rest := by
  revert p
  refine Layout.mark_induction ?_ ?_ ?_ ?_ hHeld cs
  · intro held hHeld p hMode hFits
    rw [List.append_nil, Layout.splitTicks?_ticks hHeld]
    refine ⟨held, p.text, hHeld, rfl, ?_⟩
    rw [run_nil, eq_of_mode hMode]
  · intro cs p hMode hFits
    rw [Layout.splitTicks?_of_tick]
    rw [run_cons_of_ok (step_mark_of_prose hMode)]
    simp
  · intro held cs hTwo ih p hMode hFits
    rw [Layout.ticks_append_tick] at hFits ⊢
    rw [run_cons_of_ok (step_tick_of_prose hTwo hMode)]
    exact ih { p with mode := proseMode (held + 1) } rfl hFits
  · intro held c cs hHeld hOther ih p hMode hFits
    rw [byteCount_append_cons] at hFits
    rw [Layout.splitTicks?_of_other hHeld hOther]
    rw [run_cons_of_ok
      (step_other_of_prose hMode hOther (by omega))]
    let q : Splitter :=
      { p with
        text := p.text ++ String.ofList (ticks held ++ [c])
        mode := .prose }
    have hRest :
        q.text.utf8ByteSize + byteCount (ticks 0 ++ cs) ≤
          q.limits.text := by
      rw [String.utf8ByteSize_append, utf8ByteSize_ofList]
      exact Nat.le_trans (by simp; omega) hFits
    have hNext := ih q rfl hRest
    rw [Layout.ticks_zero, List.nil_append] at hNext
    cases hSplit : splitTicks? cs with
    | none =>
        rw [hSplit] at hNext
        rcases hNext with ⟨later, text, hLater, hText, hRun⟩
        refine ⟨later, text, hLater, ?_, hRun⟩
        rw [hText]
        simp [q]
    | some found =>
        rw [hSplit] at hNext
        rcases found with ⟨before, rest⟩
        have hText :
            q.text ++ String.ofList before =
              p.text ++
                String.ofList (ticks held ++ c :: before) :=
          String.toList_injective (by simp [q])
        simp only [Option.map_some]
        rw [← hText]
        exact hNext

------------------------------------------------------------
-- Tags
------------------------------------------------------------

theorem flushText_id (p : Splitter) :
    p.flushText.id = p.id := by
  unfold flushText
  dsimp only
  split <;> rfl

theorem flushText_limits (p : Splitter) :
    p.flushText.limits = p.limits := by
  unfold flushText
  dsimp only
  split <;> rfl

/- The splitter behind the line that opens a fence of JSON. -/
def openJson (p : Splitter) : Splitter :=
  { p.flushText with json := "", mode := .json }

theorem openJson_limits (p : Splitter) :
    p.openJson.limits = p.limits := by
  dsimp only [openJson]
  exact flushText_limits p

/- The splitter behind the line that opens a fence. -/
theorem openFence_value
    (p : Splitter)
    (tag : String) :
    (p.openFence tag).value =
      if Layout.isJsonTag tag.toList then
        p.openJson
      else
        { p with mode := .other 0 } := by
  unfold openFence Layout.isJsonTag jsonTag
  rw [String.ofList_toList]
  simp only [beq_iff_eq]
  split <;> rfl

/- The mode in which a fence is opened does not matter. -/
theorem openFence_mode
    (p : Splitter)
    (mode : Mode)
    (tag : String) :
    (({ p with mode := mode }).openFence tag).value =
      (p.openFence tag).value := by
  rw [openFence_value, openFence_value]
  unfold openJson flushText
  split
  · dsimp only
    split <;> rfl
  · rfl

/- A tag is read up to the end of its line. -/
theorem run_tag
    (p : Splitter)
    (cs : List Char)
    {text : String}
    (hMode : p.mode = .tag text) :
    match splitLine? cs with
    | none =>
        p.run cs =
          .ok { p with mode := .tag (text ++ String.ofList cs) }
    | some (tag, body) =>
        p.run cs =
          run (p.openFence (text ++ String.ofList tag)).value
            body := by
  induction cs generalizing p text with
  | nil =>
      have hNone : text ++ String.ofList [] = text := by simp
      rw [splitLine?, hNone, run_nil, eq_of_mode hMode]
  | cons c cs ih =>
      by_cases hLine : c = '\n'
      · have hStep :
            (p.step c).value = .ok (p.openFence text).value := by
          unfold step
          rw [hMode]
          simp only [if_pos hLine]
          rfl
        rw [splitLine?, if_pos hLine, run_cons_of_ok hStep]
        simp
      · have hStep :
            (p.step c).value =
              .ok { p with mode := .tag (text.push c) } := by
          unfold step
          rw [hMode]
          simp only [if_neg hLine]
          rfl
        have hText :
            ∀ ds,
              text.push c ++ String.ofList ds =
                text ++ String.ofList (c :: ds) :=
          fun ds => String.toList_injective (by simp)
        have hNext :=
          ih { p with mode := .tag (text.push c) } rfl
        rw [splitLine?, if_neg hLine, run_cons_of_ok hStep]
        cases hSplit : splitLine? cs with
        | none =>
            rw [hSplit] at hNext
            rw [Option.map_none, ← hText]
            exact hNext
        | some found =>
            rw [hSplit] at hNext
            rcases found with ⟨tag, body⟩
            simp only [openFence_mode] at hNext
            simp only [Option.map_some]
            rw [← hText]
            exact hNext

------------------------------------------------------------
-- Fences of JSON
------------------------------------------------------------

/- The mode of a fence of JSON with backticks held back. -/
def jsonMode : Nat → Mode
  | 0 => .json
  | held + 1 => .closing (held + 1)

theorem trailingText_jsonMode
    {p : Splitter}
    {held : Nat}
    (hMode : p.mode = jsonMode held) :
    p.trailingText = p.text := by
  unfold trailingText
  rw [hMode]
  cases held with
  | zero => rfl
  | succ held => rfl

/- Characters for which a fence has room are all taken. -/
theorem pushJsons_of_fits
    {p : Splitter}
    {cs : List Char}
    (hFits :
      p.json.utf8ByteSize + byteCount cs ≤
        p.limits.structured) :
    p.pushJsons cs =
      ({ p with json := p.json ++ String.ofList cs }, true) := by
  induction cs generalizing p with
  | nil => simp [pushJsons]
  | cons c cs ih =>
      rw [byteCount_cons] at hFits
      have hHere :
          p.pushJson? c =
            some { p with json := p.json.push c } := by
        unfold pushJson?
        rw [if_neg (by omega)]
      have hText :
          p.json.push c ++ String.ofList cs =
            p.json ++ String.ofList (c :: cs) :=
        String.toList_injective (by simp)
      simp only [pushJsons, hHere]
      rw [ih (p := { p with json := p.json.push c }), hText]
      simp only [String.utf8ByteSize_push]
      omega

/- Characters for which a fence has no room are not all taken. -/
theorem pushJsons_of_overflow
    {p : Splitter}
    {cs : List Char}
    (hOverflow :
      p.limits.structured <
        p.json.utf8ByteSize + byteCount cs)
    (hBefore : p.json.utf8ByteSize ≤ p.limits.structured) :
    (p.pushJsons cs).2 = false := by
  induction cs generalizing p with
  | nil => simp at hOverflow; omega
  | cons c cs ih =>
      rw [byteCount_cons] at hOverflow
      unfold pushJsons pushJson?
      by_cases hRoom :
          p.limits.structured <
            p.json.utf8ByteSize + c.utf8Size
      · rw [if_pos hRoom]
      · rw [if_neg hRoom]
        apply ih
        · simp only [String.utf8ByteSize_push]
          omega
        · simp only [String.utf8ByteSize_push]
          omega

/- More text of a fence changes this text, and nothing else. -/
theorem pushJsons_frame
    (p : Splitter)
    (cs : List Char) :
    ∃ json, (p.pushJsons cs).1 = { p with json := json } := by
  induction cs generalizing p with
  | nil => exact ⟨p.json, rfl⟩
  | cons c cs ih =>
      unfold pushJsons pushJson?
      by_cases hRoom :
          p.limits.structured < p.json.utf8ByteSize + c.utf8Size
      · rw [if_pos hRoom]
        exact ⟨p.json, rfl⟩
      · rw [if_neg hRoom]
        exact ih { p with json := p.json.push c }

theorem takeJson_of_fits
    {p : Splitter}
    {cs : List Char}
    (hFits :
      p.json.utf8ByteSize + byteCount cs ≤ p.limits.structured)
    (mode : Mode) :
    (p.takeJson cs mode).value =
      .ok
        { p with
          json := p.json ++ String.ofList cs
          mode := mode } := by
  unfold takeJson
  rw [pushJsons_of_fits hFits]
  rfl

theorem takeJson_of_overflow
    {p : Splitter}
    {cs : List Char}
    (hOverflow :
      p.limits.structured < p.json.utf8ByteSize + byteCount cs)
    (hBefore : p.json.utf8ByteSize ≤ p.limits.structured)
    (mode : Mode) :
    (p.takeJson cs mode).value.failure =
      some ⟨p.limits.structured⟩ := by
  have hAll := pushJsons_of_overflow hOverflow hBefore
  unfold takeJson
  rcases hPushed : p.pushJsons cs with ⟨next, all⟩
  rw [hPushed] at hAll
  cases hAll
  rfl

/-
  Taking text of a fence ends in the given mode, or fails in
  the present one.
-/
theorem takeJson_frame
    (p : Splitter)
    (cs : List Char)
    (mode : Mode) :
    ∃ json,
      (p.takeJson cs mode).value =
          .ok { p with json := json, mode := mode } ∨
        (p.takeJson cs mode).value =
          ⟨{ p with json := json }, some ⟨p.limits.structured⟩⟩ := by
  rcases pushJsons_frame p cs with ⟨json, hJson⟩
  refine ⟨json, ?_⟩
  unfold takeJson
  rcases hPushed : p.pushJsons cs with ⟨next, taken⟩
  rw [hPushed] at hJson
  cases hJson
  cases taken with
  | true => exact .inl rfl
  | false => exact .inr rfl

/- The splitter behind the mark that closes a fence of JSON. -/
def closeFence (p : Splitter) : Splitter :=
  { p.finishJson.value with mode := .prose }

/- A third backtick closes a fence of JSON. -/
theorem step_mark_of_json
    {p : Splitter}
    (hMode : p.mode = jsonMode 2) :
    (p.step tick).value = .ok p.closeFence := by
  unfold step
  rw [hMode]
  rfl

/- One more backtick of a fence is held back. -/
theorem step_tick_of_json
    {p : Splitter}
    {held : Nat}
    (hHeld : held < 2)
    (hMode : p.mode = jsonMode held) :
    (p.step tick).value =
      .ok { p with mode := jsonMode (held + 1) } := by
  unfold step
  rw [hMode]
  match held, hHeld with
  | 0, _ => rfl
  | 1, _ => rfl

/- Held back characters are taken before the one behind them. -/
theorem step_closing_value
    {p : Splitter}
    {held : Nat}
    {c : Char}
    (hMode : p.mode = .closing held)
    (hOther : c ≠ tick) :
    (p.step c).value =
      let returned :=
        (p.takeJson (ticks held) (.closing 0)).value
      if returned.failure.isSome then returned
      else (returned.splitter.takeJson [c] .json).value := by
  unfold step
  rw [hMode]
  simp only [if_neg hOther, Noted.value_bind]
  rw [← ticks]
  split <;> rfl

/- Another character of a fence comes behind what was held back. -/
theorem step_other_of_json
    {p : Splitter}
    {held : Nat}
    {c : Char}
    (hMode : p.mode = jsonMode held)
    (hOther : c ≠ tick)
    (hFits :
      p.json.utf8ByteSize + byteCount (ticks held ++ [c]) ≤
        p.limits.structured) :
    (p.step c).value =
      .ok
        { p with
          json := p.json ++ String.ofList (ticks held ++ [c])
          mode := .json } := by
  cases held with
  | zero =>
      unfold step
      rw [hMode]
      simp only [jsonMode, if_neg hOther]
      exact takeJson_of_fits hFits .json
  | succ held =>
      rw [byteCount_append] at hFits
      have hText :
          p.json ++ String.ofList (ticks (held + 1)) ++
              String.ofList [c] =
            p.json ++
              String.ofList (ticks (held + 1) ++ [c]) :=
        String.toList_injective (by simp)
      have hTicks :
          p.json.utf8ByteSize + byteCount (ticks (held + 1)) ≤
            p.limits.structured := by
        omega
      rw [step_closing_value hMode hOther,
        takeJson_of_fits hTicks]
      change
        (takeJson
          { p with
            json := p.json ++ String.ofList (ticks (held + 1))
            mode := .closing 0 } [c] .json).value = _
      rw [takeJson_of_fits]
      · rw [← hText]
      · rw [String.utf8ByteSize_append, utf8ByteSize_ofList]
        exact Nat.le_trans (by omega) hFits

/- Without room for it, the run ends there. -/
theorem step_other_of_full
    {p : Splitter}
    {held : Nat}
    {c : Char}
    (hMode : p.mode = jsonMode held)
    (hOther : c ≠ tick)
    (hBefore : p.json.utf8ByteSize ≤ p.limits.structured)
    (hOverflow :
      p.limits.structured <
        p.json.utf8ByteSize + byteCount (ticks held ++ [c])) :
    (p.step c).value.failure = some ⟨p.limits.structured⟩ := by
  cases held with
  | zero =>
      unfold step
      rw [hMode]
      simp only [jsonMode, if_neg hOther]
      exact takeJson_of_overflow hOverflow hBefore .json
  | succ held =>
      rw [byteCount_append] at hOverflow
      rw [step_closing_value hMode hOther]
      by_cases hTicks :
          p.json.utf8ByteSize + byteCount (ticks (held + 1)) ≤
            p.limits.structured
      · rw [takeJson_of_fits hTicks]
        let q : Splitter :=
          { p with
            json := p.json ++ String.ofList (ticks (held + 1))
            mode := .closing 0 }
        have hSize :
            q.json.utf8ByteSize =
              p.json.utf8ByteSize +
                byteCount (ticks (held + 1)) := by
          rw [String.utf8ByteSize_append, utf8ByteSize_ofList]
        refine takeJson_of_overflow (p := q) ?_ ?_ .json
        · rw [hSize, Nat.add_assoc]
          exact hOverflow
        · rw [hSize]
          exact hTicks
      · have hFull :=
          takeJson_of_overflow (Nat.lt_of_not_le hTicks)
            hBefore (.closing 0)
        rw [if_pos (by rw [hFull]; rfl)]
        exact hFull

/- What a closed fence of JSON leaves. -/
theorem finishJson_value (p : Splitter) :
    p.finishJson.value =
      if (Text.trim p.json).isEmpty then { p with json := "" }
      else
        { p with
          json := ""
          blocks :=
            p.blocks ++
              [ Block.ofStructured p.pendingStructuredId
                  p.nextIndex (Json.partialValue? p.json)
                  (some (Text.trim p.json)) ]
          nextIndex := p.nextIndex + 1
          exhausted := p.runsOut
          jsonComplete := true } := by
  rw [← Json.partialValue?_trim p.json]
  unfold finishJson
  dsimp only
  split
  · rfl
  · split <;> rfl

/- The mode in which a fence is closed does not matter. -/
theorem closeFence_mode
    (p : Splitter)
    (mode : Mode) :
    closeFence { p with mode := mode } = closeFence p := by
  unfold closeFence
  rw [finishJson_value, finishJson_value]
  dsimp only
  split <;> rfl

theorem closeFence_id (p : Splitter) :
    p.closeFence.id = p.id := by
  unfold closeFence
  rw [finishJson_value]
  split <;> rfl

theorem closeFence_limits (p : Splitter) :
    p.closeFence.limits = p.limits := by
  unfold closeFence
  rw [finishJson_value]
  split <;> rfl

theorem closeFence_text (p : Splitter) :
    p.closeFence.text = p.text := by
  unfold closeFence
  rw [finishJson_value]
  split <;> rfl

/-
  A fence of JSON is read up to the next mark, if it has room
  up to there; without a mark, what is held back does not take
  room.
-/
theorem run_json
    (p : Splitter)
    (cs : List Char)
    {held : Nat}
    (hHeld : held < 3)
    (hMode : p.mode = jsonMode held)
    (hBefore : p.json.utf8ByteSize ≤ p.limits.structured) :
    match splitTicks? (ticks held ++ cs) with
    | none =>
        if p.limits.structured <
            p.json.utf8ByteSize +
              byteCount (dropTicksEnd (ticks held ++ cs)) then
          (p.run cs).failure = some ⟨p.limits.structured⟩
        else
          ∃ later json,
            p.run cs =
              .ok { p with json := json, mode := jsonMode later }
    | some (interior, rest) =>
        if p.limits.structured <
            p.json.utf8ByteSize + byteCount interior then
          (p.run cs).failure = some ⟨p.limits.structured⟩
        else
          p.run cs =
            run
              (closeFence
                { p with
                  json := p.json ++ String.ofList interior })
              rest := by
  revert p
  refine Layout.mark_induction ?_ ?_ ?_ ?_ hHeld cs
  · intro held hHeld p hMode hBefore
    have hFits :
        ¬ p.limits.structured <
          p.json.utf8ByteSize +
            byteCount (dropTicksEnd (ticks held)) := by
      rw [Layout.dropTicksEnd_ticks, byteCount_nil]
      omega
    rw [List.append_nil, Layout.splitTicks?_ticks hHeld]
    dsimp only
    rw [if_neg hFits]
    refine ⟨held, p.json, ?_⟩
    rw [run_nil, eq_of_mode hMode]
  · intro cs p hMode hBefore
    have hFits :
        ¬ p.limits.structured <
          p.json.utf8ByteSize + byteCount [] := by
      rw [byteCount_nil]
      omega
    rw [Layout.splitTicks?_of_tick,
      run_cons_of_ok (step_mark_of_json hMode)]
    dsimp only
    rw [if_neg hFits]
    simp
  · intro held cs hTwo ih p hMode hBefore
    have hNext :=
      ih { p with mode := jsonMode (held + 1) } rfl hBefore
    rw [Layout.ticks_append_tick,
      run_cons_of_ok (step_tick_of_json hTwo hMode)]
    cases hSplit : splitTicks? (ticks (held + 1) ++ cs) with
    | none =>
        rw [hSplit] at hNext
        exact hNext
    | some found =>
        rcases found with ⟨interior, rest⟩
        rw [hSplit] at hNext
        have hClosed :=
          closeFence_mode
            { p with json := p.json ++ String.ofList interior }
            (jsonMode (held + 1))
        dsimp only
        rw [← hClosed]
        exact hNext
  · intro held c cs hHeld hOther ih p hMode hBefore
    let here := ticks held ++ [c]
    have hSize :
        ∀ ds, byteCount (ticks held ++ c :: ds) =
          byteCount here + byteCount ds :=
      byteCount_append_cons (ticks held) c
    rw [Layout.splitTicks?_of_other hHeld hOther,
      Layout.dropTicksEnd_of_other hOther]
    by_cases hRoom :
        p.json.utf8ByteSize + byteCount here ≤
          p.limits.structured
    · let q : Splitter :=
        { p with
          json := p.json ++ String.ofList here
          mode := .json }
      have hTaken :
          q.json.utf8ByteSize =
            p.json.utf8ByteSize + byteCount here := by
        rw [String.utf8ByteSize_append, utf8ByteSize_ofList]
      have hNext := ih q rfl (by rw [hTaken]; exact hRoom)
      rw [Layout.ticks_zero, List.nil_append, hTaken] at hNext
      rw [run_cons_of_ok (step_other_of_json hMode hOther hRoom)]
      cases hSplit : splitTicks? cs with
      | none =>
          rw [hSplit] at hNext
          simp only [Option.map_none, hSize, ← Nat.add_assoc]
          exact hNext
      | some found =>
          rcases found with ⟨interior, rest⟩
          have hText :
              p.json ++
                  String.ofList (ticks held ++ c :: interior) =
                q.json ++ String.ofList interior :=
            String.toList_injective (by simp [q, here])
          have hClosed :=
            closeFence_mode
              { p with
                json := q.json ++ String.ofList interior }
              .json
          rw [hSplit] at hNext
          simp only [Option.map_some, hSize, hText,
            ← Nat.add_assoc]
          rw [← hClosed]
          exact hNext
    · have hFull :=
        step_other_of_full hMode hOther hBefore
          (Nat.lt_of_not_le hRoom)
      have hRun : p.run (c :: cs) = (p.step c).value :=
        run_cons_of_failure (by rw [hFull]; rfl) cs
      rw [hRun]
      cases hSplit : splitTicks? cs with
      | none =>
          simp only [Option.map_none, hSize]
          rw [if_pos (by omega)]
          exact hFull
      | some found =>
          simp only [Option.map_some, hSize]
          rw [if_pos (by omega)]
          exact hFull

------------------------------------------------------------
-- Other Fences
------------------------------------------------------------

/- A fence that is no JSON is left at the next mark. -/
theorem run_other
    (p : Splitter)
    (cs : List Char)
    {held : Nat}
    (hHeld : held < 3)
    (hMode : p.mode = .other held) :
    match splitTicks? (ticks held ++ cs) with
    | none =>
        ∃ later,
          p.run cs = .ok { p with mode := .other later }
    | some (_, rest) =>
        p.run cs = run { p with mode := .prose } rest := by
  have hStep :
      ∀ {q : Splitter} {run : Nat} (c : Char),
        q.mode = .other run →
          (q.step c).value =
            .ok
              (if c = tick then
                if run + 1 = fenceLength then
                  { q with mode := .prose }
                else { q with mode := .other (run + 1) }
              else { q with mode := .other 0 }) := by
    intro q run c hMode
    unfold step
    rw [hMode]
    rfl
  revert p
  refine Layout.mark_induction ?_ ?_ ?_ ?_ hHeld cs
  · intro held hHeld p hMode
    rw [List.append_nil, Layout.splitTicks?_ticks hHeld]
    refine ⟨held, ?_⟩
    rw [run_nil, eq_of_mode hMode]
  · intro cs p hMode
    rw [Layout.splitTicks?_of_tick,
      run_cons_of_ok (hStep tick hMode)]
    rfl
  · intro held cs hTwo ih p hMode
    rw [Layout.ticks_append_tick,
      run_cons_of_ok (hStep tick hMode), if_pos rfl,
      if_neg (by unfold fenceLength; omega)]
    exact ih { p with mode := .other (held + 1) } rfl
  · intro held c cs hHeld hOther ih p hMode
    rw [Layout.splitTicks?_of_other hHeld hOther,
      run_cons_of_ok (hStep c hMode), if_neg hOther]
    have hNext := ih { p with mode := .other 0 } rfl
    rw [Layout.ticks_zero, List.nil_append] at hNext
    cases hSplit : splitTicks? cs with
    | none =>
        rw [hSplit] at hNext
        exact hNext
    | some found =>
        rw [hSplit] at hNext
        exact hNext

end Splitter

end AnswerStream
