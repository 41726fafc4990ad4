import AnswerStream.Splitter.Registers
import AnswerStream.Proofs.Splitter.Keeping

/-
  This file proves that a splitter with registers does what a
  splitter does, whose mode has room for one register only: a
  step leaves every register clear that the phase behind it
  does not use, so that none of them is read with what another
  phase left in it.

  Key definitions include:
    * `Splitter.Machine.Counted`
    * `Splitter.Machine.Agrees`

  Main statements:
    * `Splitter.Machine.step_agrees`
    * `Splitter.Machine.append_agrees`
    * `Splitter.Machine.close_agrees`
    * `Splitter.Machine.reset_splitter`
-/

namespace AnswerStream

open Layout (ticks)

namespace Splitter

namespace Machine

variable {m : Machine} {c : Char}

------------------------------------------------------------
-- Backticks as Text
------------------------------------------------------------

theorem size_ticks (held : Nat) :
    (String.ofList (ticks held)).utf8ByteSize = held := by
  rw [utf8ByteSize_ofList, byteCount_ticks]

theorem push_tick (held : Nat) :
    (String.ofList (ticks held)).push tick =
      String.ofList (ticks (held + 1)) :=
  String.toList_injective (by simp [Layout.ticks_succ])

------------------------------------------------------------
-- Clear Registers
------------------------------------------------------------

/-
  One or two backticks are held back where a fence may open,
  and none of them elsewhere; at most two are counted where a
  fence of JSON may close, and where another one may; and none
  elsewhere.
-/
structure Counted (m : Machine) : Prop where
  opening :
    m.phase = .opening →
      ∃ held, (held = 1 ∨ held = 2) ∧
        m.fenceBuffer = String.ofList (ticks held)
  unopened : m.phase ≠ .opening → m.fenceBuffer = ""
  closing : m.phase = .closing → m.endTicks ≤ 2
  unclosed : m.phase ≠ .closing → m.endTicks = 0
  other : m.phase = .other → m.otherTicks ≤ 2
  inside : m.phase ≠ .other → m.otherTicks = 0

namespace Counted

/- All registers are clear in the phases that use none. -/
theorem clear
    {phase : Phase}
    (hCounted : m.Counted)
    (hPhase : m.phase = phase)
    (hUnused :
      phase ≠ .opening ∧ phase ≠ .closing ∧ phase ≠ .other) :
    m.fenceBuffer = "" ∧ m.endTicks = 0 ∧ m.otherTicks = 0 := by
  subst hPhase
  exact
    ⟨hCounted.unopened hUnused.1, hCounted.unclosed hUnused.2.1,
      hCounted.inside hUnused.2.2⟩

/- Registers that are clear are so in any phase but one. -/
theorem of_clear
    (hPhase : m.phase ≠ .opening)
    (hFence : m.fenceBuffer = "")
    (hEnd : m.endTicks = 0)
    (hOther : m.otherTicks = 0) :
    m.Counted where
  opening := fun hOpening => absurd hOpening hPhase
  unopened := fun _ => hFence
  closing := fun _ => hEnd ▸ Nat.zero_le 2
  unclosed := fun _ => hEnd
  other := fun _ => hOther ▸ Nat.zero_le 2
  inside := fun _ => hOther

/- Where a fence may open only backticks are held back. -/
theorem of_opening
    {held : Nat}
    (hPhase : m.phase = .opening)
    (hHeld : held = 1 ∨ held = 2)
    (hFence : m.fenceBuffer = String.ofList (ticks held))
    (hEnd : m.endTicks = 0)
    (hOther : m.otherTicks = 0) :
    m.Counted where
  opening := fun _ => ⟨held, hHeld, hFence⟩
  unopened := fun hNot => absurd hPhase hNot
  closing := fun _ => hEnd ▸ Nat.zero_le 2
  unclosed := fun _ => hEnd
  other := fun _ => hOther ▸ Nat.zero_le 2
  inside := fun _ => hOther

/- Where a fence of JSON may close only its counter is in use. -/
theorem of_closing
    (hPhase : m.phase = .closing)
    (hFence : m.fenceBuffer = "")
    (hEnd : m.endTicks ≤ 2)
    (hOther : m.otherTicks = 0) :
    m.Counted where
  opening := fun hOpening => by cases hPhase.symm.trans hOpening
  unopened := fun _ => hFence
  closing := fun _ => hEnd
  unclosed := fun hNot => absurd hPhase hNot
  other := fun _ => hOther ▸ Nat.zero_le 2
  inside := fun _ => hOther

/- Where another one may close only its counter is in use. -/
theorem of_other
    (hPhase : m.phase = .other)
    (hFence : m.fenceBuffer = "")
    (hEnd : m.endTicks = 0)
    (hOther : m.otherTicks ≤ 2) :
    m.Counted where
  opening := fun hOpening => by cases hPhase.symm.trans hOpening
  unopened := fun _ => hFence
  closing := fun _ => hEnd ▸ Nat.zero_le 2
  unclosed := fun _ => hEnd
  other := fun _ => hOther
  inside := fun hNot => absurd hPhase hNot

/- What is not held back does not matter. -/
theorem holding
    (hCounted : m.Counted)
    (p : Splitter) :
    (m.holding p).Counted :=
  ⟨hCounted.opening, hCounted.unopened, hCounted.closing,
    hCounted.unclosed, hCounted.other, hCounted.inside⟩

/- So it is with the text of the open fence. -/
theorem of_json
    (hCounted : m.Counted)
    (json : String) :
    ({ m with json := json }).Counted :=
  hCounted.holding { m.splitter with json := json }

end Counted

theorem counted_start
    (id : String)
    (limits : Limits) :
    (start id limits).Counted :=
  .of_clear nofun rfl rfl rfl

------------------------------------------------------------
-- Agreement
------------------------------------------------------------

/-
  A machine comes to what a splitter comes to, with the same
  notes, and its registers are clear.
-/
structure Agrees
    (x : Noted Result)
    (y : Noted Splitter.Result) : Prop where
  splitter : x.value.machine.splitter = y.value.splitter
  failure : x.value.failure = y.value.failure
  notes : x.notes = y.notes
  counted : x.value.machine.Counted

/- The register of the phase is the mode of the splitter. -/
theorem splitter_of_mode
    {mode : Mode}
    (hMode : m.mode = mode) :
    m.splitter = { m.splitter with mode := mode } := by
  rw [← hMode]
  rfl

/- A step without a failure or notes. -/
theorem Agrees.of_pure
    {p : Splitter}
    (hSplitter : m.splitter = p)
    (hCounted : m.Counted) :
    Agrees (pure (.ok m)) (pure (.ok p)) :=
  ⟨hSplitter, rfl, rfl, hCounted⟩

/- A step into prose, with what it leaves there. -/
theorem Agrees.of_prose
    {x : Noted Splitter}
    {y : Noted Splitter.Result}
    (hValue : y.value = .ok { x.value with mode := .prose })
    (hNotes : y.notes = x.notes)
    (hFence : m.fenceBuffer = "")
    (hEnd : m.endTicks = 0)
    (hOther : m.otherTicks = 0) :
    Agrees
      (do
        let later ← m.holding <$> x
        return .ok { later with phase := .prose }) y where
  splitter := (congrArg Splitter.Result.splitter hValue).symm
  failure := (congrArg Splitter.Result.failure hValue).symm
  notes := by simp [hNotes]
  counted := .of_clear nofun hFence hEnd hOther

/- The same behind a note, where both leave the same in prose. -/
theorem Agrees.of_close
    {mode : Mode}
    {x y : Noted Splitter}
    (note : Note)
    (hValue : x.value = { y.value with mode := mode })
    (hNotes : x.notes = y.notes)
    (hFence : m.fenceBuffer = "")
    (hEnd : m.endTicks = 0)
    (hOther : m.otherTicks = 0) :
    Agrees
      (.ok <$> do
        Noted.say note
        let later ← m.holding <$> x
        return { later with phase := .prose })
      (.ok <$> do
        Noted.say note
        let later ← y
        return { later with mode := .prose }) where
  splitter := by
    change
      { x.value with mode := .prose } =
        { y.value with mode := .prose }
    rw [hValue]
  failure := rfl
  notes := by simp [hNotes]
  counted := .of_clear nofun hFence hEnd hOther

------------------------------------------------------------
-- Buffers and Blocks
------------------------------------------------------------

/- The mode does not matter for more prose. -/
theorem pushTexts_mode
    (p : Splitter)
    (mode : Mode)
    (cs : List Char) :
    (({ p with mode := mode }).pushTexts cs).value =
        { (p.pushTexts cs).value with mode := mode } ∧
      (({ p with mode := mode }).pushTexts cs).notes =
        (p.pushTexts cs).notes := by
  induction cs generalizing p with
  | nil => exact ⟨rfl, rfl⟩
  | cons c cs ih =>
      have hValue :
          (({ p with mode := mode }).pushText c).value =
            { (p.pushText c).value with mode := mode } := by
        unfold pushText
        dsimp only
        split <;> rfl
      have hNotes :
          (({ p with mode := mode }).pushText c).notes =
            (p.pushText c).notes := by
        unfold pushText
        dsimp only
        split <;> rfl
      rcases ih (p.pushText c).value with ⟨hRest, hMore⟩
      refine ⟨?_, ?_⟩
      · simp only [Splitter.pushTexts, Noted.value_bind, hValue,
          hRest]
      · simp only [Splitter.pushTexts, Noted.notes_bind, hValue,
          hNotes, hMore]

/- Nor does it matter for what a fence of JSON becomes. -/
theorem finishJson_mode
    (p : Splitter)
    (mode : Mode) :
    ({ p with mode := mode }).finishJson.value =
        { p.finishJson.value with mode := mode } ∧
      ({ p with mode := mode }).finishJson.notes =
        p.finishJson.notes := by
  refine ⟨?_, ?_⟩
  · rw [finishJson_value, finishJson_value]
    unfold runsOut
    dsimp only
    split <;> rfl
  · unfold Splitter.finishJson
    dsimp only
    by_cases hBlank : (Text.trim p.json).isEmpty = true
    · rw [if_pos hBlank, if_pos hBlank]
      rfl
    · rw [if_neg hBlank, if_neg hBlank]
      cases Json.partialValue? (Text.trim p.json) <;> rfl

/- So a fence is finished alike once its counter is clear. -/
theorem finishJson_cleared (m : Machine) :
    let cleared : Machine := { m with endTicks := 0 }
    cleared.splitter.finishJson.value =
        { m.splitter.finishJson.value with mode := cleared.mode } ∧
      cleared.splitter.finishJson.notes =
        m.splitter.finishJson.notes :=
  finishJson_mode m.splitter _

/- More text of a fence is the same for both. -/
theorem takeJson_cases
    (m : Machine)
    (cs : List Char) :
    ∃ json,
      (m.takeJson cs = pure (.ok { m with json := json }) ∧
        ∀ mode,
          m.splitter.takeJson cs mode =
            pure (.ok
              { m.splitter with json := json, mode := mode })) ∨
      ∃ cause notes,
        m.takeJson cs =
            ⟨⟨{ m with json := json }, some cause⟩, notes⟩ ∧
          ∀ mode,
            m.splitter.takeJson cs mode =
              ⟨⟨{ m.splitter with json := json }, some cause⟩,
                notes⟩ := by
  rcases pushJsons_frame m.splitter cs with ⟨json, hJson⟩
  refine ⟨json, ?_⟩
  unfold takeJson Splitter.takeJson
  rcases hPushed : m.splitter.pushJsons cs with ⟨next, taken⟩
  rw [hPushed] at hJson
  cases hJson
  cases taken with
  | true => exact .inl ⟨rfl, fun _ => rfl⟩
  | false => exact .inr ⟨_, _, rfl, fun _ => rfl⟩

/- The end of the line that opens a fence opens it for both. -/
theorem openFence_agrees
    (hCounted : m.Counted)
    (hPhase : m.phase = .tag) :
    Agrees (.ok <$> m.openFence)
      (.ok <$> m.splitter.openFence m.fenceTag) := by
  rcases hCounted.clear hPhase (by decide) with
    ⟨hFence, hEnd, hOther⟩
  unfold openFence Splitter.openFence
  dsimp only
  by_cases hTag : Text.lower (Text.trim m.fenceTag) = jsonTag
  · rw [if_pos hTag, if_pos hTag]
    generalize m.splitter.flushText = p
    exact ⟨rfl, rfl, rfl, .of_clear nofun hFence hEnd hOther⟩
  · rw [if_neg hTag, if_neg hTag]
    exact
      ⟨rfl, rfl, rfl, .of_other rfl hFence hEnd (Nat.zero_le 2)⟩

------------------------------------------------------------
-- Steps
------------------------------------------------------------

theorem stepProse_agrees
    (hCounted : m.Counted)
    (hPhase : m.phase = .prose) :
    Agrees (m.stepProse c) (m.splitter.step c) := by
  have hMode : m.splitter.mode = .prose := by
    simp only [splitter, mode, hPhase]
  rcases hCounted.clear hPhase (by decide) with
    ⟨hFence, hEnd, hOther⟩
  unfold stepProse Splitter.step
  rw [hMode]
  dsimp only
  by_cases hTick : c = tick
  · rw [if_pos hTick, if_pos hTick, hTick, hFence]
    exact
      .of_pure rfl (.of_opening rfl (.inl rfl) rfl hEnd hOther)
  · rw [if_neg hTick, if_neg hTick]
    rcases pushTexts_frame m.splitter [c] with ⟨text, hText⟩
    refine ⟨?_, rfl, ?_, hCounted.holding _⟩
    · change
        (m.holding (m.splitter.pushTexts [c]).value).splitter =
          (m.splitter.pushTexts [c]).value
      rw [hText]
      rfl
    · simp [pushTexts, Splitter.pushTexts]

theorem stepOpening_agrees
    (hCounted : m.Counted)
    (hPhase : m.phase = .opening) :
    Agrees (m.stepOpening c) (m.splitter.step c) := by
  rcases hCounted.opening hPhase with ⟨held, hHeld, hFence⟩
  have hMode : m.splitter.mode = .opening held := by
    simp only [splitter, mode, hPhase, hFence, size_ticks]
  have hEnd : m.endTicks = 0 :=
    hCounted.unclosed (by rw [hPhase]; decide)
  have hOther : m.otherTicks = 0 :=
    hCounted.inside (by rw [hPhase]; decide)
  unfold stepOpening Splitter.step
  rw [hMode]
  dsimp only
  by_cases hTick : c = tick
  · rw [if_pos hTick, if_pos hTick, hTick, hFence, push_tick,
      size_ticks]
    by_cases hLast : held + 1 = fenceLength
    · rw [if_pos hLast, if_pos hLast]
      exact .of_pure rfl (.of_clear nofun rfl hEnd hOther)
    · rw [if_neg hLast, if_neg hLast]
      have hMore : held + 1 = 1 ∨ held + 1 = 2 := by
        unfold fenceLength at hLast
        omega
      refine
        .of_pure (splitter_of_mode ?_)
          (.of_opening hPhase hMore rfl hEnd hOther)
      simp only [mode, hPhase, size_ticks]
  · rw [if_neg hTick, if_neg hTick, hFence, String.toList_ofList]
    let cleared : Machine := { m with fenceBuffer := "" }
    rcases pushTexts_mode cleared.splitter .prose
        (ticks held ++ [c]) with ⟨hPushed, hNotes⟩
    refine .of_prose ?_ ?_ rfl hEnd hOther
    · exact congrArg Splitter.Result.ok hPushed
    · exact (Noted.notes_map _ _).trans hNotes

theorem stepTag_agrees
    (hCounted : m.Counted)
    (hPhase : m.phase = .tag) :
    Agrees (m.stepTag c) (m.splitter.step c) := by
  have hMode : m.splitter.mode = .tag m.fenceTag := by
    simp only [splitter, mode, hPhase]
  unfold stepTag Splitter.step
  rw [hMode]
  dsimp only
  by_cases hLine : c = '\n'
  · rw [if_pos hLine, if_pos hLine]
    exact openFence_agrees hCounted hPhase
  · rw [if_neg hLine, if_neg hLine]
    rcases hCounted.clear hPhase (by decide) with
      ⟨hFence, hEnd, hOther⟩
    have hOut : m.phase ≠ .opening := by
      rw [hPhase]
      decide
    refine
      .of_pure (splitter_of_mode ?_)
        (.of_clear hOut hFence hEnd hOther)
    simp only [mode, hPhase]

theorem stepJson_agrees
    (hCounted : m.Counted)
    (hPhase : m.phase = .json) :
    Agrees (m.stepJson c) (m.splitter.step c) := by
  have hMode : m.splitter.mode = .json := by
    simp only [splitter, mode, hPhase]
  rcases hCounted.clear hPhase (by decide) with
    ⟨hFence, hEnd, hOther⟩
  unfold stepJson Splitter.step
  rw [hMode]
  dsimp only
  by_cases hTick : c = tick
  · rw [if_pos hTick, if_pos hTick]
    have hOne : 1 ≤ 2 := by decide
    exact .of_pure rfl (.of_closing rfl hFence hOne hOther)
  · rw [if_neg hTick, if_neg hTick]
    rcases takeJson_cases m [c] with
      ⟨json, ⟨hTaken, hSame⟩ | ⟨cause, notes, hFull, hSame⟩⟩
    · rw [hTaken, hSame, ← hMode]
      exact .of_pure rfl (hCounted.of_json json)
    · rw [hFull, hSame]
      exact ⟨rfl, rfl, rfl, hCounted.of_json json⟩

/- The character behind the backticks that went back. -/
theorem pushBehind_agrees
    (hPhase : m.phase = .closing)
    (hFence : m.fenceBuffer = "")
    (hEnd : m.endTicks = 0)
    (hOther : m.otherTicks = 0) :
    Agrees
      (do
        let pushed ← m.takeJson [c]
        if pushed.failure.isSome then return pushed
        else return .ok { pushed.machine with phase := .json })
      (({ m.splitter with mode := .closing 0 }).takeJson [c]
        .json) := by
  have hMode : m.mode = .closing 0 := by
    simp only [mode, hPhase, hEnd]
  have hFew : m.endTicks ≤ 2 := hEnd ▸ Nat.zero_le 2
  rw [← splitter_of_mode hMode]
  rcases takeJson_cases m [c] with
    ⟨json, ⟨hTaken, hSame⟩ | ⟨cause, notes, hFull, hSame⟩⟩
  · rw [hTaken, hSame, Noted.pure_bind]
    exact .of_pure rfl (.of_clear nofun hFence hEnd hOther)
  · rw [hFull, hSame]
    exact
      { splitter := rfl
        failure := rfl
        notes := Array.append_empty
        counted := .of_closing hPhase hFence hFew hOther }

theorem stepClosing_agrees
    (hCounted : m.Counted)
    (hPhase : m.phase = .closing) :
    Agrees (m.stepClosing c) (m.splitter.step c) := by
  have hMode : m.splitter.mode = .closing m.endTicks := by
    simp only [splitter, mode, hPhase]
  have hFence : m.fenceBuffer = "" :=
    hCounted.unopened (by rw [hPhase]; decide)
  have hOther : m.otherTicks = 0 :=
    hCounted.inside (by rw [hPhase]; decide)
  have hEnd := hCounted.closing hPhase
  unfold stepClosing Splitter.step
  rw [hMode]
  dsimp only
  by_cases hTick : c = tick
  · rw [if_pos hTick, if_pos hTick]
    by_cases hLast : m.endTicks + 1 = fenceLength
    · rw [if_pos hLast, if_pos hLast]
      rcases m.finishJson_cleared with ⟨hSame, hNotes⟩
      refine .of_prose ?_ ?_ hFence rfl hOther
      · rw [Noted.value_bind, Noted.value_pure, hSame]
      · simpa using hNotes.symm
    · rw [if_neg hLast, if_neg hLast]
      have hMore : m.endTicks + 1 ≤ 2 := by
        unfold fenceLength at hLast
        omega
      refine
        .of_pure (splitter_of_mode ?_)
          (.of_closing hPhase hFence hMore hOther)
      simp only [mode, hPhase]
  · rw [if_neg hTick, if_neg hTick]
    rcases takeJson_cases m (ticks m.endTicks) with
      ⟨json, ⟨hTaken, hSame⟩ | ⟨cause, notes, hFull, hSame⟩⟩
    · rw [← ticks, hTaken, hSame, Noted.pure_bind,
        Noted.pure_bind]
      -- All are back, so that the counter is clear already.
      let next : Machine := { m with json := json, endTicks := 0 }
      exact
        pushBehind_agrees (m := next) hPhase hFence rfl hOther
    · rw [← ticks, hFull, hSame]
      -- Some are back, and the counter still counts them all.
      exact ⟨rfl, rfl, rfl, hCounted.of_json json⟩

theorem stepOther_agrees
    (hCounted : m.Counted)
    (hPhase : m.phase = .other) :
    Agrees (m.stepOther c) (m.splitter.step c) := by
  have hMode : m.splitter.mode = .other m.otherTicks := by
    simp only [splitter, mode, hPhase]
  have hFence : m.fenceBuffer = "" :=
    hCounted.unopened (by rw [hPhase]; decide)
  have hEnd : m.endTicks = 0 :=
    hCounted.unclosed (by rw [hPhase]; decide)
  have hOther := hCounted.other hPhase
  unfold stepOther Splitter.step
  rw [hMode]
  dsimp only
  by_cases hTick : c = tick
  · rw [if_pos hTick, if_pos hTick]
    by_cases hLast : m.otherTicks + 1 = fenceLength
    · rw [if_pos hLast, if_pos hLast]
      exact .of_pure rfl (.of_clear nofun hFence hEnd rfl)
    · rw [if_neg hLast, if_neg hLast]
      have hMore : m.otherTicks + 1 ≤ 2 := by
        unfold fenceLength at hLast
        omega
      refine
        .of_pure (splitter_of_mode ?_)
          (.of_other hPhase hFence hEnd hMore)
      simp only [mode, hPhase]
  · rw [if_neg hTick, if_neg hTick]
    refine
      .of_pure (splitter_of_mode ?_)
        (.of_other hPhase hFence hEnd (Nat.zero_le 2))
    simp only [mode, hPhase]

/- A step is the same for both, and clears its registers. -/
theorem step_agrees
    (hCounted : m.Counted)
    (c : Char) :
    Agrees (m.step c) (m.splitter.step c) := by
  unfold step
  cases hPhase : m.phase with
  | prose => exact stepProse_agrees hCounted hPhase
  | opening => exact stepOpening_agrees hCounted hPhase
  | tag => exact stepTag_agrees hCounted hPhase
  | json => exact stepJson_agrees hCounted hPhase
  | closing => exact stepClosing_agrees hCounted hPhase
  | other => exact stepOther_agrees hCounted hPhase

------------------------------------------------------------
-- Texts
------------------------------------------------------------

/- So are the steps of a text, up to the first failure. -/
theorem feed_agrees
    {x : Noted Result}
    {y : Noted Splitter.Result}
    (hAgrees : Agrees x y)
    (cs : List Char) :
    Agrees (feed x cs) (Splitter.feed y cs) := by
  induction cs generalizing x y with
  | nil => exact hAgrees
  | cons c cs ih =>
      unfold feed Splitter.feed
      rw [hAgrees.failure]
      by_cases hFailure : y.value.failure.isSome = true
      · rw [if_pos hFailure, if_pos hFailure]
        exact hAgrees
      · rw [if_neg hFailure, if_neg hFailure]
        have hStep := step_agrees hAgrees.counted c
        rw [hAgrees.splitter] at hStep
        refine
          ih
            { splitter := hStep.splitter
              failure := hStep.failure
              notes := ?_
              counted := hStep.counted }
        dsimp only
        rw [hAgrees.notes, hStep.notes]

theorem append_agrees
    (hCounted : m.Counted)
    (chunk : String) :
    Agrees (m.append chunk) (m.splitter.append chunk) :=
  feed_agrees (.of_pure rfl hCounted) chunk.toList

/- Closing is the same for both. -/
theorem close_agrees
    (hCounted : m.Counted) :
    Agrees (.ok <$> m.close) (.ok <$> m.splitter.close) := by
  unfold close Splitter.close
  by_cases hJson : m.splitter.inJson = true
  · rw [if_pos hJson, if_pos hJson]
    have hFence : m.fenceBuffer = "" := by
      refine hCounted.unopened fun hPhase => ?_
      simp [inJson, splitter, mode, hPhase] at hJson
    have hOther : m.otherTicks = 0 := by
      refine hCounted.inside fun hPhase => ?_
      simp [inJson, splitter, mode, hPhase] at hJson
    rcases m.finishJson_cleared with ⟨hSame, hNotes⟩
    exact .of_close _ hSame hNotes hFence rfl hOther
  · rw [if_neg hJson, if_neg hJson]
    exact ⟨rfl, rfl, rfl, hCounted⟩

/- So is a reset, behind which all registers are clear. -/
theorem reset_splitter (m : Machine) :
    m.reset.splitter = m.splitter.reset :=
  rfl

end Machine

end Splitter

end AnswerStream
