import AnswerStream.Proofs.Splitter.Running

/-
  This file lists the moves of a splitter: what a character can
  do to one whose buffers have room for it. What holds of every
  run is proven by cases on the moves, and not on the step.

  Key definitions include:
    * `Splitter.Mode.Steady`
    * `Splitter.Moves`

  That there are no other moves is stated by:
    * `Splitter.step_moves`
-/

namespace AnswerStream

open Layout (ticks)

namespace Splitter

------------------------------------------------------------
-- Moves
------------------------------------------------------------

/- The modes in which a splitter can stand between characters. -/
inductive Mode.Steady : Mode → Prop where
| prose {held : Nat} (hHeld : held < 3) :
    Steady (proseMode held)
| tag (text : String) : Steady (.tag text)
| json {held : Nat} (hHeld : held < 3) :
    Steady (jsonMode held)
| other (run : Nat) : Steady (.other run)

/-
  What a character makes of a splitter: prose, a tag or the
  inside of a fence goes on, a backtick is held back, or a
  fence is entered or left.
-/
inductive Moves (p : Splitter) : Char → Splitter → Prop where
| hold
    {held : Nat}
    (hHeld : held < 2)
    (hMode : p.mode = proseMode held) :
    Moves p tick { p with mode := proseMode (held + 1) }
| mark
    (hMode : p.mode = proseMode 2) :
    Moves p tick { p with mode := .tag "" }
| prose
    {held : Nat}
    {c : Char}
    (hMode : p.mode = proseMode held) :
    Moves p c
      { p with
        text := p.text ++ String.ofList (ticks held ++ [c])
        mode := .prose }
| tag
    {text : String}
    {c : Char}
    (hMode : p.mode = .tag text) :
    Moves p c { p with mode := .tag (text.push c) }
| enter
    {text : String}
    {c : Char}
    (hMode : p.mode = .tag text) :
    Moves p c p.openJson
| enterOther
    {text : String}
    {c : Char}
    (hMode : p.mode = .tag text) :
    Moves p c { p with mode := .other 0 }
| holdJson
    {held : Nat}
    (hHeld : held < 2)
    (hMode : p.mode = jsonMode held) :
    Moves p tick { p with mode := jsonMode (held + 1) }
| leave
    (hMode : p.mode = jsonMode 2) :
    Moves p tick p.closeFence
| json
    {held : Nat}
    {c : Char}
    (hMode : p.mode = jsonMode held)
    (hRoom :
      p.json.utf8ByteSize + byteCount (ticks held ++ [c]) ≤
        p.limits.structured) :
    Moves p c
      { p with
        json := p.json ++ String.ofList (ticks held ++ [c])
        mode := .json }
| other
    {run later : Nat}
    {c : Char}
    (hMode : p.mode = .other run) :
    Moves p c { p with mode := .other later }
| leaveOther
    {run : Nat}
    {c : Char}
    (hMode : p.mode = .other run) :
    Moves p c { p with mode := .prose }

------------------------------------------------------------
-- The Moves of a Step
------------------------------------------------------------

section Steps

theorem Result.ok_inj
    {p q : Splitter}
    (hOk : Result.ok p = Result.ok q) :
    p = q :=
  congrArg Result.splitter hOk

variable {p q : Splitter} {c : Char}

/- The move in prose. -/
theorem step_moves_of_prose
    {held : Nat}
    (hHeld : held < 3)
    (hMode : p.mode = proseMode held)
    (hFits :
      p.trailingText.utf8ByteSize + c.utf8Size ≤
        p.limits.text)
    (hStep : (p.step c).value = .ok q) :
    Moves p c q := by
  by_cases hTick : c = tick
  · subst hTick
    by_cases hTwo : held < 2
    · rw [step_tick_of_prose hTwo hMode] at hStep
      rw [← Result.ok_inj hStep]
      exact .hold hTwo hMode
    · have hLast : held = 2 := by omega
      subst hLast
      rw [step_mark_of_prose hMode] at hStep
      rw [← Result.ok_inj hStep]
      exact .mark hMode
  · have hBytes :
        p.text.utf8ByteSize + byteCount (ticks held ++ [c]) ≤
          p.limits.text := by
      rw [← byteCount_toList, trailingText_proseMode hMode,
        byteCount_append, byteCount_toList] at hFits
      rw [byteCount_append, byteCount_cons, byteCount_nil]
      omega
    rw [step_other_of_prose hMode hTick hBytes] at hStep
    rw [← Result.ok_inj hStep]
    exact .prose hMode

/- The move in a tag. -/
theorem step_moves_of_tag
    {text : String}
    (hMode : p.mode = .tag text)
    (hStep : (p.step c).value = .ok q) :
    Moves p c q := by
  unfold step at hStep
  rw [hMode] at hStep
  dsimp only at hStep
  split at hStep
  · have hOpened :
        Result.ok (p.openFence text).value = Result.ok q :=
      hStep
    rw [openFence_value] at hOpened
    split at hOpened
    · rw [← Result.ok_inj hOpened]
      exact .enter hMode
    · rw [← Result.ok_inj hOpened]
      exact .enterOther hMode
  · rw [← Result.ok_inj hStep]
    exact .tag hMode

/- The move in a fence of JSON that does not outgrow its cap. -/
theorem step_moves_of_json
    {held : Nat}
    (hHeld : held < 3)
    (hMode : p.mode = jsonMode held)
    (hBefore : p.json.utf8ByteSize ≤ p.limits.structured)
    (hStep : (p.step c).value = .ok q) :
    Moves p c q := by
  by_cases hTick : c = tick
  · subst hTick
    by_cases hTwo : held < 2
    · rw [step_tick_of_json hTwo hMode] at hStep
      rw [← Result.ok_inj hStep]
      exact .holdJson hTwo hMode
    · have hLast : held = 2 := by omega
      subst hLast
      rw [step_mark_of_json hMode] at hStep
      rw [← Result.ok_inj hStep]
      exact .leave hMode
  · by_cases hRoom :
        p.json.utf8ByteSize + byteCount (ticks held ++ [c]) ≤
          p.limits.structured
    · rw [step_other_of_json hMode hTick hRoom] at hStep
      rw [← Result.ok_inj hStep]
      exact .json hMode hRoom
    · have hFull :=
        step_other_of_full hMode hTick hBefore
          (Nat.lt_of_not_le hRoom)
      rw [hStep] at hFull
      cases hFull

/- The move in another fence. -/
theorem step_moves_of_other
    {run : Nat}
    (hMode : p.mode = .other run)
    (hStep : (p.step c).value = .ok q) :
    Moves p c q := by
  unfold step at hStep
  rw [hMode] at hStep
  dsimp only at hStep
  split at hStep
  · split at hStep
    · rw [← Result.ok_inj hStep]
      exact .leaveOther hMode
    · rw [← Result.ok_inj hStep]
      exact .other hMode
  · rw [← Result.ok_inj hStep]
    exact .other hMode

/- A step that does not fail is a move. -/
theorem step_moves
    (hSteady : p.mode.Steady)
    (hFits :
      p.trailingText.utf8ByteSize + c.utf8Size ≤
        p.limits.text)
    (hBefore : p.json.utf8ByteSize ≤ p.limits.structured)
    (hStep : (p.step c).value = .ok q) :
    Moves p c q := by
  generalize hMode : p.mode = mode at hSteady
  cases hSteady with
  | prose hHeld =>
      exact step_moves_of_prose hHeld hMode hFits hStep
  | tag text => exact step_moves_of_tag hMode hStep
  | json hHeld =>
      exact step_moves_of_json hHeld hMode hBefore hStep
  | other run => exact step_moves_of_other hMode hStep

end Steps

end Splitter

end AnswerStream
