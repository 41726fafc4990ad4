import AnswerStream.Proofs.Splitter.Growth

/-
  This file proves what a run keeps that may shorten its prose.
  The blocks of a splitter are in order and its fences go on
  being announced whatever the caps are; prose goes on being
  announced if there is room for all of it.

  Key definitions include:
    * `Splitter.Keeps`

  Main statements:
    * `Splitter.run_append_of_ok`
    * `Splitter.run_append_of_failure`
    * `Splitter.run_keeps`
-/

namespace AnswerStream

open Layout (ticks)

namespace Splitter

------------------------------------------------------------
-- Runs in Parts
------------------------------------------------------------

variable {p q r : Splitter} {c : Char} {cs : List Char}

/- A run over two parts goes on behind the first one. -/
theorem run_append_of_ok
    (hRun : p.run cs = .ok q)
    (ds : List Char) :
    p.run (cs ++ ds) = q.run ds := by
  induction cs generalizing p with
  | nil =>
      cases Result.ok_inj hRun
      rfl
  | cons c cs ih =>
      rcases ok_of_run_cons hRun with ⟨next, hStep, hRest⟩
      rw [List.cons_append, run_cons_of_ok hStep]
      exact ih hRest

/- A run over two parts ends where the first one fails. -/
theorem run_append_of_failure
    (hFailure : (p.run cs).failure.isSome = true)
    (ds : List Char) :
    p.run (cs ++ ds) = p.run cs := by
  induction cs generalizing p with
  | nil => cases hFailure
  | cons c cs ih =>
      rcases hStep : (p.step c).value with ⟨next, failure⟩
      cases failure with
      | none =>
          have hOk : (p.step c).value = .ok next := hStep
          rw [run_cons_of_ok hOk] at hFailure
          rw [List.cons_append, run_cons_of_ok hOk,
            run_cons_of_ok hOk]
          exact ih hFailure
      | some cause =>
          have hHere : (p.step c).value.failure.isSome := by
            simp [hStep]
          rw [List.cons_append, run_cons_of_failure hHere,
            run_cons_of_failure hHere]

------------------------------------------------------------
-- Prose That May Be Shortened
------------------------------------------------------------

/- More prose changes the prose, and nothing else. -/
theorem pushTexts_frame
    (p : Splitter)
    (cs : List Char) :
    ∃ text, (p.pushTexts cs).value = { p with text := text } := by
  induction cs generalizing p with
  | nil => exact ⟨p.text, rfl⟩
  | cons c cs ih =>
      have hHere :
          ∃ text,
            (p.pushText c).value = { p with text := text } := by
        unfold pushText
        dsimp only
        split <;> exact ⟨_, rfl⟩
      rcases hHere with ⟨text, hText⟩
      rcases ih { p with text := text } with ⟨later, hLater⟩
      refine ⟨later, ?_⟩
      simp only [pushTexts, Noted.value_bind, hText, hLater]

/- Without room, another character of prose may shorten it. -/
theorem step_frame_of_prose
    {held : Nat}
    (hMode : p.mode = proseMode held)
    (hOther : c ≠ tick) :
    ∃ text,
      (p.step c).value =
        .ok { p with text := text, mode := .prose } := by
  have hPushed :
      (p.step c).value =
        .ok
          (({ p with mode := .prose }).pushTexts
            (ticks held ++ [c])).value := by
    unfold step
    rw [hMode]
    cases held with
    | zero =>
        have hSame : { p with mode := .prose } = p :=
          eq_of_mode hMode
        rw [hSame]
        simp only [proseMode, if_neg hOther]
        rfl
    | succ held =>
        simp only [proseMode, if_neg hOther]
        rfl
  rcases pushTexts_frame { p with mode := .prose }
      (ticks held ++ [c]) with ⟨text, hText⟩
  exact ⟨text, by rw [hPushed, hText]⟩

/-
  A step that does not fail is a move, or it leaves some prose
  behind.
-/
theorem step_moves_or_shortens
    {read : Nat}
    (hTidy : Tidy p read)
    (hStep : (p.step c).value = .ok q) :
    Moves p c q ∨
      p.inJson = false ∧
        ∃ text, q = { p with text := text, mode := .prose } := by
  have hSteady := hTidy.steady
  generalize hMode : p.mode = mode at hSteady
  cases hSteady with
  | @prose held hHeld =>
      by_cases hTick : c = tick
      · subst hTick
        by_cases hTwo : held < 2
        · rw [step_tick_of_prose hTwo hMode] at hStep
          rw [← Result.ok_inj hStep]
          exact .inl (.hold hTwo hMode)
        · have hLast : held = 2 := by omega
          subst hLast
          rw [step_mark_of_prose hMode] at hStep
          rw [← Result.ok_inj hStep]
          exact .inl (.mark hMode)
      · rcases step_frame_of_prose hMode hTick with
          ⟨text, hText⟩
        rw [hText] at hStep
        exact
          .inr
            ⟨inJson_proseMode hMode, text,
              (Result.ok_inj hStep).symm⟩
  | tag text => exact .inl (step_moves_of_tag hMode hStep)
  | json hHeld =>
      exact
        .inl (step_moves_of_json hHeld hMode hTidy.room hStep)
  | other run => exact .inl (step_moves_of_other hMode hStep)

------------------------------------------------------------
-- What Is Kept
------------------------------------------------------------

/-
  A splitter becomes another one that keeps the finished blocks
  and goes on announcing fences, and prose as well if there is
  room for it.
-/
structure Keeps
    (roomy : Prop)
    (p q : Splitter) : Prop where
  id : q.id = p.id
  limits : q.limits = p.limits
  blocks : p.blocks <+: q.blocks
  announced :
    ∀ kind i, (kind = .text → roomy) →
      Announced p kind i → Announced q kind i

namespace Keeps

variable {roomy : Prop}

theorem refl (p : Splitter) : Keeps roomy p p :=
  ⟨rfl, rfl, List.prefix_refl _, fun _ _ _ hSeen => hSeen⟩

theorem trans
    (hFirst : Keeps roomy p q)
    (hSecond : Keeps roomy q r) :
    Keeps roomy p r where
  id := hSecond.id.trans hFirst.id
  limits := hSecond.limits.trans hFirst.limits
  blocks := hFirst.blocks.trans hSecond.blocks
  announced := by
    intro kind i hKind hSeen
    exact
      hSecond.announced kind i hKind
        (hFirst.announced kind i hKind hSeen)

/- What grows is kept. -/
theorem of_grows (hGrows : Grows p q) : Keeps roomy p q :=
  ⟨hGrows.id, hGrows.limits, hGrows.blocks,
    fun kind i _ hSeen => hGrows.announced kind i hSeen⟩

end Keeps

/- Other prose does not matter to blocks and fences. -/
theorem keeps_of_prose
    (hOut : p.inJson = false)
    (text : String) :
    Keeps False p { p with text := text, mode := .prose } := by
  refine ⟨rfl, rfl, List.prefix_refl _, ?_⟩
  intro kind i hKind hSeen
  cases hSeen with
  | block hAt => exact .block hAt
  | prose hText => exact (hKind rfl).elim
  | fence hIn hJson =>
      rw [hOut] at hIn
      cases hIn

theorem tidy_of_prose
    {read : Nat}
    (hTidy : Tidy p read)
    (text : String) :
    Tidy { p with text := text, mode := .prose }
      text.utf8ByteSize where
  steady := steady_prose
  prose := Nat.le_refl _
  room := hTidy.room
  apart := fun hIn => by cases hIn
  listed := hTidy.listed

/- A step keeps fences, whatever becomes of the prose. -/
theorem step_keeps
    {read : Nat}
    (hTidy : Tidy p read)
    (hStep : (p.step c).value = .ok q) :
    (∃ later, Tidy q later) ∧ Keeps False p q := by
  rcases step_moves_or_shortens hTidy hStep with
    hMoves | ⟨hOut, text, rfl⟩
  · exact
      ⟨⟨_, hMoves.tidy hTidy⟩, .of_grows (hMoves.grows hTidy)⟩
  · exact ⟨⟨_, tidy_of_prose hTidy text⟩, keeps_of_prose hOut text⟩

/- A run keeps fences, whatever becomes of the prose. -/
theorem run_keeps_fences
    {read : Nat}
    (hTidy : Tidy p read)
    (hRun : p.run cs = .ok q) :
    (∃ later, Tidy q later) ∧ Keeps False p q := by
  induction cs generalizing p read with
  | nil =>
      cases Result.ok_inj hRun
      exact ⟨⟨read, hTidy⟩, .refl _⟩
  | cons c cs ih =>
      rcases ok_of_run_cons hRun with ⟨next, hStep, hRest⟩
      rcases step_keeps hTidy hStep with ⟨⟨later, hNext⟩, hHere⟩
      rcases ih hNext hRest with ⟨hLast, hLater⟩
      exact ⟨hLast, hHere.trans hLater⟩

/-
  A run that does not fail leaves a tidy splitter that keeps
  what was announced, prose included if there is room for the
  characters.
-/
theorem run_keeps
    {roomy : Prop}
    {read : Nat}
    (hTidy : Tidy p read)
    (hFits : roomy → read + byteCount cs ≤ p.limits.text)
    (hRun : p.run cs = .ok q) :
    (∃ later, Tidy q later ∧
      (roomy → later ≤ read + byteCount cs)) ∧
      Keeps roomy p q := by
  by_cases hRoomy : roomy
  · rcases run_grows hTidy (hFits hRoomy) hRun with
      ⟨hLast, hGrows⟩
    exact
      ⟨⟨_, hLast, fun _ => Nat.le_refl _⟩, .of_grows hGrows⟩
  · rcases run_keeps_fences hTidy hRun with
      ⟨⟨later, hLast⟩, hKeeps⟩
    refine
      ⟨⟨later, hLast, fun hRoomy' => absurd hRoomy' hRoomy⟩,
        hKeeps.id, hKeeps.limits, hKeeps.blocks, ?_⟩
    intro kind i hKind hSeen
    exact
      hKeeps.announced kind i
        (fun hText => absurd (hKind hText) hRoomy) hSeen

end Splitter

end AnswerStream
