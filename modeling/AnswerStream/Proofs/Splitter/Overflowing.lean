import AnswerStream.Proofs.Splitter.Uses

/-
  This file proves what a character leaves of a splitter if the
  open fence has no room for it. Backticks that were held back
  go into the fence before the character, as far as there is
  room, and they stay there although it fails; all else is as it
  was before the character.

  Key definitions include:
    * `Splitter.Roomy`
    * `Splitter.returned`
    * `Splitter.overflowed`

  Main statements:
    * `Splitter.roomy_uses`
    * `Splitter.step_of_overflow`
    * `overflow_keeps_all_but_backticks`
    * `overflow_returns_backtick`
-/

namespace AnswerStream

open Layout (ticks)

namespace Splitter

variable {p q : Splitter} {limits : Limits} {c : Char}

------------------------------------------------------------
-- Characters That Have Room
------------------------------------------------------------

/-
  More characters of a fence are taken up to the first one for
  which there is no room.
-/
theorem pushJsons_parts
    (p : Splitter)
    (cs : List Char) :
    ∃ taken rest,
      cs = taken ++ rest ∧
      p.pushJsons cs =
        ( { p with json := p.json ++ String.ofList taken },
          rest.isEmpty ) ∧
      (p.json.utf8ByteSize ≤ p.limits.structured →
        p.json.utf8ByteSize + byteCount taken ≤
          p.limits.structured) ∧
      ∀ c more, rest = c :: more →
        p.limits.structured <
          p.json.utf8ByteSize + byteCount taken +
            c.utf8Size := by
  induction cs generalizing p with
  | nil =>
      refine ⟨[], [], rfl, ?_, fun hFits => hFits, nofun⟩
      simp [pushJsons]
  | cons c cs ih =>
      by_cases hFull :
          p.limits.structured < p.json.utf8ByteSize + c.utf8Size
      · refine ⟨[], c :: cs, rfl, ?_, fun hFits => hFits, ?_⟩
        · simp [pushJsons, pushJson?, hFull]
        · intro d more hRest
          cases hRest
          exact hFull
      · let next : Splitter := { p with json := p.json.push c }
        have hSize :
            next.json.utf8ByteSize =
              p.json.utf8ByteSize + c.utf8Size :=
          String.utf8ByteSize_push
        rcases ih next with
          ⟨taken, rest, hParts, hPushed, hFits, hBehind⟩
        rw [hSize] at hFits hBehind
        have hText :
            next.json ++ String.ofList taken =
              p.json ++ String.ofList (c :: taken) :=
          String.toList_injective (by simp [next])
        have hHere : p.pushJsons (c :: cs) = next.pushJsons cs := by
          simp [pushJsons, pushJson?, hFull, next]
        refine ⟨c :: taken, rest, by rw [hParts]; rfl, ?_, ?_, ?_⟩
        · rw [hHere, hPushed, hText]
        · intro _
          rw [byteCount_cons, ← Nat.add_assoc]
          exact hFits (Nat.le_of_not_lt hFull)
        · intro d more hRest
          rw [byteCount_cons, ← Nat.add_assoc]
          exact hBehind d more hRest

/- A character without room is not taken. -/
theorem takeJson_of_full
    (hFull :
      p.limits.structured < p.json.utf8ByteSize + c.utf8Size)
    (mode : Mode) :
    (p.takeJson [c] mode).value =
      ⟨p, some ⟨p.limits.structured⟩⟩ := by
  unfold takeJson pushJsons pushJson?
  rw [if_pos hFull]
  rfl

/- A character that fails has no room, so it is not taken. -/
theorem takeJson_of_failure
    {cause : Overflow}
    {mode : Mode}
    (hFailure :
      (p.takeJson [c] mode).value.failure = some cause) :
    (p.takeJson [c] mode).value =
      ⟨p, some ⟨p.limits.structured⟩⟩ := by
  refine takeJson_of_full (Nat.lt_of_not_le fun hFits => ?_) mode
  have hBytes :
      p.json.utf8ByteSize + byteCount [c] ≤
        p.limits.structured :=
    hFits
  rw [takeJson_of_fits hBytes] at hFailure
  cases hFailure

/- Backticks without room for all of them fill the fence. -/
theorem takeJson_ticks_of_full
    {held : Nat}
    (hFits : p.json.utf8ByteSize ≤ p.limits.structured)
    (hFull :
      p.limits.structured < p.json.utf8ByteSize + held)
    (mode : Mode) :
    let room := p.limits.structured - p.json.utf8ByteSize
    (p.takeJson (ticks held) mode).value =
      ⟨{ p with json := p.json ++ String.ofList (ticks room) },
        some ⟨p.limits.structured⟩⟩ := by
  intro room
  rcases pushJsons_parts p (ticks held) with
    ⟨taken, rest, hParts, hPushed, hTakenFits, hBehind⟩
  rcases List.append_eq_replicate_iff.mp hParts.symm with
    ⟨hHeld, hTaken, hRest⟩
  have hBytes : byteCount taken = taken.length :=
    (congrArg byteCount hTaken).trans (byteCount_ticks _)
  have hBelow := hTakenFits hFits
  cases rest with
  | nil =>
      rw [List.length_nil] at hHeld
      omega
  | cons d more =>
      have hTick : d = tick :=
        (List.cons_eq_cons.mp hRest).1
      have hByte : d.utf8Size = 1 := by
        rw [hTick]
        rfl
      have hFirst := hBehind d more rfl
      have hRoom : taken.length = room := by
        omega
      have hAll : taken = ticks room :=
        hTaken.trans (congrArg ticks hRoom)
      unfold takeJson
      rw [hPushed, hAll]
      rfl

------------------------------------------------------------
-- Fences Below Their Caps
------------------------------------------------------------

/- A splitter with the given caps, whose fence keeps to its cap. -/
structure Roomy
    (limits : Limits)
    (p : Splitter) : Prop where
  caps : p.limits = limits
  fits : p.json.utf8ByteSize ≤ limits.structured

/- These are the caps of the splitter. -/
theorem Roomy.fits_own
    (hRoomy : Roomy limits p) :
    p.json.utf8ByteSize ≤ p.limits.structured := by
  rw [hRoomy.caps]
  exact hRoomy.fits

/- The same fence with the same caps keeps to them. -/
theorem Roomy.of_same
    (hRoomy : Roomy limits p)
    (hLimits : q.limits = p.limits)
    (hJson : q.json = p.json) :
    Roomy limits q where
  caps := hLimits.trans hRoomy.caps
  fits := by
    rw [hJson]
    exact hRoomy.fits

/- An empty fence keeps to any cap. -/
theorem roomy_of_empty
    (hLimits : p.limits = limits)
    (hJson : p.json = "") :
    Roomy limits p where
  caps := hLimits
  fits := by
    rw [hJson]
    exact Nat.zero_le _

theorem Roomy.openJson
    (hRoomy : Roomy limits p) :
    Roomy limits p.openJson :=
  roomy_of_empty (p.openJson_limits.trans hRoomy.caps) rfl

theorem Roomy.closeFence
    (hRoomy : Roomy limits p) :
    Roomy limits p.closeFence := by
  refine
    roomy_of_empty (p.closeFence_limits.trans hRoomy.caps) ?_
  unfold Splitter.closeFence
  rw [finishJson_value]
  split <;> rfl

/- What is taken of more characters keeps to the cap. -/
theorem Roomy.takeJson
    (hRoomy : Roomy limits p)
    (cs : List Char)
    (mode : Mode) :
    Roomy limits (p.takeJson cs mode).value.splitter := by
  rcases pushJsons_parts p cs with
    ⟨taken, rest, _, hPushed, hFits, _⟩
  have hTaken :
      (p.takeJson cs mode).value.splitter.json =
          p.json ++ String.ofList taken ∧
        (p.takeJson cs mode).value.splitter.limits =
          p.limits := by
    unfold Splitter.takeJson
    rw [hPushed]
    cases rest <;> exact ⟨rfl, rfl⟩
  refine ⟨hTaken.2.trans hRoomy.caps, ?_⟩
  rw [hTaken.1, String.utf8ByteSize_append, utf8ByteSize_ofList,
    ← hRoomy.caps]
  exact hFits hRoomy.fits_own

/- A character of prose leaves the fence and the caps alone. -/
theorem Roomy.step_of_prose
    {held : Nat}
    (hRoomy : Roomy limits p)
    (hHeld : held < fenceLength)
    (hMode : p.mode = proseMode held) :
    Roomy limits (p.step c).value.splitter ∧
      (p.step c).value.failure = none := by
  by_cases hTick : c = tick
  · subst hTick
    by_cases hTwo : held < 2
    · rw [step_tick_of_prose hTwo hMode]
      exact ⟨hRoomy.of_same rfl rfl, rfl⟩
    · have hLast : held = 2 := by
        unfold fenceLength at hHeld
        omega
      subst hLast
      rw [step_mark_of_prose hMode]
      exact ⟨hRoomy.of_same rfl rfl, rfl⟩
  · rcases step_frame_of_prose hMode hTick with ⟨text, hText⟩
    rw [hText]
    exact ⟨hRoomy.of_same rfl rfl, rfl⟩

/-
  A character outside of a fence of JSON does not fail, and has
  its fence kept to the cap.
-/
theorem Roomy.step_of_outside
    (hRoomy : Roomy limits p)
    (hHeld : p.mode.Held 0)
    (hOut : p.inJson = false)
    (c : Char) :
    Roomy limits (p.step c).value.splitter ∧
      (p.step c).value.failure = none := by
  cases hMode : p.mode with
  | prose =>
      have hNone : 0 < fenceLength := by decide
      exact hRoomy.step_of_prose hNone hMode
  | opening held =>
      rw [hMode] at hHeld
      cases held with
      | zero => exact absurd hHeld.1 (by decide)
      | succ held => exact hRoomy.step_of_prose hHeld.2 hMode
  | tag text =>
      unfold step
      rw [hMode]
      dsimp only
      split
      · refine ⟨?_, rfl⟩
        change
          Roomy limits
            (Result.ok (p.openFence text).value).splitter
        rw [openFence_value]
        split
        · exact hRoomy.openJson
        · exact hRoomy.of_same rfl rfl
      · exact ⟨hRoomy.of_same rfl rfl, rfl⟩
  | json => simp [inJson, hMode] at hOut
  | closing held => simp [inJson, hMode] at hOut
  | other run =>
      unfold step
      rw [hMode]
      dsimp only
      split
      · split <;> exact ⟨hRoomy.of_same rfl rfl, rfl⟩
      · exact ⟨hRoomy.of_same rfl rfl, rfl⟩

/- A character keeps the fence to its cap. -/
theorem Roomy.step
    (hRoomy : Roomy limits p)
    (hHeld : p.mode.Held 0)
    (c : Char) :
    Roomy limits (p.step c).value.splitter := by
  cases hMode : p.mode with
  | json =>
      unfold Splitter.step
      rw [hMode]
      dsimp only
      split
      · exact hRoomy.of_same rfl rfl
      · exact hRoomy.takeJson [c] .json
  | closing held =>
      by_cases hTick : c = tick
      · unfold Splitter.step
        rw [hMode]
        dsimp only
        rw [if_pos hTick]
        split
        · exact hRoomy.closeFence
        · exact hRoomy.of_same rfl rfl
      · have hReturned :=
          hRoomy.takeJson (ticks held) (.closing 0)
        rw [step_closing_value hMode hTick]
        dsimp only
        split
        · exact hReturned
        · exact hReturned.takeJson [c] .json
  | _ =>
      have hOut : p.inJson = false := by
        simp [inJson, hMode]
      exact (hRoomy.step_of_outside hHeld hOut c).1

/- So do several of them, also behind a failure. -/
theorem Roomy.run
    {id : String}
    (hRoomy : Roomy limits p)
    (hFormed : Formed id p)
    (cs : List Char) :
    Roomy limits (p.run cs).splitter := by
  induction cs generalizing p with
  | nil => exact hRoomy
  | cons c cs ih =>
      have hHere := hRoomy.step hFormed.held c
      have hTouches := step_touches hFormed.held c
      rcases hStep : (p.step c).value with ⟨next, failure⟩
      rw [hStep] at hHere hTouches
      cases failure with
      | none =>
          rw [run_cons_of_ok hStep]
          exact ih hHere (hTouches.formed hFormed)
      | some cause =>
          rw [run_cons_of_failure (by rw [hStep]; rfl), hStep]
          exact hHere

/- And whatever else is done to a splitter. -/
theorem roomy_uses
    (id : String)
    (limits : Limits)
    (us : List Use) :
    Roomy limits ((start id limits).uses us) := by
  induction us using List.reverseRecOn with
  | nil => exact roomy_of_empty rfl rfl
  | append_singleton us u ih =>
      rw [uses_concat]
      cases u with
      | append chunk =>
          exact ih.run (formed_uses id limits us) chunk.toList
      | close =>
          change
            Roomy limits ((start id limits).uses us).close.value
          rw [close_value]
          split
          · exact ih.closeFence
          · exact ih
      | reset => exact roomy_of_empty ih.caps rfl

------------------------------------------------------------
-- What an Overflow Leaves
------------------------------------------------------------

/- The backticks that a fence of JSON holds back. -/
def Mode.heldBack : Mode → Nat
  | .closing held => held
  | _ => 0

/-
  The mode behind an overflow, with some of the backticks that
  were held back in the fence. If these are all of them, then
  none is held back any more.
-/
def Mode.overflowed
    (returned : Nat) : Mode → Mode
  | .closing held =>
      .closing (if returned = held then 0 else held)
  | mode => mode

/-
  The backticks that go into the fence before a character that
  has no room: those for which there is room.
-/
def returned (p : Splitter) : Nat :=
  min p.mode.heldBack
    (p.limits.structured - p.json.utf8ByteSize)

/- A splitter behind a character that has no room. -/
def overflowed (p : Splitter) : Splitter :=
  { p with
    json := p.json ++ String.ofList (ticks p.returned)
    mode := p.mode.overflowed p.returned }

/- Where no backtick goes into the fence, nothing changes. -/
theorem overflowed_of_none
    (hNone : p.returned = 0)
    (hMode : p.mode.overflowed 0 = p.mode) :
    p.overflowed = p := by
  unfold overflowed
  rw [hNone, hMode]
  simp

/- Only then is there no change. -/
theorem overflowed_eq_self_iff (p : Splitter) :
    p.overflowed = p ↔ p.returned = 0 := by
  constructor
  · intro hSame
    have hJson :
        p.json ++ String.ofList (ticks p.returned) = p.json :=
      congrArg Splitter.json hSame
    have hBytes := congrArg String.utf8ByteSize hJson
    rw [String.utf8ByteSize_append, utf8ByteSize_ofList,
      byteCount_ticks] at hBytes
    omega
  · intro hNone
    refine overflowed_of_none hNone ?_
    cases p.mode with
    | closing held =>
        by_cases hHeld : 0 = held
        · simp [Mode.overflowed, ← hHeld]
        · simp [Mode.overflowed, hHeld]
    | _ => rfl

/- The fence is still open. -/
theorem inJson_overflowed (p : Splitter) :
    p.overflowed.inJson = p.inJson := by
  unfold overflowed inJson
  dsimp only
  cases p.mode <;> rfl

/- So it is closed with the backticks that went into it. -/
theorem close_overflowed
    (hIn : p.inJson = true) :
    p.overflowed.close.value =
      ({ p with
        json :=
          p.json ++
            String.ofList (ticks p.returned) }).close.value := by
  let filled : Splitter :=
    { p with json := p.json ++ String.ofList (ticks p.returned) }
  have hStill := (inJson_overflowed p).trans hIn
  have hFilled : filled.inJson = true := hIn
  change p.overflowed.close.value = filled.close.value
  rw [close_value, if_pos hStill, close_value, if_pos hFilled]
  exact closeFence_mode filled _

/- A character that fails inside of a fence changes nothing. -/
theorem step_of_overflow_in_json
    {cause : Overflow}
    (hMode : p.mode = .json)
    (hFailure : (p.step c).value.failure = some cause) :
    c ≠ tick ∧
      (p.step c).value =
        ⟨p.overflowed, some ⟨p.limits.structured⟩⟩ := by
  have hNone : p.returned = 0 := by
    unfold returned
    rw [hMode]
    exact Nat.zero_min _
  rw [(overflowed_eq_self_iff p).mpr hNone]
  unfold step at hFailure ⊢
  rw [hMode] at hFailure ⊢
  dsimp only at hFailure ⊢
  split at hFailure
  · cases hFailure
  · next hTick =>
    refine ⟨hTick, ?_⟩
    rw [if_neg hTick]
    exact takeJson_of_failure hFailure

/- With room for all backticks, none is held back any more. -/
theorem overflowed_of_room
    {held : Nat}
    (hMode : p.mode = .closing held)
    (hRoom :
      p.json.utf8ByteSize + held ≤ p.limits.structured) :
    p.overflowed =
      { p with
        json := p.json ++ String.ofList (ticks held)
        mode := .closing 0 } := by
  have hAll :
      min held (p.limits.structured - p.json.utf8ByteSize) =
        held := by
    omega
  unfold overflowed returned
  rw [hMode]
  unfold Mode.heldBack Mode.overflowed
  dsimp only
  rw [hAll, if_pos rfl]

/- Without it they are, and some of them fill the fence. -/
theorem overflowed_of_full
    {held : Nat}
    (hMode : p.mode = .closing held)
    (hFits : p.json.utf8ByteSize ≤ p.limits.structured)
    (hFull :
      p.limits.structured < p.json.utf8ByteSize + held) :
    let room := p.limits.structured - p.json.utf8ByteSize
    p.overflowed =
      { p with
        json := p.json ++ String.ofList (ticks room) } := by
  intro room
  have hSome : min held room = room := by
    omega
  have hMore : ¬ room = held := by
    omega
  unfold overflowed returned
  rw [hMode]
  unfold Mode.heldBack Mode.overflowed
  dsimp only
  rw [hSome, if_neg hMore, ← hMode]

/-
  One that fails behind backticks that are held back has those
  of them go into the fence for which there is room.
-/
theorem step_of_overflow_in_closing
    {held : Nat}
    {cause : Overflow}
    (hFits : p.json.utf8ByteSize ≤ p.limits.structured)
    (hMode : p.mode = .closing held)
    (hFailure : (p.step c).value.failure = some cause) :
    c ≠ tick ∧
      (p.step c).value =
        ⟨p.overflowed, some ⟨p.limits.structured⟩⟩ := by
  have hTick : c ≠ tick := by
    intro hTick
    unfold step at hFailure
    rw [hMode] at hFailure
    dsimp only at hFailure
    rw [if_pos hTick] at hFailure
    split at hFailure <;> cases hFailure
  refine ⟨hTick, ?_⟩
  rw [step_closing_value hMode hTick] at hFailure ⊢
  by_cases hRoom :
      p.json.utf8ByteSize + held ≤ p.limits.structured
  · -- All backticks go back, and the character behind them fails.
    have hBytes :
        p.json.utf8ByteSize + byteCount (ticks held) ≤
          p.limits.structured := by
      rwa [byteCount_ticks]
    rw [overflowed_of_room hMode hRoom]
    rw [takeJson_of_fits hBytes] at hFailure ⊢
    exact takeJson_of_failure hFailure
  · -- The fence is full before all of them are back.
    have hFull := Nat.lt_of_not_le hRoom
    rw [overflowed_of_full hMode hFits hFull,
      takeJson_ticks_of_full hFits hFull (.closing 0)]
    rfl

/-
  A character fails only in a fence of JSON, and what it leaves
  there is known.
-/
theorem step_of_overflow
    {cause : Overflow}
    (hRoomy : Roomy limits p)
    (hHeld : p.mode.Held 0)
    (hFailure : (p.step c).value.failure = some cause) :
    p.inJson = true ∧ c ≠ tick ∧
      (p.step c).value =
        ⟨p.overflowed, some ⟨p.limits.structured⟩⟩ := by
  have hIn : p.inJson = true := by
    by_contra hOut
    have hNone :=
      (hRoomy.step_of_outside hHeld (Bool.eq_false_iff.mpr hOut)
        c).2
    rw [hFailure] at hNone
    cases hNone
  refine ⟨hIn, ?_⟩
  cases hMode : p.mode with
  | json => exact step_of_overflow_in_json hMode hFailure
  | closing held =>
      exact
        step_of_overflow_in_closing hRoomy.fits_own hMode hFailure
  | _ => simp [inJson, hMode] at hIn

end Splitter

/-
  A character of any splitter that fails has no room in its
  fence. It leaves the splitter as it was, but for backticks
  that were held back before it: as many of them as there is
  room for are in the fence then, and if these are all of them,
  none is held back any more. So the splitter is as it was just
  if none was held back or the fence was full; and a fence that
  is closed then is closed with these backticks inside.
-/
theorem overflow_keeps_all_but_backticks
    (id : String)
    (limits : Limits)
    (us : List Splitter.Use)
    (c : Char)
    (cause : Overflow)
    (hFailure :
      (((Splitter.start id limits).uses us).step
        c).value.failure = some cause) :
    let p := (Splitter.start id limits).uses us
    let q := (p.step c).value.splitter
    cause = ⟨limits.structured⟩ ∧
      p.inJson = true ∧
      c ≠ Splitter.tick ∧
      q = p.overflowed ∧
      (q = p ↔
        p.mode.heldBack = 0 ∨
          p.json.utf8ByteSize = limits.structured) ∧
      q.close.value =
        ({ p with
          json :=
            p.json ++
              String.ofList (ticks p.returned) }).close.value := by
  intro p q
  have hRoomy := Splitter.roomy_uses id limits us
  have hHeld := (Splitter.formed_uses id limits us).held
  rcases Splitter.step_of_overflow hRoomy hHeld hFailure with
    ⟨hIn, hTick, hStep⟩
  have hLeft : q = p.overflowed :=
    congrArg Splitter.Result.splitter hStep
  have hFits : p.json.utf8ByteSize ≤ limits.structured :=
    hRoomy.fits
  have hLimits : p.limits = limits := hRoomy.caps
  refine ⟨?_, hIn, hTick, hLeft, ?_, ?_⟩
  · rw [hStep] at hFailure
    rw [← Option.some.inj hFailure, hRoomy.caps]
  · rw [hLeft, Splitter.overflowed_eq_self_iff]
    unfold Splitter.returned
    rw [hLimits]
    omega
  · rw [hLeft]
    exact Splitter.close_overflowed hIn

/- A fence with two backticks held back, and room for one. -/
def tickedUses : List Splitter.Use :=
  [ .append "See\n\x60\x60\x60json\n1", .append "\x60\x60" ]

/- One of them goes into it, and both are still held back. -/
theorem tickedUses_keep_all_but_backticks :
    let p := (Splitter.start "p" ⟨8, 2⟩).uses tickedUses
    (p.step 'a').value.failure = some ⟨2⟩ ∧
      (p.step 'a').value.splitter = p.overflowed ∧
      p.overflowed.json = "1\x60" ∧
      p.overflowed.mode = .closing 2 := by
  have hFailure :
      (((Splitter.start "p" ⟨8, 2⟩).uses tickedUses).step
        'a').value.failure = some ⟨2⟩ := by
    decide +kernel
  have hKept :=
    overflow_keeps_all_but_backticks "p" ⟨8, 2⟩ tickedUses 'a'
      ⟨2⟩ hFailure
  refine ⟨hFailure, hKept.2.2.2.1, ?_⟩
  decide +kernel

/-
  A character that fails behind a backtick changes the splitter:
  the backtick is in the fence then, and still is where the
  fence is closed, so that the block of the fence has no value.
-/
theorem overflow_returns_backtick :
    let p :=
      (Splitter.start "p" ⟨8, 2⟩).uses
        [.append "\x60\x60\x60json\n1\x60"]
    let q := (p.step 'a').value.splitter
    (p.step 'a').value.failure = some ⟨2⟩ ∧
      q ≠ p ∧
      p.close.value.blocks =
        [ .ofStructured "p:structured:0" 0
            (some (.number (.integer 1))) (some "1") ] ∧
      q.close.value.blocks =
        [ .ofStructured "p:structured:0" 0 none
            (some "1\x60") ] := by
  decide +kernel

end AnswerStream
