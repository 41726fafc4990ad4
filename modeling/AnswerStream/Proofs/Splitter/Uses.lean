import AnswerStream.Proofs.Splitter.Registers
import Mathlib.Data.List.Induction

/-
  This file proves what holds of a splitter however it is used:
  whatever text it was given, also where a fence outgrew its
  cap, and however often it was closed or reset. A step leaves
  the blocks as they are but for one behind them, so that the
  blocks, the index of the next one and the mark of a finished
  fence stay in agreement. A splitter with registers is used
  alike, and none of them is left in use by another phase.

  Key definitions include:
    * `Splitter.Use`
    * `Splitter.uses`
    * `Splitter.Machine.uses`
    * `Splitter.Mode.Held`
    * `Splitter.Touches`
    * `Splitter.Finished`
    * `Splitter.Formed`
    * `Splitter.Sound`

  Main statements:
    * `Splitter.step_touches`
    * `Splitter.Touches.formed`
    * `Splitter.formed_uses`
    * `Splitter.Machine.uses_agree`
    * `splitter_stays_sound`
-/

namespace AnswerStream

open Layout (ticks)

namespace Splitter

variable {p q : Splitter} {c : Char} {cs : List Char}

------------------------------------------------------------
-- Backticks Held Back
------------------------------------------------------------

/-
  The backticks that are held back in a mode are less than a
  fence, at least one of them in prose and at least so many in
  a fence.
-/
def Mode.Held (least : Nat) : Mode → Prop
  | .opening held => 1 ≤ held ∧ held < fenceLength
  | .closing held => least ≤ held ∧ held < fenceLength
  | _ => True

/- Fewer may be held back. -/
theorem Mode.Held.zero
    {least : Nat}
    {mode : Mode}
    (hHeld : mode.Held least) :
    mode.Held 0 := by
  cases mode with
  | closing held => exact ⟨Nat.zero_le _, hHeld.2⟩
  | _ => exact hHeld

------------------------------------------------------------
-- What a Step Touches
------------------------------------------------------------

/-
  A splitter becomes another one by a step: only the buffers
  and the mode change, or a fence of JSON is entered or left.
-/
inductive Touches
    (least : Nat)
    (p : Splitter) : Splitter → Prop where
| frame
    (text json : String)
    {mode : Mode}
    (hHeld : mode.Held least) :
    Touches least p
      { p with text := text, json := json, mode := mode }
| enter : Touches least p p.openJson
| leave : Touches least p p.closeFence

/-
  A splitter comes to a result in one step. If this is no
  failure, then a backtick is held back where the mode says so.
-/
def Result.Touches
    (p : Splitter)
    (r : Result) : Prop :=
  Splitter.Touches (if r.failure.isSome then 0 else 1) p
    r.splitter

theorem touches_of_prose
    {held : Nat}
    (hHeld : held < fenceLength)
    (hMode : p.mode = proseMode held) :
    (p.step c).value.Touches p := by
  by_cases hTick : c = tick
  · subst hTick
    by_cases hTwo : held < 2
    · rw [step_tick_of_prose hTwo hMode]
      refine .frame p.text p.json ?_
      exact ⟨Nat.le_add_left _ _, Nat.succ_lt_succ hTwo⟩
    · have hLast : held = 2 := by
        unfold fenceLength at hHeld
        omega
      subst hLast
      rw [step_mark_of_prose hMode]
      exact .frame p.text p.json trivial
  · rcases step_frame_of_prose hMode hTick with ⟨text, hText⟩
    rw [hText]
    exact .frame text p.json trivial

theorem touches_of_tag
    {text : String}
    (hMode : p.mode = .tag text) :
    (p.step c).value.Touches p := by
  unfold step
  rw [hMode]
  dsimp only
  split
  · change (Result.ok (p.openFence text).value).Touches p
    rw [openFence_value]
    split
    · exact .enter
    · exact .frame p.text p.json trivial
  · exact .frame p.text p.json trivial

theorem touches_of_json
    (hMode : p.mode = .json) :
    (p.step c).value.Touches p := by
  have hHeld : p.mode.Held 0 := by
    rw [hMode]
    trivial
  unfold step
  rw [hMode]
  dsimp only
  split
  · exact .frame p.text p.json ⟨Nat.le_refl 1, by decide⟩
  · rcases takeJson_frame p [c] .json with ⟨json, hOk | hFull⟩
    · rw [hOk]
      exact .frame p.text json trivial
    · rw [hFull]
      exact .frame p.text json hHeld

/-
  Behind backticks that close nothing a failure leaves the mode
  as it was, or with none of them held back.
-/
theorem touches_of_closing
    {held : Nat}
    (hHeld : held < fenceLength)
    (hMode : p.mode = .closing held) :
    (p.step c).value.Touches p := by
  have hHere : p.mode.Held 0 := by
    rw [hMode]
    exact ⟨Nat.zero_le _, hHeld⟩
  by_cases hTick : c = tick
  · unfold step
    rw [hMode]
    dsimp only
    rw [if_pos hTick]
    split
    · exact .leave
    · refine .frame p.text p.json ?_
      exact ⟨Nat.le_add_left _ _, by omega⟩
  · rw [step_closing_value hMode hTick]
    rcases takeJson_frame p (ticks held) (.closing 0) with
      ⟨json, hOk | hFull⟩
    · rw [hOk]
      let returned : Splitter :=
        { p with json := json, mode := .closing 0 }
      change (returned.takeJson [c] .json).value.Touches p
      rcases takeJson_frame returned [c] .json with
        ⟨later, hOk | hFull⟩
      · rw [hOk]
        exact .frame p.text later trivial
      · rw [hFull]
        refine .frame p.text later ?_
        exact ⟨Nat.le_refl 0, by decide⟩
    · rw [hFull]
      exact .frame p.text json hHere

theorem touches_of_other
    {run : Nat}
    (hMode : p.mode = .other run) :
    (p.step c).value.Touches p := by
  unfold step
  rw [hMode]
  dsimp only
  split
  · split <;> exact .frame p.text p.json trivial
  · exact .frame p.text p.json trivial

/- A step touches the buffers, or enters or leaves a fence. -/
theorem step_touches
    (hHeld : p.mode.Held 0)
    (c : Char) :
    (p.step c).value.Touches p := by
  cases hMode : p.mode with
  | prose =>
      have hNone : 0 < fenceLength := by decide
      exact touches_of_prose hNone hMode
  | opening held =>
      rw [hMode] at hHeld
      cases held with
      | zero => exact absurd hHeld.1 (by decide)
      | succ held => exact touches_of_prose hHeld.2 hMode
  | tag text => exact touches_of_tag hMode
  | json => exact touches_of_json hMode
  | closing held =>
      rw [hMode] at hHeld
      exact touches_of_closing hHeld.2 hMode
  | other run => exact touches_of_other hMode

------------------------------------------------------------
-- What the Blocks Hold
------------------------------------------------------------

/-
  A finished block: text or a source that is not blank and has
  no blanks around it, and with the source its best value.
-/
inductive Finished : Block → Prop where
| text
    (id : String)
    (index : UInt32)
    {body : String}
    (hTrimmed : Text.trim body = body)
    (hSome : body.isEmpty = false) :
    Finished (.ofText id index body)
| fence
    (id : String)
    (index : UInt32)
    {source : String}
    (hTrimmed : Text.trim source = source)
    (hSome : source.isEmpty = false) :
    Finished
      (.ofStructured id index (Json.partialValue? source)
        (some source))

/-
  A splitter of the given identity, in which the blocks, their
  number and the marks of the last index and of a finished fence
  agree.
-/
structure Formed
    (id : String)
    (p : Splitter) : Prop where
  id : p.id = id
  listed : Listed p.id p.nextIndex p.blocks
  room : p.exhausted = true ↔ UInt32.size ≤ p.blocks.length
  finished : ∀ b ∈ p.blocks, Finished b
  complete :
    p.jsonComplete = true ↔
      ∃ b ∈ p.blocks, b.kind = .structured
  held : p.mode.Held 0

theorem formed_start
    (id : String)
    (limits : Limits) :
    Formed id (start id limits) where
  id := rfl
  listed := (tidy_start id limits).listed
  room := by simp [start]
  finished := by
    intro b hMember
    cases hMember
  complete := by simp [start]
  held := trivial

namespace Formed

variable {id : String} {least : Nat}

/- It stays so without another block. -/
theorem of_same
    (hFormed : Formed id p)
    (hId : q.id = p.id)
    (hIndex : q.nextIndex = p.nextIndex)
    (hRoom : q.exhausted = p.exhausted)
    (hBlocks : q.blocks = p.blocks)
    (hComplete : q.jsonComplete = p.jsonComplete)
    (hHeld : q.mode.Held 0) :
    Formed id q where
  id := hId.trans hFormed.id
  listed := by
    rw [hId, hIndex, hBlocks]
    exact hFormed.listed
  room := by
    rw [hRoom, hBlocks]
    exact hFormed.room
  finished := hBlocks ▸ hFormed.finished
  complete := by
    rw [hComplete, hBlocks]
    exact hFormed.complete
  held := hHeld

/- The indices run out with the block behind the last one. -/
theorem runsOut_iff (hFormed : Formed id p) :
    p.runsOut = true ↔ UInt32.size ≤ p.blocks.length + 1 := by
  unfold runsOut
  rw [Bool.or_eq_true, hFormed.room, hFormed.listed.index,
    beq_iff_eq]
  by_cases hFew : p.blocks.length < UInt32.size
  · rw [UInt32.toNat_ofNat_of_lt' hFew]
    omega
  · omega

/- It stays so with another block, marked if it is a fence. -/
theorem of_block
    {b : Block}
    (hFormed : Formed id p)
    (hMade : MadeAt p.id p.blocks.length b)
    (hFinished : Finished b)
    (hId : q.id = p.id)
    (hIndex : q.nextIndex = p.nextIndex + 1)
    (hRoom : q.exhausted = p.runsOut)
    (hBlocks : q.blocks = p.blocks ++ [b])
    (hComplete :
      q.jsonComplete =
        (p.jsonComplete || b.kind == .structured))
    (hHeld : q.mode.Held 0) :
    Formed id q where
  id := hId.trans hFormed.id
  listed := by
    rw [hId, hIndex, hBlocks]
    exact hFormed.listed.push hMade
  room := by
    rw [hRoom, hBlocks, List.length_append]
    exact hFormed.runsOut_iff
  finished := by
    intro d hMember
    rw [hBlocks] at hMember
    rcases List.mem_append.mp hMember with hOld | hNew
    · exact hFormed.finished d hOld
    · exact List.mem_singleton.mp hNew ▸ hFinished
  complete := by
    rw [hComplete, hBlocks, Bool.or_eq_true, hFormed.complete,
      beq_iff_eq]
    simp [or_and_right, exists_or]
  held := hHeld

theorem openJson (hFormed : Formed id p) :
    Formed id p.openJson := by
  cases hText : (Text.trim p.text).isEmpty with
  | true =>
      rw [openJson_of_blank hText]
      exact hFormed.of_same rfl rfl rfl rfl rfl trivial
  | false =>
      rw [openJson_of_text hText]
      exact
        hFormed.of_block (hFormed.listed.made_text _)
          (.text _ _ (Text.trim_trim p.text) hText)
          rfl rfl rfl rfl (Bool.or_false _).symm trivial

theorem closeFence (hFormed : Formed id p) :
    Formed id p.closeFence := by
  cases hJson : (Text.trim p.json).isEmpty with
  | true =>
      rw [closeFence_of_blank hJson]
      exact hFormed.of_same rfl rfl rfl rfl rfl trivial
  | false =>
      rw [closeFence_of_json hJson, ← Json.partialValue?_trim]
      exact
        hFormed.of_block (hFormed.listed.made_fence _ _)
          (.fence _ _ (Text.trim_trim p.json) hJson)
          rfl rfl rfl rfl (Bool.or_true _).symm trivial

end Formed

theorem prefix_openJson (p : Splitter) :
    p.blocks <+: p.openJson.blocks := by
  cases hText : (Text.trim p.text).isEmpty with
  | true =>
      simp [openJson_of_blank hText]
  | false =>
      rw [openJson_of_text hText]
      exact List.prefix_append _ _

theorem prefix_closeFence (p : Splitter) :
    p.blocks <+: p.closeFence.blocks := by
  cases hJson : (Text.trim p.json).isEmpty with
  | true =>
      simp [closeFence_of_blank hJson]
  | false =>
      rw [closeFence_of_json hJson]
      exact List.prefix_append _ _

namespace Touches

variable {id : String} {least : Nat}

/- What a step touches stays in agreement. -/
theorem formed
    (hTouches : Touches least p q)
    (hFormed : Formed id p) :
    Formed id q := by
  cases hTouches with
  | frame text json hHeld =>
      exact hFormed.of_same rfl rfl rfl rfl rfl hHeld.zero
  | enter => exact hFormed.openJson
  | leave => exact hFormed.closeFence

/- It adds blocks behind the ones that there are. -/
theorem blocks_prefix (hTouches : Touches least p q) :
    p.blocks <+: q.blocks := by
  cases hTouches with
  | frame text json hHeld => exact List.prefix_refl _
  | enter => exact prefix_openJson p
  | leave => exact prefix_closeFence p

theorem held (hTouches : Touches least p q) :
    q.mode.Held least := by
  cases hTouches with
  | frame text json hHeld => exact hHeld
  | enter => trivial
  | leave => trivial

end Touches

------------------------------------------------------------
-- Texts
------------------------------------------------------------

/-
  Characters keep the agreement and add blocks behind. If none
  of them failed, then a backtick is held back where the mode
  says so.
-/
theorem run_formed
    {id : String}
    (hFormed : Formed id p)
    (cs : List Char) :
    Formed id (p.run cs).splitter ∧
      p.blocks <+: (p.run cs).splitter.blocks ∧
      (cs ≠ [] →
        (p.run cs).failure = none →
        (p.run cs).splitter.mode.Held 1) := by
  induction cs generalizing p with
  | nil =>
      exact
        ⟨hFormed, List.prefix_refl _, fun hSome => (hSome rfl).elim⟩
  | cons c cs ih =>
      have hTouches := step_touches hFormed.held c
      rcases hStep : (p.step c).value with ⟨next, failure⟩
      rw [hStep] at hTouches
      cases failure with
      | none =>
          have hNext := hTouches.formed hFormed
          rcases ih hNext with ⟨hLast, hBlocks, hHeld⟩
          rw [run_cons_of_ok hStep]
          refine ⟨hLast, hTouches.blocks_prefix.trans hBlocks, ?_⟩
          intro _ hOk
          cases cs with
          | nil => exact hTouches.held
          | cons d ds => exact hHeld (List.cons_ne_nil d ds) hOk
      | some cause =>
          rw [run_cons_of_failure (by rw [hStep]; rfl), hStep]
          refine ⟨hTouches.formed hFormed, hTouches.blocks_prefix, ?_⟩
          intro _ hOk
          cases hOk

------------------------------------------------------------
-- Uses
------------------------------------------------------------

/- What can be done with a splitter. -/
inductive Use where
| append (chunk : String)
| close
| reset
deriving DecidableEq, Repr

/- What becomes of a splitter. -/
def use
    (p : Splitter) : Use → Result
  | .append chunk => (p.append chunk).value
  | .close => .ok p.close.value
  | .reset => .ok p.reset

/- One use after the other, also behind a failure. -/
def uses
    (p : Splitter)
    (us : List Use) : Splitter :=
  us.foldl (fun q u => (q.use u).splitter) p

theorem uses_concat
    (p : Splitter)
    (us : List Use)
    (u : Use) :
    p.uses (us ++ [u]) = ((p.uses us).use u).splitter := by
  unfold uses
  rw [List.foldl_append]
  rfl

/- Every use keeps the agreement. -/
theorem formed_use
    {id : String}
    (hFormed : Formed id p)
    (u : Use) :
    Formed id (p.use u).splitter := by
  cases u with
  | append chunk => exact (run_formed hFormed chunk.toList).1
  | close =>
      change Formed id p.close.value
      rw [close_value]
      split
      · exact hFormed.closeFence
      · exact hFormed
  | reset =>
      change Formed id (start p.id p.limits)
      rw [hFormed.id]
      exact formed_start id p.limits

/- So do all of them. -/
theorem formed_uses
    (id : String)
    (limits : Limits)
    (us : List Use) :
    Formed id ((start id limits).uses us) := by
  induction us using List.reverseRecOn with
  | nil => exact formed_start id limits
  | append_singleton us u ih =>
      rw [uses_concat]
      exact formed_use ih u

/- What becomes of a splitter with registers. -/
def Machine.use
    (m : Machine) : Use → Machine.Result
  | .append chunk => (m.append chunk).value
  | .close => .ok m.close.value
  | .reset => .ok m.reset

/- One use of it after the other, also behind a failure. -/
def Machine.uses
    (m : Machine)
    (us : List Use) : Machine :=
  us.foldl (fun n u => (n.use u).machine) m

/- A use is the same for both, and leaves registers clear. -/
theorem Machine.use_agrees
    {m : Machine}
    (hCounted : m.Counted)
    (u : Use) :
    (m.use u).machine.splitter = (m.splitter.use u).splitter ∧
      (m.use u).machine.Counted := by
  cases u with
  | append chunk =>
      have hAgrees := append_agrees hCounted chunk
      exact ⟨hAgrees.splitter, hAgrees.counted⟩
  | close =>
      have hAgrees := close_agrees hCounted
      exact ⟨hAgrees.splitter, hAgrees.counted⟩
  | reset =>
      exact ⟨reset_splitter m, counted_start m.id m.limits⟩

/- So are all uses. -/
theorem Machine.uses_agree
    (id : String)
    (limits : Limits)
    (us : List Use) :
    ((start id limits).uses us).splitter =
        (Splitter.start id limits).uses us ∧
      ((start id limits).uses us).Counted := by
  induction us using List.reverseRecOn with
  | nil => exact ⟨rfl, counted_start id limits⟩
  | append_singleton us u ih =>
      have hLast :
          (start id limits).uses (us ++ [u]) =
            (((start id limits).uses us).use u).machine := by
        unfold uses
        rw [List.foldl_append]
        rfl
      have hUse := use_agrees ih.2 u
      rw [ih.1] at hUse
      rw [hLast, uses_concat]
      exact hUse

/- Only a reset takes blocks away. -/
theorem prefix_use
    {id : String}
    (hFormed : Formed id p)
    {u : Use}
    (hKeeps : u ≠ .reset) :
    p.blocks <+: (p.use u).splitter.blocks := by
  cases u with
  | append chunk => exact (run_formed hFormed chunk.toList).2.1
  | close =>
      change p.blocks <+: p.close.value.blocks
      rw [close_value]
      split
      · exact prefix_closeFence p
      · exact List.prefix_refl _
  | reset => exact absurd rfl hKeeps

/- A closed splitter stands in no fence of JSON. -/
theorem held_close (p : Splitter) (hHeld : p.mode.Held 0) :
    p.close.value.mode.Held 1 := by
  rw [close_value]
  split
  · trivial
  · next hOut =>
    cases hMode : p.mode with
    | closing held =>
        simp [inJson, hMode] at hOut
    | _ =>
        rw [hMode] at hHeld
        exact hHeld

/-
  No backtick is held back by a splitter that may close a fence
  only if the last characters that it was given had no room.
-/
theorem overflowed_of_closing
    {id : String}
    {limits : Limits}
    {us : List Use}
    (hMode : ((start id limits).uses us).mode = .closing 0) :
    ∃ before chunk after,
      us = before ++ .append chunk :: after ∧
      (((start id limits).uses before).append
        chunk).value.failure.isSome = true ∧
      ∀ u ∈ after, u = .append "" := by
  induction us using List.reverseRecOn with
  | nil => cases hMode
  | append_singleton us u ih =>
      rw [uses_concat] at hMode
      have hFormed := formed_uses id limits us
      have hNot :
          ¬ ((((start id limits).uses us).use
            u).splitter.mode.Held 1) := by
        rw [hMode]
        exact fun hHeld => absurd hHeld.1 (by decide)
      cases u with
      | append chunk =>
          by_cases hEmpty : chunk = ""
          · subst hEmpty
            rcases ih hMode with
              ⟨before, chunk, after, hUses, hFailure, hAfter⟩
            refine
              ⟨before, chunk, after ++ [.append ""], ?_, hFailure,
                ?_⟩
            · rw [hUses, List.append_assoc, List.cons_append]
            · intro u hMember
              rcases List.mem_append.mp hMember with hOld | hNew
              · exact hAfter u hOld
              · exact List.mem_singleton.mp hNew
          · refine ⟨us, chunk, [], rfl, ?_, nofun⟩
            rw [← Option.ne_none_iff_isSome]
            intro hOk
            refine hNot ((run_formed hFormed chunk.toList).2.2 ?_ hOk)
            exact fun hNil => hEmpty (String.toList_eq_nil_iff.mp hNil)
      | close => exact absurd (held_close _ hFormed.held) hNot
      | reset => exact absurd trivial hNot

------------------------------------------------------------
-- Sound Splitters
------------------------------------------------------------

/-
  A sound splitter: there is an index for the next block, which
  is the number of blocks; each has its place as index and in
  its identity, and these differ; what blocks hold is trimmed
  and not blank, and a value is the best one of its source; a
  fence is marked as finished if there is one; less than three
  backticks are held back, where one may open a fence at least
  one; all blocks are the finished ones and one of the trailing
  prose if there is any, and stand in the order of their
  indices.
-/
structure Sound
    (id : String)
    (p : Splitter) : Prop where
  room : p.exhausted = false
  nextIndex : p.nextIndex.toNat = p.blocks.length
  numbered :
    ∀ i (b : Block), p.blocks[i]? = some b →
      b.index.toNat = i ∧
        b.id = id ++ ":" ++ b.kind.name ++ ":" ++ toString i
  distinct : (p.blocks.map Block.id).Nodup
  finished : ∀ b ∈ p.blocks, Finished b
  complete :
    p.jsonComplete = true ↔
      ∃ b ∈ p.blocks, b.kind = .structured
  opening :
    ∀ held, p.mode = .opening held → held = 1 ∨ held = 2
  closing : ∀ held, p.mode = .closing held → held ≤ 2
  all :
    p.allBlocks = p.blocks ∨
      ∃ body,
        Text.trim body = body ∧
        body.isEmpty = false ∧
        p.allBlocks =
          p.blocks ++ [.ofText p.pendingTextId p.nextIndex body]
  ordered : Block.sortByIndex p.allBlocks = p.allBlocks

/- All blocks are the finished ones, or one more of prose. -/
theorem allBlocks_cases (p : Splitter) :
    p.allBlocks = p.blocks ∨
      ∃ body,
        Text.trim body = body ∧
        body.isEmpty = false ∧
        p.allBlocks =
          p.blocks ++
            [.ofText p.pendingTextId p.nextIndex body] := by
  unfold allBlocks
  dsimp only
  split
  · exact .inl rfl
  · next hSome =>
    exact
      .inr
        ⟨_, Text.trim_trim _, Bool.of_not_eq_true hSome, rfl⟩

/- Agreement is soundness while indices do not recur. -/
theorem Formed.sound
    {id : String}
    (hFormed : Formed id p)
    (hFew : p.blocks.length < UInt32.size) :
    Sound id p where
  room := by
    rw [Bool.eq_false_iff, Ne, hFormed.room]
    exact Nat.not_le_of_lt hFew
  nextIndex := by
    rw [hFormed.listed.index, UInt32.toNat_ofNat_of_lt' hFew]
  numbered := by
    intro i b hAt
    have hMade := hFormed.listed.made i b hAt
    have hPlace := (List.getElem?_eq_some_iff.mp hAt).1
    have hIndex : (UInt32.ofNat i).toNat = i :=
      UInt32.toNat_ofNat_of_lt' (Nat.lt_trans hPlace hFew)
    rw [hMade.id_eq, hMade.index_eq, slot, hIndex, hFormed.id]
    exact ⟨rfl, rfl⟩
  distinct := hFormed.listed.nodup (Nat.le_of_lt hFew)
  finished := hFormed.finished
  complete := hFormed.complete
  opening := by
    intro held hMode
    have hHeld := hFormed.held
    rw [hMode] at hHeld
    have hBounds : 1 ≤ held ∧ held < 3 := hHeld
    omega
  closing := by
    intro held hMode
    have hHeld := hFormed.held
    rw [hMode] at hHeld
    exact Nat.le_of_lt_succ hHeld.2
  all := p.allBlocks_cases
  ordered := by
    rcases p.allBlocks_cases with hSame | ⟨body, _, _, hMore⟩
    · rw [hSame]
      exact hFormed.listed.sortByIndex (Nat.le_of_lt hFew)
    · rw [hMore]
      refine
        (hFormed.listed.push
          (hFormed.listed.made_text body)).sortByIndex ?_
      rw [List.length_append, List.length_singleton]
      exact hFew

end Splitter

/-
  However a splitter is used, it is sound, as long as it has
  less blocks than there are indices; and whatever is done to
  it next, only a reset takes blocks away. A splitter that may
  close a fence can be left without a backtick, but just by
  characters for which the fence had no room, and until there
  are others. With registers it is the same splitter, and those
  that its phase does not use are clear.
-/
theorem splitter_stays_sound
    (id : String)
    (limits : Limits)
    (us : List Splitter.Use)
    (hFew :
      ((Splitter.start id limits).uses us).blocks.length <
        UInt32.size) :
    ((Splitter.start id limits).uses us).Sound id ∧
      (∀ u, u ≠ .reset →
        ((Splitter.start id limits).uses us).blocks <+:
          (((Splitter.start id limits).uses us).use
            u).splitter.blocks) ∧
      (((Splitter.start id limits).uses us).mode = .closing 0 →
        ∃ before chunk after,
          us = before ++ .append chunk :: after ∧
          (((Splitter.start id limits).uses before).append
            chunk).value.failure.isSome = true ∧
          ∀ u ∈ after, u = .append "") ∧
      ((Splitter.Machine.start id limits).uses us).splitter =
        (Splitter.start id limits).uses us ∧
      ((Splitter.Machine.start id limits).uses us).Counted := by
  have hFormed := Splitter.formed_uses id limits us
  exact
    ⟨hFormed.sound hFew, fun _ => Splitter.prefix_use hFormed,
      Splitter.overflowed_of_closing,
      Splitter.Machine.uses_agree id limits us⟩

/-
  A fence that had no room behind a backtick, and then takes
  two more of them: it is not left yet.
-/
def crowdedUses : List Splitter.Use :=
  [ .append "See\n\x60\x60\x60json\n1\x60a",
    .append "\x60\x60" ]

/- The prose before it is a sound block. -/
theorem crowdedUses_stay_sound :
    ((Splitter.start "p" ⟨8, 2⟩).uses crowdedUses).Sound "p" :=
  (splitter_stays_sound "p" ⟨8, 2⟩ crowdedUses
    (by decide +kernel)).1

/-
  Where the character behind a backtick has no room, none is
  held back, although the splitter may still close the fence.
-/
theorem overflow_holds_no_backtick :
    ((Splitter.start "p" ⟨8, 2⟩).uses
        (crowdedUses.take 1)).mode = .closing 0 ∧
      ((Splitter.start "p" ⟨8, 2⟩).uses
        (crowdedUses.take 1)).blocks.length < UInt32.size := by
  decide +kernel

end AnswerStream
