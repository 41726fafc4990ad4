import AnswerStream.Proofs.Splitter.Running

/-
  This file proves that a splitter finds the parts of a text:
  it fails on exactly the texts with a fence of JSON that
  outgrows its cap, and from any other it makes the blocks of
  the parts.

  Key definitions include:
    * `Splitter.Agrees`

  Main statements:
    * `Splitter.run_agrees`
    * `splitter_follows_layout`
-/

namespace AnswerStream

open Json
open Layout (Part parts number ticks dropTicksEnd)
open Legacy (splitTicks? splitLine?)

namespace Splitter

------------------------------------------------------------
-- Blocks
------------------------------------------------------------

theorem pendingTextId_eq (p : Splitter) :
    p.pendingTextId =
      p.id ++ ":text:" ++ toString p.nextIndex.toNat :=
  String.toList_injective <| by
    simp [pendingTextId, blockId, BlockKind.name]

theorem pendingStructuredId_eq (p : Splitter) :
    p.pendingStructuredId =
      p.id ++ ":structured:" ++ toString p.nextIndex.toNat :=
  String.toList_injective <| by
    simp [pendingStructuredId, blockId, BlockKind.name]

/- The block of prose, if it has one. -/
theorem block?_of_prose
    (p : Splitter)
    (text : String) :
    (Part.prose text.toList).block? p.id p.nextIndex =
      if (Text.trim text).isEmpty then none
      else
        some (.ofText p.pendingTextId p.nextIndex
          (Text.trim text)) := by
  rw [pendingTextId_eq]
  simp only [Part.block?, String.ofList_toList]

/- The block of the open fence, if it has one. -/
theorem block?_of_fence (p : Splitter) :
    (Part.fence p.json.toList).block? p.id p.nextIndex =
      if (Text.trim p.json).isEmpty then none
      else
        some (.ofStructured p.pendingStructuredId p.nextIndex
          (Json.partialValue? p.json)
          (some (Text.trim p.json))) := by
  rw [pendingStructuredId_eq]
  simp only [Part.block?, String.ofList_toList]

/- The present prose counts as a last part. -/
theorem allBlocks_eq (p : Splitter) :
    p.allBlocks =
      p.blocks ++
        number p.id p.nextIndex
          [.prose p.trailingText.toList] := by
  have hBlock := block?_of_prose p p.trailingText
  unfold allBlocks
  dsimp only
  split
  · next hBlank =>
    rw [if_pos hBlank] at hBlock
    rw [Layout.number_cons_of_none hBlock]
    exact (List.append_nil _).symm
  · next hSome =>
    rw [if_neg hSome] at hBlock
    rw [Layout.number_cons_of_some hBlock]
    rfl

/- Prose that is flushed counts as a part before the others. -/
theorem number_flushText
    (p : Splitter)
    (ps : List Part) :
    p.flushText.blocks ++
        number p.id p.flushText.nextIndex ps =
      p.blocks ++
        number p.id p.nextIndex
          (.prose p.text.toList :: ps) := by
  have hBlock := block?_of_prose p p.text
  unfold flushText
  dsimp only
  split
  · next hBlank =>
    rw [if_pos hBlank] at hBlock
    rw [Layout.number_cons_of_none hBlock]
  · next hSome =>
    rw [if_neg hSome] at hBlock
    rw [Layout.number_cons_of_some hBlock]
    exact List.append_assoc _ _ _

/- A fence that is closed counts as a part before the others. -/
theorem number_closeFence
    (p : Splitter)
    (ps : List Part) :
    p.closeFence.blocks ++
        number p.id p.closeFence.nextIndex ps =
      p.blocks ++
        number p.id p.nextIndex
          (.fence p.json.toList :: ps) := by
  have hBlock := block?_of_fence p
  unfold closeFence
  rw [finishJson_value]
  split
  · next hBlank =>
    rw [if_pos hBlank] at hBlock
    rw [Layout.number_cons_of_none hBlock]
  · next hSome =>
    rw [if_neg hSome] at hBlock
    rw [Layout.number_cons_of_some hBlock]
    exact List.append_assoc _ _ _

------------------------------------------------------------
-- Agreement
------------------------------------------------------------

/-
  What becomes of a splitter agrees with parts: it fails if one
  of them outgrows the cap, and otherwise it has made their
  blocks behind those it had.
-/
structure Agrees
    (p : Splitter)
    (ps : List Part)
    (r : Result) : Prop where
  overflow :
    (∃ part ∈ ps, p.limits.structured < part.fenceBytes) →
      r.failure = some ⟨p.limits.structured⟩
  blocks :
    (∀ part ∈ ps, part.fenceBytes ≤ p.limits.structured) →
      r.failure = none ∧
        r.splitter.allBlocks =
          p.blocks ++ number p.id p.nextIndex ps

namespace Agrees

variable {p q : Splitter} {ps : List Part} {r : Result}

/- Only the blocks, and how they are made, matter. -/
theorem of_same
    (hAgrees : Agrees q ps r)
    (hId : q.id = p.id)
    (hLimits : q.limits = p.limits)
    (hBlocks : q.blocks = p.blocks)
    (hIndex : q.nextIndex = p.nextIndex) :
    Agrees p ps r := by
  constructor
  · rw [← hLimits]
    exact hAgrees.overflow
  · rw [← hLimits, ← hId, ← hBlocks, ← hIndex]
    exact hAgrees.blocks

/- A splitter that ends in prose agrees with that prose. -/
theorem of_end
    {text : List Char}
    (hId : q.id = p.id)
    (hBlocks : q.blocks = p.blocks)
    (hIndex : q.nextIndex = p.nextIndex)
    (hText : q.trailingText.toList = text) :
    Agrees p [.prose text] (.ok q) := by
  constructor
  · intro hFull
    rcases hFull with ⟨part, hPart, hBytes⟩
    rw [List.mem_singleton.mp hPart] at hBytes
    exact absurd hBytes (Nat.not_lt_zero _)
  · intro _
    refine ⟨rfl, ?_⟩
    rw [← hBlocks, ← hId, ← hIndex, ← hText]
    exact allBlocks_eq q

/- The prose before a fence agrees with a part of its own. -/
theorem prose_cons
    (hRest : Agrees p.flushText ps r) :
    Agrees p (.prose p.text.toList :: ps) r := by
  constructor
  · intro hFull
    rcases hFull with ⟨part, hPart, hBytes⟩
    rcases List.mem_cons.mp hPart with hHere | hLater
    · rw [hHere] at hBytes
      exact absurd hBytes (Nat.not_lt_zero _)
    · rw [← flushText_limits] at hBytes ⊢
      exact hRest.overflow ⟨part, hLater, hBytes⟩
  · intro hFit
    rw [← number_flushText, ← flushText_id]
    apply hRest.blocks
    intro part hPart
    rw [flushText_limits]
    exact hFit part (List.mem_cons_of_mem _ hPart)

/- A closed fence within its cap agrees with its inside. -/
theorem fence_cons
    (hFits : p.json.utf8ByteSize ≤ p.limits.structured)
    (hRest : Agrees p.closeFence ps r) :
    Agrees p (.fence p.json.toList :: ps) r := by
  constructor
  · intro hFull
    rcases hFull with ⟨part, hPart, hBytes⟩
    rcases List.mem_cons.mp hPart with hHere | hLater
    · rw [hHere, Part.fenceBytes, byteCount_toList] at hBytes
      omega
    · rw [← closeFence_limits] at hBytes ⊢
      exact hRest.overflow ⟨part, hLater, hBytes⟩
  · intro hFit
    rw [← number_closeFence, ← closeFence_id]
    apply hRest.blocks
    intro part hPart
    rw [closeFence_limits]
    exact hFit part (List.mem_cons_of_mem _ hPart)

/- A failure agrees with a part that outgrows the cap. -/
theorem of_full
    {part : Part}
    (hPart : part ∈ ps)
    (hBytes : p.limits.structured < part.fenceBytes)
    (hFailure : r.failure = some ⟨p.limits.structured⟩) :
    Agrees p ps r := by
  constructor
  · intro _
    exact hFailure
  · intro hFit
    have hSmall := hFit part hPart
    omega

end Agrees

------------------------------------------------------------
-- Fences of JSON
------------------------------------------------------------

/- A splitter before the inside of a fence of JSON. -/
structure InFence (p : Splitter) : Prop where
  mode : p.mode = .json
  json : p.json = ""
  text : p.text = ""

namespace InFence

variable {p : Splitter} {body interior rest : List Char}

/- A fence without a mark is read to the end, if it has room. -/
theorem run_unmarked
    (hIn : InFence p)
    (hClose : splitTicks? body = none) :
    if p.limits.structured < byteCount (dropTicksEnd body) then
      (p.run body).failure = some ⟨p.limits.structured⟩
    else
      ∃ later json,
        p.run body =
          .ok { p with json := json, mode := jsonMode later } := by
  have hEmpty : p.json.utf8ByteSize = 0 := by
    rw [hIn.json]
    rfl
  have hRun :=
    run_json p body (Nat.zero_lt_succ 2) hIn.mode
      (by rw [hEmpty]; exact Nat.zero_le _)
  rw [Layout.ticks_zero, List.nil_append, hClose, hEmpty,
    Nat.zero_add] at hRun
  exact hRun

/- A fence is read up to its mark and closed, if it has room. -/
theorem run_marked
    (hIn : InFence p)
    (hClose : splitTicks? body = some (interior, rest)) :
    if p.limits.structured < byteCount interior then
      (p.run body).failure = some ⟨p.limits.structured⟩
    else
      p.run body =
        run
          (closeFence { p with json := String.ofList interior })
          rest := by
  have hRun :=
    run_json p body (Nat.zero_lt_succ 2) hIn.mode
      (by rw [hIn.json]; exact Nat.zero_le _)
  rw [Layout.ticks_zero, List.nil_append, hClose] at hRun
  rw [hIn.json] at hRun
  dsimp only at hRun
  rw [String.empty_append, String.utf8ByteSize_empty,
    Nat.zero_add] at hRun
  exact hRun

/- An open fence does not have a block. -/
theorem run_open
    (hIn : InFence p)
    (hClose : splitTicks? body = none) :
    Agrees p [.openFence (dropTicksEnd body)]
      (p.run body) := by
  have hRun := hIn.run_unmarked hClose
  split at hRun
  · next hFull =>
    exact .of_full (List.mem_singleton_self _) hFull hRun
  · next hFits =>
    rcases hRun with ⟨later, json, hRun⟩
    let q : Splitter :=
      { p with json := json, mode := jsonMode later }
    have hText : q.trailingText = "" := by
      rw [trailingText_jsonMode rfl]
      exact hIn.text
    constructor
    · intro hFull
      rcases hFull with ⟨part, hPart, hBytes⟩
      rw [List.mem_singleton.mp hPart] at hBytes
      exact absurd hBytes hFits
    · intro _
      rw [hRun]
      refine ⟨rfl, ?_⟩
      have hBlocks := allBlocks_eq q
      rw [hText] at hBlocks
      exact hBlocks

/- A closed fence is followed by further parts. -/
theorem run_closed
    {ps : List Part}
    (hIn : InFence p)
    (hClose : splitTicks? body = some (interior, rest))
    (hRest :
      let closed :=
        closeFence { p with json := String.ofList interior }
      Agrees closed ps (closed.run rest)) :
    Agrees p (.fence interior :: ps) (p.run body) := by
  have hRun := hIn.run_marked hClose
  split at hRun
  · next hFull => exact .of_full List.mem_cons_self hFull hRun
  · next hFits =>
    let q : Splitter := { p with json := String.ofList interior }
    have hSize : q.json.utf8ByteSize ≤ q.limits.structured := by
      change
        (String.ofList interior).utf8ByteSize ≤
          p.limits.structured
      rw [utf8ByteSize_ofList]
      exact Nat.le_of_not_lt hFits
    have hAgrees := Agrees.fence_cons hSize hRest
    have hInterior : q.json.toList = interior :=
      String.toList_ofList
    rw [hInterior] at hAgrees
    rw [hRun]
    exact hAgrees.of_same rfl rfl rfl rfl

end InFence

------------------------------------------------------------
-- Runs
------------------------------------------------------------

theorem openJson_inFence (p : Splitter) :
    InFence p.openJson :=
  ⟨rfl, rfl, rfl⟩

/- Prose is followed by the parts from a fence of JSON on. -/
theorem Agrees.of_openJson
    {p : Splitter}
    {ps : List Part}
    {r : Result}
    (hRest : Agrees p.openJson ps r) :
    Agrees p (.prose p.text.toList :: ps) r := by
  have hFlushed : Agrees p.flushText ps r := by
    apply hRest.of_same
    all_goals
      dsimp only [openJson]
  exact hFlushed.prose_cons

/- The splitter with more prose behind what it had. -/
def withProse
    (p : Splitter)
    (prose : List Char) : Splitter :=
  { p with text := p.text ++ String.ofList prose }

theorem toList_withProse
    (p : Splitter)
    (prose : List Char) :
    (p.withProse prose).text.toList =
      p.text.toList ++ prose := by
  simp [withProse]

section ToMarks

variable {p : Splitter} {cs prose line tag body : List Char}

/- Prose without a mark stays what it is. -/
theorem run_to_end
    (hMode : p.mode = .prose)
    (hFits :
      p.text.utf8ByteSize + byteCount cs ≤ p.limits.text)
    (hOpen : splitTicks? cs = none) :
    ∃ later text,
      text.toList ++ ticks later = p.text.toList ++ cs ∧
      p.run cs =
        .ok { p with text := text, mode := proseMode later } := by
  have hRun := run_prose p cs (Nat.zero_lt_succ 2) hMode hFits
  rw [Layout.ticks_zero, List.nil_append, hOpen] at hRun
  rcases hRun with ⟨later, text, _, hText, hRun⟩
  exact ⟨later, text, hText, hRun⟩

/- A mark in prose is followed by a tag. -/
theorem run_to_tag
    (hMode : p.mode = .prose)
    (hFits :
      p.text.utf8ByteSize + byteCount cs ≤ p.limits.text)
    (hOpen : splitTicks? cs = some (prose, line)) :
    p.run cs =
      run { p.withProse prose with mode := .tag "" } line := by
  have hRun := run_prose p cs (Nat.zero_lt_succ 2) hMode hFits
  rw [Layout.ticks_zero, List.nil_append, hOpen] at hRun
  exact hRun

/- A tag is followed by the inside of its fence. -/
theorem run_to_body
    (hMode : p.mode = .prose)
    (hFits :
      p.text.utf8ByteSize + byteCount cs ≤ p.limits.text)
    (hOpen : splitTicks? cs = some (prose, line))
    (hTag : splitLine? line = some (tag, body)) :
    p.run cs =
      run ((p.withProse prose).openFence
        (String.ofList tag)).value body := by
  have hRun :=
    run_tag { p.withProse prose with mode := .tag "" } line rfl
  rw [hTag] at hRun
  dsimp only at hRun
  rw [openFence_mode, String.empty_append] at hRun
  rw [run_to_tag hMode hFits hOpen, hRun]

end ToMarks

/- What is between and behind the marks has room as well. -/
theorem byteCount_of_marks
    {cs prose line tag body interior rest : List Char}
    (hOpen : splitTicks? cs = some (prose, line))
    (hTag : splitLine? line = some (tag, body))
    (hClose : splitTicks? body = some (interior, rest)) :
    byteCount prose + byteCount interior + byteCount rest ≤
      byteCount cs := by
  rw [Layout.eq_of_splitTicks? hOpen,
    Layout.eq_of_splitLine? hTag,
    Layout.eq_of_splitTicks? hClose]
  simp only [byteCount_append, byteCount_cons]
  omega

section BehindMarks

variable {p : Splitter}
  {cs prose line tag body interior rest : List Char}

/- Prose goes on behind a fence that is left out. -/
theorem room_behind_other
    (hFits :
      p.text.utf8ByteSize + byteCount cs ≤ p.limits.text)
    (hOpen : splitTicks? cs = some (prose, line))
    (hTag : splitLine? line = some (tag, body))
    (hClose : splitTicks? body = some (interior, rest)) :
    (p.withProse prose).text.utf8ByteSize + byteCount rest ≤
      p.limits.text := by
  have hBytes := byteCount_of_marks hOpen hTag hClose
  unfold withProse
  rw [String.utf8ByteSize_append, utf8ByteSize_ofList]
  omega

/- The splitter behind a fence of JSON with the given inside. -/
def behindFence
    (p : Splitter)
    (interior : List Char) : Splitter :=
  closeFence { p.openJson with json := String.ofList interior }

theorem behindFence_mode
    (p : Splitter)
    (interior : List Char) :
    (p.behindFence interior).mode = .prose :=
  rfl

theorem behindFence_limits
    (p : Splitter)
    (interior : List Char) :
    (p.behindFence interior).limits = p.limits := by
  unfold behindFence
  rw [closeFence_limits]
  dsimp only
  exact openJson_limits p

theorem behindFence_text
    (p : Splitter)
    (interior : List Char) :
    (p.behindFence interior).text = "" := by
  unfold behindFence
  rw [closeFence_text]
  exact p.openJson_inFence.text

/- Prose begins again behind a fence of JSON. -/
theorem room_behind_fence
    (hFits :
      p.text.utf8ByteSize + byteCount cs ≤ p.limits.text)
    (hOpen : splitTicks? cs = some (prose, line))
    (hTag : splitLine? line = some (tag, body))
    (hClose : splitTicks? body = some (interior, rest)) :
    ((p.withProse prose).behindFence interior).text.utf8ByteSize +
        byteCount rest ≤
      ((p.withProse prose).behindFence interior).limits.text := by
  have hBytes := byteCount_of_marks hOpen hTag hClose
  have hLimits : (p.withProse prose).limits = p.limits := rfl
  rw [behindFence_text, behindFence_limits, hLimits,
    String.utf8ByteSize_empty]
  omega

end BehindMarks

/-
  A splitter in prose agrees with the parts of what it had and
  of what it reads.
-/
theorem run_agrees
    (p : Splitter)
    (cs : List Char)
    (hMode : p.mode = .prose)
    (hFits :
      p.text.utf8ByteSize + byteCount cs ≤ p.limits.text) :
    Agrees p (parts p.text.toList cs) (p.run cs) := by
  generalize hBefore : p.text.toList = before
  fun_induction parts before cs generalizing p with
  | case1 before cs hOpen =>
      rcases run_to_end hMode hFits hOpen with
        ⟨later, text, hText, hRun⟩
      let q : Splitter :=
        { p with text := text, mode := proseMode later }
      have hTrailing : q.trailingText.toList = before ++ cs := by
        rw [trailingText_proseMode rfl, hText, hBefore]
      rw [hRun]
      exact Agrees.of_end rfl rfl rfl hTrailing
  | case2 before cs prose line hOpen hTag =>
      have hRun :=
        run_tag { p.withProse prose with mode := .tag "" } line
          rfl
      rw [hTag] at hRun
      rw [run_to_tag hMode hFits hOpen, hRun, ← hBefore,
        ← toList_withProse]
      exact Agrees.of_end rfl rfl rfl rfl
  | case3 before cs prose line hOpen tag body hTag hClose hJson =>
      let q := p.withProse prose
      have hRest := q.openJson_inFence.run_open hClose
      rw [run_to_body hMode hFits hOpen hTag, openFence_value,
        String.toList_ofList, if_pos hJson, ← hBefore,
        ← toList_withProse]
      exact hRest.of_openJson.of_same rfl rfl rfl rfl
  | case4 before cs prose line hOpen tag body hTag hClose hOther =>
      let q : Splitter := { p.withProse prose with mode := .other 0 }
      have hRun := run_other q body (Nat.zero_lt_succ 2) rfl
      rw [Layout.ticks_zero, List.nil_append, hClose] at hRun
      rcases hRun with ⟨later, hRun⟩
      rw [run_to_body hMode hFits hOpen hTag, openFence_value,
        String.toList_ofList, if_neg hOther, hRun, ← hBefore,
        ← toList_withProse]
      exact Agrees.of_end rfl rfl rfl rfl
  | case5 before cs prose line hOpen tag body hTag interior rest
      hClose hJson ih =>
      have hRoom := room_behind_fence hFits hOpen hTag hClose
      generalize hBegun : p.withProse prose = q at hRoom
      have hText : (q.behindFence interior).text.toList = [] := by
        rw [behindFence_text, String.toList_empty]
      have hClosed :=
        ih (q.behindFence interior) (q.behindFence_mode interior)
          hRoom hText
      have hRest :=
        q.openJson_inFence.run_closed hClose hClosed
      subst hBegun
      rw [run_to_body hMode hFits hOpen hTag, openFence_value,
        String.toList_ofList, if_pos hJson, ← hBefore,
        ← toList_withProse]
      exact hRest.of_openJson.of_same rfl rfl rfl rfl
  | case6 before cs prose line hOpen tag body hTag interior rest
      hClose hOther ih =>
      let q : Splitter := { p.withProse prose with mode := .other 0 }
      have hRun := run_other q body (Nat.zero_lt_succ 2) rfl
      rw [Layout.ticks_zero, List.nil_append, hClose] at hRun
      rw [run_to_body hMode hFits hOpen hTag, openFence_value,
        String.toList_ofList, if_neg hOther, hRun]
      have hRest :=
        ih { p.withProse prose with mode := .prose } rfl
          (room_behind_other hFits hOpen hTag hClose)
          (by rw [← hBefore]; exact toList_withProse p prose)
      exact ⟨hRest.overflow, hRest.blocks⟩

end Splitter

------------------------------------------------------------
-- Whole Texts
------------------------------------------------------------

/-
  The splitter of a text that fits its buffer of prose fails
  exactly if a fence of JSON of the text outgrows its cap, for
  that cap; otherwise its blocks are those of the parts of the
  text.
-/
theorem splitter_follows_layout
    (id : String)
    (limits : Limits)
    (text : String)
    (hRoom : text.utf8ByteSize ≤ limits.text) :
    let done := ((Splitter.start id limits).append text).value
    let ps := Layout.ofText text
    (done.failure.isSome = true ↔
      ∃ part ∈ ps, limits.structured < part.fenceBytes) ∧
    (∀ cause, done.failure = some cause →
      cause = ⟨limits.structured⟩) ∧
    (done.failure = none →
      done.splitter.allBlocks = Layout.blocks id ps) := by
  intro done ps
  let p := Splitter.start id limits
  have hFits :
      p.text.utf8ByteSize + byteCount text.toList ≤
        p.limits.text := by
    rw [byteCount_toList]
    change 0 + text.utf8ByteSize ≤ limits.text
    omega
  have hAgrees : Splitter.Agrees p ps done :=
    Splitter.run_agrees p text.toList rfl hFits
  by_cases hFull :
      ∃ part ∈ ps, limits.structured < part.fenceBytes
  · have hFailure := hAgrees.overflow hFull
    refine ⟨?_, ?_, ?_⟩
    · rw [hFailure]
      constructor
      · intro _
        exact hFull
      · intro _
        rfl
    · intro cause hCause
      rw [hFailure] at hCause
      exact (Option.some.inj hCause).symm
    · intro hNone
      rw [hFailure] at hNone
      cases hNone
  · have hFit :
        ∀ part ∈ ps, part.fenceBytes ≤ limits.structured := by
      intro part hPart
      exact Nat.le_of_not_lt fun hBytes =>
        hFull ⟨part, hPart, hBytes⟩
    rcases hAgrees.blocks hFit with ⟨hFailure, hBlocks⟩
    refine ⟨?_, ?_, ?_⟩
    · rw [hFailure]
      constructor
      · intro hSome
        cases hSome
      · intro hSome
        exact absurd hSome hFull
    · intro cause hCause
      rw [hFailure] at hCause
      cases hCause
    · intro _
      exact hBlocks

/- An answer with prose around a fence of JSON. -/
def fencedAnswer : String :=
  "See\n\x60\x60\x60json\n[1]\n\x60\x60\x60\nbelow"

/- Its fence fits the cap, and so its blocks are its parts. -/
theorem fencedAnswer_follows_layout :
    fencedAnswer.utf8ByteSize ≤ 64 ∧
    ((Splitter.start "m" ⟨64, 8⟩).append
      fencedAnswer).value.failure = none ∧
    ((Splitter.start "m" ⟨64, 8⟩).append
      fencedAnswer).value.splitter.allBlocks =
        Layout.blocks "m" (Layout.ofText fencedAnswer) := by
  have hRoom : fencedAnswer.utf8ByteSize ≤ 64 := by decide
  have hFailure :
      ((Splitter.start "m" ⟨64, 8⟩).append
        fencedAnswer).value.failure = none := by
    decide +kernel
  have hFollows :=
    splitter_follows_layout "m" ⟨64, 8⟩ fencedAnswer hRoom
  exact ⟨hRoom, hFailure, hFollows.2.2 hFailure⟩

end AnswerStream
