import AnswerStream.Proofs.Splitter.Agreement
import AnswerStream.Proofs.Splitter.Moves

/-
  This file proves that a splitter that stands in prose behind a
  text has seen all fences of the text closed, and that it does
  not fail on a text that fits the cap of a fence.

  Key definitions include:
    * `Layout.Closed`
    * `Splitter.Mode.isProse`

  Main statements:
    * `Layout.fenceBytes_le`
    * `Splitter.closed_of_run`
    * `Splitter.append_of_fits`
-/

namespace AnswerStream

open Layout (parts)
open Legacy (splitTicks? splitLine?)

/- A text of which all fences are closed. -/
inductive Layout.Closed : List Char → Prop where
| prose
    {cs : List Char}
    (hOpen : splitTicks? cs = none) :
    Closed cs
| fence
    {cs prose line tag body interior rest : List Char}
    (hOpen : splitTicks? cs = some (prose, line))
    (hTag : splitLine? line = some (tag, body))
    (hClose : splitTicks? body = some (interior, rest))
    (hRest : Closed rest) :
    Closed cs

------------------------------------------------------------
-- Parts of a Text
------------------------------------------------------------

namespace Layout

section Parts

variable {cs prose line tag body interior rest : List Char}

/- Text without a mark is one part. -/
theorem parts_of_none
    (before : List Char)
    (hOpen : splitTicks? cs = none) :
    parts before cs = [.prose (before ++ cs)] := by
  unfold parts
  split
  · rfl
  · next hFound =>
    rw [hOpen] at hFound
    cases hFound

/- The parts around a closed fence. -/
theorem parts_of_fence
    (before : List Char)
    (hOpen : splitTicks? cs = some (prose, line))
    (hTag : splitLine? line = some (tag, body))
    (hClose : splitTicks? body = some (interior, rest)) :
    parts before cs =
      if isJsonTag tag then
        .prose (before ++ prose) ::
          .fence interior :: parts [] rest
      else
        parts (before ++ prose) rest := by
  rw [parts]
  split
  · next hFound =>
    rw [hOpen] at hFound
    cases hFound
  · next hFound =>
    rw [hOpen] at hFound
    cases hFound
    split
    · next hFound =>
      rw [hTag] at hFound
      cases hFound
    · next hFound =>
      rw [hTag] at hFound
      cases hFound
      split
      · next hFound =>
        rw [hClose] at hFound
        cases hFound
      · next hFound =>
        rw [hClose] at hFound
        cases hFound
        rfl

end Parts

theorem byteCount_dropTicksEnd_le (cs : List Char) :
    byteCount (dropTicksEnd cs) ≤ byteCount cs := by
  have hPrefix : dropTicksEnd cs <+: cs :=
    List.rdropWhile_prefix _ cs
  rcases hPrefix with ⟨dropped, hAll⟩
  have hBytes := congrArg byteCount hAll
  rw [byteCount_append] at hBytes
  omega

/- No fence has more bytes than the text. -/
theorem fenceBytes_le
    (before cs : List Char) :
    ∀ part ∈ parts before cs, part.fenceBytes ≤ byteCount cs := by
  fun_induction parts before cs with
  | case1 before cs hOpen => simp [Part.fenceBytes]
  | case2 before cs prose line hOpen hTag =>
      simp [Part.fenceBytes]
  | case3 before cs prose line hOpen tag body hTag hClose hJson =>
      have hDropped := byteCount_dropTicksEnd_le body
      have hBytes : byteCount body ≤ byteCount cs := by
        rw [eq_of_splitTicks? hOpen, eq_of_splitLine? hTag]
        simp only [byteCount_append, byteCount_cons]
        omega
      simp [Part.fenceBytes, Nat.le_trans hDropped hBytes]
  | case4 before cs prose line hOpen tag body hTag hClose hOther =>
      simp [Part.fenceBytes]
  | case5 before cs prose line hOpen tag body hTag interior rest
      hClose hJson ih =>
      have hBytes :=
        Splitter.byteCount_of_marks hOpen hTag hClose
      intro part hPart
      rcases List.mem_cons.mp hPart with rfl | hPart
      · exact Nat.zero_le _
      · rcases List.mem_cons.mp hPart with rfl | hPart
        · change byteCount interior ≤ byteCount cs
          omega
        · have hLater := ih part hPart
          omega
  | case6 before cs prose line hOpen tag body hTag interior rest
      hClose hOther ih =>
      have hBytes :=
        Splitter.byteCount_of_marks hOpen hTag hClose
      intro part hPart
      have hLater := ih part hPart
      omega

end Layout

------------------------------------------------------------
-- Splitters in Prose
------------------------------------------------------------

namespace Splitter

/- A mode of prose, perhaps with backticks held back. -/
def Mode.isProse : Mode → Bool
  | .prose | .opening _ => true
  | _ => false

/-
  A splitter in prose that stands in prose again has passed
  closed fences only.
-/
theorem closed_of_run
    {p q : Splitter}
    {cs : List Char}
    (hMode : p.mode = .prose)
    (hFits :
      p.text.utf8ByteSize + byteCount cs ≤ p.limits.text)
    (hRun : p.run cs = .ok q)
    (hEnd : q.mode.isProse = true) :
    Layout.Closed cs := by
  -- The prose before the text is only for the induction.
  generalize ([] : List Char) = before
  fun_induction parts before cs generalizing p with
  | case1 before cs hOpen => exact .prose hOpen
  | case2 before cs prose line hOpen hTag =>
      have hTagged :=
        run_tag { p.withProse prose with mode := .tag "" } line
          rfl
      rw [hTag] at hTagged
      rw [run_to_tag hMode hFits hOpen, hTagged] at hRun
      rw [← Result.ok_inj hRun] at hEnd
      cases hEnd
  | case3 before cs prose line hOpen tag body hTag hClose hJson =>
      have hLeft :=
        (openJson_inFence (p.withProse prose)).run_unmarked
          hClose
      rw [run_to_body hMode hFits hOpen hTag, openFence_value,
        String.toList_ofList, if_pos hJson] at hRun
      rw [hRun] at hLeft
      split at hLeft
      · cases hLeft
      · rcases hLeft with ⟨later, json, hLeft⟩
        rw [Result.ok_inj hLeft] at hEnd
        cases later <;> cases hEnd
  | case4 before cs prose line hOpen tag body hTag hClose hOther =>
      let r : Splitter := { p.withProse prose with mode := .other 0 }
      have hLeft := run_other r body (Nat.zero_lt_succ 2) rfl
      rw [Layout.ticks_zero, List.nil_append, hClose] at hLeft
      rcases hLeft with ⟨later, hLeft⟩
      rw [run_to_body hMode hFits hOpen hTag, openFence_value,
        String.toList_ofList, if_neg hOther, hLeft] at hRun
      rw [← Result.ok_inj hRun] at hEnd
      cases hEnd
  | case5 before cs prose line hOpen tag body hTag interior rest
      hClose hJson ih =>
      have hLeft :=
        (openJson_inFence (p.withProse prose)).run_marked hClose
      have hRoom := room_behind_fence hFits hOpen hTag hClose
      rw [run_to_body hMode hFits hOpen hTag, openFence_value,
        String.toList_ofList, if_pos hJson] at hRun
      rw [hRun] at hLeft
      split at hLeft
      · cases hLeft
      · have hRest := ih (behindFence_mode _ _) hRoom hLeft.symm
        exact .fence hOpen hTag hClose hRest
  | case6 before cs prose line hOpen tag body hTag interior rest
      hClose hOther ih =>
      let r : Splitter := { p.withProse prose with mode := .other 0 }
      have hLeft := run_other r body (Nat.zero_lt_succ 2) rfl
      rw [Layout.ticks_zero, List.nil_append, hClose] at hLeft
      rw [run_to_body hMode hFits hOpen hTag, openFence_value,
        String.toList_ofList, if_neg hOther, hLeft] at hRun
      have hRoom := room_behind_other hFits hOpen hTag hClose
      have hRest :=
        ih (p := { p.withProse prose with mode := .prose }) rfl
          hRoom hRun
      exact .fence hOpen hTag hClose hRest

------------------------------------------------------------
-- Whole Texts
------------------------------------------------------------

variable {limits : Limits} {text : String}

theorem start_fits
    (id : String)
    (hText : text.utf8ByteSize ≤ limits.text) :
    (start id limits).text.utf8ByteSize +
        byteCount text.toList ≤
      (start id limits).limits.text := by
  have hEmpty : (start id limits).text.utf8ByteSize = 0 := rfl
  rw [byteCount_toList, hEmpty, Nat.zero_add]
  exact hText

/- A text that fits the cap of a fence does not fail. -/
theorem append_of_fits
    (id : String)
    (hText : text.utf8ByteSize ≤ limits.text)
    (hStructured : text.utf8ByteSize ≤ limits.structured) :
    let done := ((start id limits).append text).value
    done.failure = none ∧
      done.splitter.allBlocks =
        Layout.blocks id (Layout.ofText text) := by
  have hAgrees :=
    (start id limits).run_agrees text.toList rfl
      (start_fits id hText)
  apply hAgrees.blocks
  intro part hPart
  have hBytes := Layout.fenceBytes_le _ _ part hPart
  rw [byteCount_toList] at hBytes
  exact Nat.le_trans hBytes hStructured

/- A splitter that ends in prose has seen all fences closed. -/
theorem closed_of_append
    (id : String)
    (hText : text.utf8ByteSize ≤ limits.text)
    (hFailure :
      ((start id limits).append text).value.failure = none)
    (hEnd :
      ((start id limits).append
        text).value.splitter.mode.isProse = true) :
    Layout.Closed text.toList := by
  have hRun :
      (start id limits).run text.toList =
        .ok ((start id limits).append text).value.splitter := by
    unfold Result.ok
    rw [← hFailure]
    rfl
  exact closed_of_run rfl (start_fits id hText) hRun hEnd

end Splitter

end AnswerStream
