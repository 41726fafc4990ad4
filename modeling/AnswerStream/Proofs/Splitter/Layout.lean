import AnswerStream.History.Legacy
import AnswerStream.Proofs.Text.Trimming
import AnswerStream.Splitter.Basic

/-
  This file defines the layout of a text, without a machine:
  the first three backticks open a fence, the rest of their
  line is its tag, and the next three backticks close it. A
  fence of JSON separates the prose before it from the prose
  behind it, any other fence is taken out of the prose.

  Key definitions include:
    * `Layout.Part`
    * `Layout.parts`
    * `Layout.number`

  How the marks of a text are found is stated by:
    * `Layout.eq_of_splitTicks?`
    * `Layout.splitTicks?_first`
    * `Layout.mark_induction`
-/

namespace AnswerStream

open Json
open Legacy (splitTicks? splitLine?)

namespace Layout

------------------------------------------------------------
-- Parts of a Text
------------------------------------------------------------

/-
  A part of a text: the prose between two fences of JSON, the
  inside of a closed fence of JSON, or that of one that is
  still open.
-/
inductive Part where
| prose (cs : List Char)
| fence (interior : List Char)
| openFence (interior : List Char)
deriving DecidableEq, Repr

/- A tag opens a fence of JSON. -/
def isJsonTag (tag : List Char) : Bool :=
  Text.lower (Text.trim (String.ofList tag)) == "json"

/- Characters without the backticks behind. -/
def dropTicksEnd (cs : List Char) : List Char :=
  cs.rdropWhile (· == Splitter.tick)

/-
  The parts of a text, behind prose that was read before. An
  unfinished tag, and a fence that is no JSON, do not belong to
  the prose; backticks at the end of an open fence may still
  close it.
-/
def parts
    (before cs : List Char) : List Part :=
  match _hOpen : splitTicks? cs with
  | none => [.prose (before ++ cs)]
  | some (prose, line) =>
      match _hTag : splitLine? line with
      | none => [.prose (before ++ prose)]
      | some (tag, body) =>
          match _hClose : splitTicks? body with
          | none =>
              if isJsonTag tag then
                [ .prose (before ++ prose),
                  .openFence (dropTicksEnd body) ]
              else
                [.prose (before ++ prose)]
          | some (interior, rest) =>
              if isJsonTag tag then
                .prose (before ++ prose) ::
                  .fence interior :: parts [] rest
              else
                parts (before ++ prose) rest
termination_by cs.length
decreasing_by
  all_goals
    have hFirst := Legacy.length_of_splitTicks? _hOpen
    have hSecond := Legacy.length_of_splitLine? _hTag
    have hThird := Legacy.length_of_splitTicks? _hClose
    omega

/- The parts of a whole text. -/
def ofText (s : String) : List Part :=
  parts [] s.toList

------------------------------------------------------------
-- Blocks of the Parts
------------------------------------------------------------

namespace Part

/- The bytes that a part takes in the buffer of a fence. -/
def fenceBytes : Part → Nat
  | .prose _ => 0
  | .fence interior => byteCount interior
  | .openFence interior => byteCount interior

/-
  The block of a part, at the given index, if it has one: prose
  and closed fences have one unless they are blank.
-/
def block?
    (id : String)
    (index : UInt32) : Part → Option Block
  | .prose cs =>
      let text := Text.trim (String.ofList cs)
      if text.isEmpty then none
      else
        some (.ofText (id ++ ":text:" ++ toString index.toNat)
          index text)
  | .fence interior =>
      let source := Text.trim (String.ofList interior)
      if source.isEmpty then none
      else
        some (.ofStructured
          (id ++ ":structured:" ++ toString index.toNat) index
          (partialValue? (String.ofList interior)) (some source))
  | .openFence _ => none

end Part

/- The blocks of parts, numbered from the given index on. -/
def number
    (id : String)
    (index : UInt32) : List Part → List Block
  | [] => []
  | part :: rest =>
      match part.block? id index with
      | none => number id index rest
      | some b => b :: number id (index + 1) rest

/- A part without a block does not take an index. -/
theorem number_cons_of_none
    {id : String}
    {index : UInt32}
    {part : Part}
    (hBlock : part.block? id index = none)
    (rest : List Part) :
    number id index (part :: rest) = number id index rest := by
  rw [number, hBlock]

theorem number_cons_of_some
    {id : String}
    {index : UInt32}
    {part : Part}
    {b : Block}
    (hBlock : part.block? id index = some b)
    (rest : List Part) :
    number id index (part :: rest) =
      b :: number id (index + 1) rest := by
  rw [number, hBlock]

/- The blocks of the parts of a text. -/
def blocks
    (id : String)
    (ps : List Part) : List Block :=
  number id 0 ps

------------------------------------------------------------
-- Searching for Marks
------------------------------------------------------------

/- Backticks that are held back. -/
def ticks (held : Nat) : List Char :=
  List.replicate held Splitter.tick

@[simp] theorem ticks_zero : ticks 0 = [] :=
  rfl

theorem ticks_succ (held : Nat) :
    ticks (held + 1) = ticks held ++ [Splitter.tick] :=
  List.replicate_succ'

/- One more backtick is held back. -/
theorem ticks_append_tick
    (held : Nat)
    (cs : List Char) :
    ticks held ++ Splitter.tick :: cs =
      ticks (held + 1) ++ cs := by
  rw [ticks_succ]
  simp

/- A mark divides characters into those before and behind it. -/
theorem eq_of_splitTicks?
    {cs before rest : List Char}
    (hSplit : splitTicks? cs = some (before, rest)) :
    cs = before ++ ticks 3 ++ rest := by
  induction cs generalizing before with
  | nil => cases hSplit
  | cons c cs ih =>
      rw [splitTicks?] at hSplit
      split at hSplit
      · next hMark =>
        cases hSplit
        have hTwo : cs = cs.take 2 ++ cs.drop 2 :=
          (List.take_append_drop 2 cs).symm
        rw [hMark.2] at hTwo
        rw [hMark.1]
        exact congrArg (List.cons _) hTwo
      · rw [Option.map_eq_some_iff] at hSplit
        rcases hSplit with ⟨found, hFound, hPair⟩
        cases hPair
        exact congrArg (List.cons c) (ih hFound)

/- The mark that is found is the first one. -/
theorem splitTicks?_first
    (before rest : List Char) :
    ∃ first behind,
      splitTicks? (before ++ ticks 3 ++ rest) =
        some (first, behind) ∧
      first.length ≤ before.length := by
  induction before with
  | nil => exact ⟨[], rest, rfl, Nat.le_refl _⟩
  | cons c before ih =>
      rcases ih with ⟨first, behind, hFound, hLength⟩
      rw [List.cons_append, List.cons_append, splitTicks?]
      split
      · exact ⟨_, _, rfl, Nat.zero_le _⟩
      · refine ⟨c :: first, behind, ?_, ?_⟩
        · rw [hFound]
          rfl
        · exact Nat.succ_le_succ hLength

/- The line break divides a line from what is behind it. -/
theorem eq_of_splitLine?
    {cs line rest : List Char}
    (hSplit : splitLine? cs = some (line, rest)) :
    cs = line ++ '\n' :: rest := by
  induction cs generalizing line with
  | nil => cases hSplit
  | cons c cs ih =>
      rw [splitLine?] at hSplit
      split at hSplit
      · next hBreak =>
        cases hSplit
        rw [hBreak]
        rfl
      · rw [Option.map_eq_some_iff] at hSplit
        rcases hSplit with ⟨found, hFound, hPair⟩
        cases hPair
        exact congrArg (List.cons c) (ih hFound)

/- A backtick behind two others is a mark. -/
theorem splitTicks?_of_tick (cs : List Char) :
    splitTicks? (ticks 2 ++ Splitter.tick :: cs) =
      some ([], cs) := by
  rfl

/- Any other character ends the search for a mark before it. -/
theorem splitTicks?_of_other
    {held : Nat}
    {c : Char}
    (hHeld : held < 3)
    (hOther : c ≠ Splitter.tick)
    (cs : List Char) :
    splitTicks? (ticks held ++ c :: cs) =
      (splitTicks? cs).map fun r =>
        (ticks held ++ c :: r.1, r.2) := by
  have hNone :
      ∀ ds, splitTicks? (c :: ds) =
        (splitTicks? ds).map fun r => (c :: r.1, r.2) := by
    intro ds
    rw [splitTicks?, if_neg]
    intro hMark
    exact hOther hMark.1
  have hBreak :
      ∀ ds : List Char,
        (c :: ds).take 2 ≠ [Legacy.tick, Legacy.tick] := by
    intro ds hTwo
    cases ds with
    | nil => simp at hTwo
    | cons d ds =>
        simp only [List.take_succ_cons, List.take_zero,
          List.cons.injEq, and_true] at hTwo
        exact hOther hTwo.1
  obtain rfl | rfl | rfl : held = 0 ∨ held = 1 ∨ held = 2 := by
    omega
  · simpa using hNone cs
  · change splitTicks? (Splitter.tick :: c :: cs) = _
    rw [splitTicks?, if_neg fun hMark => hBreak cs hMark.2,
      hNone, Option.map_map]
    rfl
  · change
      splitTicks? (Splitter.tick :: Splitter.tick :: c :: cs) = _
    rw [splitTicks?, if_neg, splitTicks?,
      if_neg fun hMark => hBreak cs hMark.2, hNone,
      Option.map_map, Option.map_map]
    · rfl
    · intro hMark
      simp only [List.take_succ_cons, List.take_zero,
        List.cons.injEq, and_true] at hMark
      exact hOther hMark.2.2

/- Backticks held back at the end are no mark. -/
theorem splitTicks?_ticks
    {held : Nat}
    (hHeld : held < 3) :
    splitTicks? (ticks held) = none := by
  obtain rfl | rfl | rfl : held = 0 ∨ held = 1 ∨ held = 2 := by
    omega
  · rfl
  · rfl
  · rfl

/-
  What holds of all backticks held back and characters behind
  them follows character by character: a third backtick is a
  mark, and any other character ends what is held back.
-/
@[elab_as_elim] theorem mark_induction
    {motive : Nat → List Char → Prop}
    (hNil : ∀ held, held < 3 → motive held [])
    (hMark : ∀ cs, motive 2 (Splitter.tick :: cs))
    (hTick :
      ∀ held cs, held < 2 → motive (held + 1) cs →
        motive held (Splitter.tick :: cs))
    (hOther :
      ∀ held c cs, held < 3 → c ≠ Splitter.tick →
        motive 0 cs → motive held (c :: cs))
    {held : Nat}
    (hHeld : held < 3)
    (cs : List Char) :
    motive held cs := by
  induction cs generalizing held with
  | nil => exact hNil held hHeld
  | cons c cs ih =>
      by_cases hFence : c = Splitter.tick
      · subst hFence
        by_cases hTwo : held = 2
        · subst hTwo
          exact hMark cs
        · exact hTick held cs (by omega) (ih (by omega))
      · exact hOther held c cs hHeld hFence (ih (by omega))

@[simp] theorem dropTicksEnd_ticks (held : Nat) :
    dropTicksEnd (ticks held) = [] := by
  unfold dropTicksEnd
  rw [List.rdropWhile_eq_nil_iff]
  intro c hMember
  rw [List.eq_of_mem_replicate hMember]
  rfl

/- Backticks before another character stay. -/
theorem dropTicksEnd_of_other
    {c : Char}
    (hOther : c ≠ Splitter.tick)
    (ds cs : List Char) :
    dropTicksEnd (ds ++ c :: cs) =
      ds ++ c :: dropTicksEnd cs := by
  unfold dropTicksEnd List.rdropWhile
  rw [List.reverse_append, List.reverse_cons, List.append_assoc,
    List.dropWhile_append]
  split
  · next hAll =>
    have hNil :
        cs.reverse.dropWhile (· == Splitter.tick) = [] := by
      simpa using hAll
    rw [hNil]
    simp [hOther]
  · simp

end Layout

end AnswerStream
