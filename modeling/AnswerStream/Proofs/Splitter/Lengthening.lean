import AnswerStream.Proofs.Splitter.Growth

/-
  This file proves that prose only gets longer. What can be
  read at a place, of a finished block or of the present prose
  without white space around it, is a prefix of what can be
  read there later, and of the block that is recorded there.

  Key definitions include:
    * `Splitter.Reads`
    * `Splitter.Lengthens`

  Main statements:
    * `Splitter.run_lengthens`
    * `Splitter.finished_of_reads`
-/

namespace AnswerStream

namespace Splitter

variable {p q r : Splitter} {c : Char} {read : Nat}

------------------------------------------------------------
-- Prose at a Place
------------------------------------------------------------

/-
  Prose can be read at a place: that of a finished block, or
  the present one, which would become the next block.
-/
inductive Reads (p : Splitter) : Nat → String → Prop where
| block
    {i : Nat}
    {b : Block}
    (hAt : p.blocks[i]? = some b)
    (hKind : b.kind = .text) :
    Reads p i b.textOrEmpty
| prose
    (hText : (Text.trim p.text).isEmpty = false) :
    Reads p p.blocks.length (Text.trim p.text)

/- There is one text at a place. -/
theorem Reads.unique
    {i : Nat}
    {x y : String}
    (hX : Reads p i x)
    (hY : Reads p i y) :
    x = y := by
  cases hX with
  | block hAt hKind =>
      cases hY with
      | block hSame _ =>
          rw [hAt] at hSame
          rw [Option.some.inj hSame]
      | prose hText =>
          rw [List.getElem?_length] at hAt
          cases hAt
  | prose hText =>
      cases hY with
      | block hAt hKind =>
          rw [List.getElem?_length] at hAt
          cases hAt
      | prose hSame => rfl

/-
  A splitter becomes another one that has longer prose: what
  could be read at a place is a prefix of what can be read
  there now.
-/
def Lengthens (p q : Splitter) : Prop :=
  ∀ i x, Reads p i x → ∃ y, Reads q i y ∧ x.toList <+: y.toList

namespace Lengthens

theorem refl (p : Splitter) : Lengthens p p :=
  fun _ x hReads => ⟨x, hReads, List.prefix_refl _⟩

theorem trans
    (hFirst : Lengthens p q)
    (hSecond : Lengthens q r) :
    Lengthens p r := by
  intro i x hReads
  rcases hFirst i x hReads with ⟨y, hThere, hLonger⟩
  rcases hSecond i y hThere with ⟨z, hLater, hStill⟩
  exact ⟨z, hLater, hLonger.trans hStill⟩

/- Without a further block, the present prose may go on. -/
theorem of_same
    (hBlocks : q.blocks = p.blocks)
    {more : String}
    (hText : q.text = p.text ++ more) :
    Lengthens p q := by
  intro i x hReads
  cases hReads with
  | block hAt hKind =>
      rw [← hBlocks] at hAt
      exact ⟨_, .block hAt hKind, List.prefix_refl _⟩
  | prose hSome =>
      have hNow := Text.trim_append_isEmpty hSome more
      rw [← hText] at hNow
      refine ⟨Text.trim q.text, hBlocks ▸ .prose hNow, ?_⟩
      rw [hText]
      exact Text.trim_prefix_append hSome more

/- Nothing happens to the prose. -/
theorem of_frame
    (hBlocks : q.blocks = p.blocks)
    (hText : q.text = p.text) :
    Lengthens p q := by
  have hMore : q.text = p.text ++ "" := by
    rw [hText, String.append_empty]
  exact .of_same hBlocks hMore

/- A further block has the present prose, if there is any. -/
theorem of_block
    {b : Block}
    (hBlocks : q.blocks = p.blocks ++ [b])
    (hText :
      (Text.trim p.text).isEmpty = false →
        b.kind = .text ∧ b.textOrEmpty = Text.trim p.text) :
    Lengthens p q := by
  intro i x hReads
  cases hReads with
  | @block i c hAt hKind =>
      have hPlace := (List.getElem?_eq_some_iff.mp hAt).1
      have hThere : q.blocks[i]? = some c := by
        rw [hBlocks, List.getElem?_append_left hPlace]
        exact hAt
      exact ⟨_, .block hThere hKind, List.prefix_refl _⟩
  | prose hSome =>
      rcases hText hSome with ⟨hKind, hSame⟩
      have hLast : q.blocks[p.blocks.length]? = some b := by
        rw [hBlocks]
        exact List.getElem?_concat_length
      exact
        ⟨_, .block hLast hKind, hSame ▸ List.prefix_refl _⟩

end Lengthens

------------------------------------------------------------
-- Moves
------------------------------------------------------------

/- The present prose becomes a block where a fence is entered. -/
theorem lengthens_openJson (p : Splitter) :
    Lengthens p p.openJson := by
  cases hText : (Text.trim p.text).isEmpty with
  | true =>
      rw [openJson_of_blank hText]
      intro i x hReads
      cases hReads with
      | block hAt hKind =>
          exact ⟨_, .block hAt hKind, List.prefix_refl _⟩
      | prose hSome =>
          rw [hText] at hSome
          cases hSome
  | false =>
      rw [openJson_of_text hText]
      exact .of_block rfl fun _ => ⟨rfl, rfl⟩

/- There is no prose beside a fence that is left. -/
theorem lengthens_closeFence
    (hTidy : Tidy p read)
    (hIn : p.inJson = true) :
    Lengthens p p.closeFence := by
  cases hJson : (Text.trim p.json).isEmpty with
  | true =>
      rw [closeFence_of_blank hJson]
      exact .of_frame rfl rfl
  | false =>
      rw [closeFence_of_json hJson]
      refine .of_block rfl fun hSome => ?_
      rw [hTidy.apart hIn] at hSome
      cases hSome

/- A move leaves what could be read, or makes it longer. -/
theorem Moves.lengthens
    (hMoves : Moves p c q)
    (hTidy : Tidy p read) :
    Lengthens p q := by
  cases hMoves with
  | hold hHeld hMode => exact .of_frame rfl rfl
  | mark hMode => exact .of_frame rfl rfl
  | prose hMode => exact .of_same rfl rfl
  | tag hMode => exact .of_frame rfl rfl
  | enter hMode => exact lengthens_openJson p
  | enterOther hMode => exact .of_frame rfl rfl
  | holdJson hHeld hMode => exact .of_frame rfl rfl
  | leave hMode =>
      exact lengthens_closeFence hTidy (inJson_jsonMode hMode)
  | json hMode hRoom => exact .of_frame rfl rfl
  | other hMode => exact .of_frame rfl rfl
  | leaveOther hMode => exact .of_frame rfl rfl

------------------------------------------------------------
-- Runs and the End of a Text
------------------------------------------------------------

/- So does a run over characters for which there is room. -/
theorem run_lengthens
    {cs : List Char}
    (hTidy : Tidy p read)
    (hFits : read + byteCount cs ≤ p.limits.text)
    (hRun : p.run cs = .ok q) :
    Tidy q (read + byteCount cs) ∧ Lengthens p q :=
  run_of_moves Lengthens.refl (fun _ _ _ => Lengthens.trans)
    (fun _ _ _ _ => Moves.lengthens) hTidy hFits hRun

/- Closing does not change the prose. -/
theorem lengthens_close
    (hTidy : Tidy p read) :
    Lengthens p p.close.value := by
  rw [close_value]
  split
  · next hIn => exact lengthens_closeFence hTidy hIn
  · exact .refl p

/-
  What can be read at a place is in the end a prefix of the
  block of prose that is recorded there.
-/
theorem finished_of_reads
    {i : Nat}
    {x : String}
    (hTidy : Tidy p read)
    (hReads : Reads p i x) :
    ∃ b, p.close.value.allBlocks[i]? = some b ∧
      b.kind = .text ∧ x.toList <+: b.textOrEmpty.toList := by
  rcases lengthens_close hTidy i x hReads with
    ⟨y, hThere, hLonger⟩
  revert hThere
  generalize p.close.value = q
  intro hThere
  cases hThere with
  | block hAt hKind =>
      exact ⟨_, getElem?_allBlocks hAt, hKind, hLonger⟩
  | prose hText =>
      have hTrailing :
          (Text.trim q.trailingText).isEmpty = false ∧
            (Text.trim q.text).toList <+:
              (Text.trim q.trailingText).toList := by
        unfold trailingText
        split
        · exact
            ⟨Text.trim_append_isEmpty hText _,
              Text.trim_prefix_append hText _⟩
        · exact ⟨hText, List.prefix_refl _⟩
      exact
        ⟨_, getElem?_allBlocks_of_prose hTrailing.1, rfl,
          hLonger.trans hTrailing.2⟩

end Splitter

end AnswerStream
