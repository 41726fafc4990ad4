import AnswerStream.Proofs.Processor.Placing
import AnswerStream.Proofs.Processor.Replay

/-
  This file proves what a view shows of an answer: however its
  blocks were previewed, once each of them had its last event
  the view shows these blocks and no others, in their order.

  Key definitions include:
    * `Answer`
    * `Content.Previews`
    * `Block.lastContent`
    * `View.Shows`

  Main statements:
    * `View.Shows.replay_previews`
    * `View.Shows.replay_last`
    * `View.Shows.sortedBlocks_eq`
-/

namespace AnswerStream

------------------------------------------------------------
-- Answers
------------------------------------------------------------

/- A block that holds prose or a fence, and nothing besides. -/
inductive Block.Plain : Block → Prop where
| text
    (id : String)
    (index : UInt32)
    (body : String) :
    Plain (.ofText id index body)
| fence
    (id : String)
    (index : UInt32)
    (data : Option Json.Value)
    (source : Option String) :
    Plain (.ofStructured id index data source)

theorem Block.Plain.isPartial
    {b : Block}
    (hPlain : b.Plain) :
    b.isPartial = none := by
  cases hPlain with
  | text id index body => rfl
  | fence id index data source => rfl

/-
  The blocks of an answer: plain ones with identities of their
  own, in the order of their indices, none of which is the
  greatest.
-/
structure Answer (bs : List Block) : Prop where
  plain : ∀ b ∈ bs, b.Plain
  named : ∀ b ∈ bs, b.id.isEmpty = false
  bounded : ∀ b ∈ bs, b.index ≠ View.greatestIndex
  distinct : (bs.map Block.id).Nodup
  ordered : bs.Pairwise fun a b => a.index < b.index

/- A content shows how far a block of an answer is. -/
inductive Content.Previews (bs : List Block) : Content → Prop where
| text
    {b : Block}
    (hMember : b ∈ bs)
    (body : String) :
    Previews bs (.text b.id b.index body false)
| fence
    {b : Block}
    (hMember : b ∈ bs)
    (v : Json.Value) :
    Previews bs (.structured b.id b.index (some v) none false)

/- The content of the last event of a block. -/
def Block.lastContent (b : Block) : Content :=
  match b.kind with
  | .structured =>
      .structured b.id b.index b.data b.sourceText true
  | _ => .text b.id b.index b.textOrEmpty true

------------------------------------------------------------
-- Contents of Blocks
------------------------------------------------------------

/- A preview shows its block under its identity and index. -/
theorem Content.Previews.shown
    {bs : List Block}
    {c : Content}
    (hPreviews : c.Previews bs) :
    ∃ b ∈ bs, ∃ d,
      c.shown? = some d ∧ d.id = b.id ∧ d.index = b.index := by
  cases hPreviews with
  | @text b hMember body =>
      exact ⟨b, hMember, _, rfl, rfl, rfl⟩
  | @fence b hMember value =>
      exact ⟨b, hMember, _, rfl, rfl, rfl⟩

/- The last content of a plain block shows this block. -/
theorem Block.Plain.shown_lastContent
    {b : Block}
    (hPlain : b.Plain) :
    b.lastContent.shown? = some b := by
  cases hPlain with
  | text id index body => rfl
  | fence id index data source => rfl

namespace View

------------------------------------------------------------
-- Order
------------------------------------------------------------

/- A block is shown no later than another one. -/
def before (a b : Block) : Bool :=
  if a.index = b.index then a.id ≤ b.id
  else a.index ≤ b.index

theorem before_iff (a b : Block) :
    before a b = true ↔
      a.index < b.index ∨ (a.index = b.index ∧ a.id ≤ b.id) := by
  unfold before
  split
  · next hSame =>
    rw [decide_eq_true_iff, hSame]
    constructor
    · intro hId
      exact .inr ⟨rfl, hId⟩
    · intro hBefore
      rcases hBefore with hLess | hId
      · exact absurd hLess (UInt32.lt_irrefl _)
      · exact hId.2
  · next hOther =>
    rw [decide_eq_true_iff]
    constructor
    · intro hLe
      exact .inl (UInt32.lt_of_le_of_ne hLe hOther)
    · intro hBefore
      rcases hBefore with hLess | hId
      · exact UInt32.le_of_lt hLess
      · exact absurd hId.1 hOther

theorem before_trans
    {a b c : Block}
    (hAB : before a b = true)
    (hBC : before b c = true) :
    before a c = true := by
  rw [before_iff] at hAB hBC ⊢
  rcases hAB with hAB | ⟨hAB, hIdAB⟩
  · rcases hBC with hBC | ⟨hBC, _⟩
    · exact .inl (UInt32.lt_trans hAB hBC)
    · exact .inl (hBC ▸ hAB)
  · rcases hBC with hBC | ⟨hBC, hIdBC⟩
    · exact .inl (hAB ▸ hBC)
    · exact .inr ⟨hAB.trans hBC, String.le_trans hIdAB hIdBC⟩

theorem before_total (a b : Block) :
    (before a b || before b a) = true := by
  rw [Bool.or_eq_true, before_iff, before_iff]
  by_cases hSame : a.index = b.index
  · rcases String.le_total a.id b.id with hId | hId
    · exact .inl (.inr ⟨hSame, hId⟩)
    · exact .inr (.inr ⟨hSame.symm, hId⟩)
  · rcases UInt32.le_total a.index b.index with hLe | hLe
    · exact .inl (.inl (UInt32.lt_of_le_of_ne hLe hSame))
    · exact
        .inr (.inl (UInt32.lt_of_le_of_ne hLe (Ne.symm hSame)))

/- Blocks are shown in this order. -/
theorem pairwise_sortedBlocks (v : View) :
    v.sortedBlocks.Pairwise fun a b => before a b = true := by
  apply List.pairwise_mergeSort
  · intro a b c hAB hBC
    exact before_trans hAB hBC
  · exact before_total

------------------------------------------------------------
-- What a View Shows
------------------------------------------------------------

/-
  A view shows an answer of which some blocks are done: its
  blocks have identities of their own, with the indices that
  they have in the answer, and the blocks that are done are
  among them.
-/
structure Shows
    (bs done : List Block)
    (v : View) : Prop where
  distinct : (v.blocks.map Block.id).Nodup
  known :
    ∀ c ∈ v.blocks, ∃ b ∈ bs, b.id = c.id ∧ b.index = c.index
  shown : ∀ b ∈ done, b ∈ v.blocks

theorem shows_empty (bs : List Block) :
    Shows bs [] empty where
  distinct := List.nodup_nil
  known := by simp [empty]
  shown := by simp

namespace Shows

variable {bs done : List Block} {v : View}

/- A block of the answer keeps its own index where it is put. -/
theorem placed_eq
    (hShows : Shows bs done v)
    (hAnswer : Answer bs)
    {b c : Block}
    (hMember : b ∈ bs)
    (hId : c.id = b.id)
    (hIndex : c.index = b.index) :
    v.placed c = c := by
  cases hBlock : v.block? c.id with
  | none => exact placed_of_none hBlock
  | some old =>
      rcases mem_of_block? hBlock with ⟨hOld, hOldId⟩
      rcases hShows.known old hOld with ⟨a, hA, hAId, hAIndex⟩
      have hSame : a = b := by
        apply
          List.inj_on_of_nodup_map hAnswer.distinct hA hMember
        rw [hAId, hOldId, hId]
      rw [placed_of_some hBlock, ← hAIndex, hSame, ← hIndex]

/- A view with such a block in it goes on showing the answer. -/
theorem withBlock
    (hShows : Shows bs done v)
    {b c : Block}
    (hMember : b ∈ bs)
    (hId : c.id = b.id)
    (hIndex : c.index = b.index)
    (hOthers : ∀ d ∈ done, d.id ≠ c.id) :
    Shows bs (done ++ [c]) (v.withBlock c) where
  distinct := nodup_putBlock hShows.distinct
  known := by
    intro d hD
    rcases mem_of_mem_putBlock hD with hNew | hOld
    · rw [hNew]
      exact ⟨b, hMember, hId.symm, hIndex.symm⟩
    · exact hShows.known d hOld
  shown := by
    intro d hD
    rcases List.mem_append.mp hD with hOld | hNew
    · exact
        mem_putBlock_of_ne (hShows.shown d hOld) (hOthers d hOld)
    · rw [List.mem_singleton.mp hNew]
      exact mem_putBlock_self c v.blocks

/- An event that shows such a block can be applied. -/
theorem after
    (hShows : Shows bs done v)
    (hAnswer : Answer bs)
    {e : Event}
    {b c : Block}
    (hMember : b ∈ bs)
    (hShown : e.content.shown? = some c)
    (hId : c.id = b.id)
    (hIndex : c.index = b.index)
    (hOthers : ∀ d ∈ done, d.id ≠ c.id) :
    Shows bs (done ++ [c]) (v.after e) ∧
      v.failureOf e = [] := by
  have hPlaced := hShows.placed_eq hAnswer hMember hId hIndex
  have hNamed : c.id ≠ "" := by
    rw [hId, Ne, ← String.isEmpty_iff,
      hAnswer.named b hMember]
    exact Bool.false_ne_true
  have hRoom : c.index ≠ greatestIndex := by
    rw [hIndex]
    exact hAnswer.bounded b hMember
  have hEdit := edit_shown v hShown e.path
  rw [hPlaced, if_neg hNamed, if_neg hRoom] at hEdit
  rcases after_of_ok hEdit with ⟨hView, _, hNone⟩
  rw [hView]
  exact
    ⟨hShows.withBlock hMember hId hIndex hOthers, hNone⟩

/- A preview can be applied, whatever is shown so far. -/
theorem preview
    (hShows : Shows bs [] v)
    (hAnswer : Answer bs)
    {e : Event}
    (hPreviews : e.content.Previews bs) :
    Shows bs [] (v.after e) ∧ v.failureOf e = [] := by
  rcases hPreviews.shown with
    ⟨b, hMember, c, hShown, hId, hIndex⟩
  rcases hShows.after hAnswer hMember hShown hId hIndex
      (by simp) with ⟨hAfter, hNone⟩
  exact ⟨⟨hAfter.distinct, hAfter.known, by simp⟩, hNone⟩

/- The last event of a block can be applied, and shows it. -/
theorem last
    (hShows : Shows bs done v)
    (hAnswer : Answer bs)
    {b : Block}
    {e : Event}
    (hMember : b ∈ bs)
    (hOthers : ∀ d ∈ done, d.id ≠ b.id)
    (hLast : e.content = b.lastContent) :
    Shows bs (done ++ [b]) (v.after e) ∧
      v.failureOf e = [] := by
  have hShown := (hAnswer.plain b hMember).shown_lastContent
  rw [← hLast] at hShown
  exact hShows.after hAnswer hMember hShown rfl rfl hOthers

------------------------------------------------------------
-- Replays
------------------------------------------------------------

/- All previews can be applied. -/
theorem replay_previews
    (hShows : Shows bs [] v)
    (hAnswer : Answer bs)
    {es : List Event}
    (hPreviews : ∀ e ∈ es, e.content.Previews bs) :
    Shows bs [] (v.replay es) ∧ v.failures es = [] := by
  induction es generalizing v with
  | nil => exact ⟨hShows, rfl⟩
  | cons e es ih =>
      rcases hShows.preview hAnswer
          (hPreviews e List.mem_cons_self) with
        ⟨hAfter, hNone⟩
      have hRest :=
        ih hAfter fun f hMember =>
          hPreviews f (List.mem_cons_of_mem e hMember)
      rw [replay_cons, failures, hNone, List.nil_append]
      exact hRest

/- All last events can be applied, and show their blocks. -/
theorem replay_last
    (hShows : Shows bs done v)
    (hAnswer : Answer bs)
    {es : List Event}
    {fs : List Block}
    (hMembers : ∀ b ∈ fs, b ∈ bs)
    (hDistinct : ((done ++ fs).map Block.id).Nodup)
    (hLast :
      es.map Event.content = fs.map Block.lastContent) :
    Shows bs (done ++ fs) (v.replay es) ∧
      v.failures es = [] := by
  induction es generalizing v done fs with
  | nil =>
      cases fs with
      | nil =>
          rw [List.append_nil]
          exact ⟨hShows, rfl⟩
      | cons b fs => simp at hLast
  | cons e es ih =>
      cases fs with
      | nil => simp at hLast
      | cons b fs =>
          rw [List.map_cons, List.map_cons,
            List.cons.injEq] at hLast
          rw [List.append_cons] at hDistinct ⊢
          have hOthers : ∀ d ∈ done, d.id ≠ b.id := by
            intro d hD hSame
            rw [List.map_append, List.map_append,
              List.append_assoc, List.nodup_append] at hDistinct
            exact hDistinct.2.2 _ (List.mem_map_of_mem hD) _
              (by simp) hSame
          rcases hShows.last hAnswer
              (hMembers b List.mem_cons_self) hOthers
              hLast.1 with ⟨hAfter, hNone⟩
          have hRest :=
            ih hAfter
              (fun c hMember =>
                hMembers c (List.mem_cons_of_mem b hMember))
              hDistinct hLast.2
          rw [replay_cons, failures, hNone, List.nil_append]
          exact hRest

------------------------------------------------------------
-- Order
------------------------------------------------------------

/- A view that shows all blocks of an answer shows no others. -/
theorem perm
    (hShows : Shows bs done v)
    (hAnswer : Answer bs)
    (hDone : ∀ b ∈ bs, b ∈ done) :
    v.blocks.Perm bs := by
  rw [List.perm_ext_iff_of_nodup hShows.distinct.of_map
    hAnswer.distinct.of_map]
  intro c
  constructor
  · intro hC
    rcases hShows.known c hC with ⟨b, hMember, hId, _⟩
    have hSame : b = c :=
      List.inj_on_of_nodup_map hShows.distinct
        (hShows.shown b (hDone b hMember)) hC hId
    rw [← hSame]
    exact hMember
  · intro hC
    exact hShows.shown c (hDone c hC)

/- Once all blocks are done, they are shown in order. -/
theorem sortedBlocks_eq
    (hShows : Shows bs done v)
    (hAnswer : Answer bs)
    (hDone : ∀ b ∈ bs, b ∈ done) :
    v.sortedBlocks = bs := by
  have hPerm : v.sortedBlocks.Perm bs :=
    (List.mergeSort_perm _ _).trans (hShows.perm hAnswer hDone)
  have hOrdered :
      bs.Pairwise fun a b => before a b = true := by
    refine hAnswer.ordered.imp ?_
    intro a b hLess
    exact (before_iff a b).mpr (.inl hLess)
  have hIndices : (bs.map Block.index).Nodup := by
    unfold List.Nodup
    rw [List.pairwise_map]
    refine hAnswer.ordered.imp ?_
    intro a b hLess hSame
    rw [hSame] at hLess
    exact UInt32.lt_irrefl _ hLess
  refine
    hPerm.eq_of_pairwise ?_ v.pairwise_sortedBlocks hOrdered
  intro a b hA hB hAB hBA
  apply List.inj_on_of_nodup_map hIndices
    (hPerm.mem_iff.mp hA) hB
  rw [before_iff] at hAB hBA
  rcases hAB with hLess | hSame
  · rcases hBA with hMore | hSame
    · exact absurd hMore (UInt32.lt_asymm hLess)
    · exact hSame.1.symm
  · exact hSame.1

end Shows

end View

end AnswerStream
