import AnswerStream.Proofs.Splitter.Moves

/-
  This file proves how the blocks of a splitter grow. They are
  numbered in order, finished blocks stay, and a block that can
  be seen before it is finished is finished under the identity
  and the index that it was seen with.

  Key definitions include:
    * `Splitter.MadeAt`
    * `Splitter.Listed`
    * `Splitter.Announced`
    * `Splitter.Tidy`
    * `Splitter.Grows`

  Main statements:
    * `Splitter.run_of_moves`
    * `Splitter.run_grows`
    * `Splitter.recorded_of_announced`
-/

namespace AnswerStream

open Layout (ticks)

/- The name of a kind ends where a colon follows it. -/
theorem BlockKind.name_append_inj
    {kind other : BlockKind}
    {s t : List Char}
    (hSame :
      kind.name.toList ++ ':' :: s =
        other.name.toList ++ ':' :: t) :
    kind = other ∧ s = t := by
  -- Names of kinds that differ do so before they end.
  have hKind : kind = other := by
    cases kind <;> cases other <;>
      first
      | rfl
      | simp [BlockKind.name] at hSame
  subst hKind
  exact ⟨rfl, (List.cons.inj (List.append_cancel_left hSame)).2⟩

namespace Splitter

------------------------------------------------------------
-- Numbered Blocks
------------------------------------------------------------

/- The identity of the block at a place. -/
def slot
    (id : String)
    (kind : BlockKind)
    (i : Nat) : String :=
  id ++ ":" ++ kind.name ++ ":" ++
    toString (UInt32.ofNat i).toNat

/- A block of a splitter at a place. -/
inductive MadeAt (id : String) (i : Nat) : Block → Prop where
| text (body : String) :
    MadeAt id i
      (.ofText (slot id .text i) (UInt32.ofNat i) body)
| fence
    (data : Option Json.Value)
    (source : Option String) :
    MadeAt id i
      (.ofStructured (slot id .structured i) (UInt32.ofNat i)
        data source)

/- Blocks in order, and the index behind them. -/
structure Listed
    (id : String)
    (index : UInt32)
    (blocks : List Block) : Prop where
  index : index = UInt32.ofNat blocks.length
  made : ∀ i b, blocks[i]? = some b → MadeAt id i b

namespace MadeAt

variable {id : String} {i : Nat} {b : Block}

theorem id_eq (hMade : MadeAt id i b) :
    b.id = slot id b.kind i := by
  cases hMade with
  | text body => rfl
  | fence data source => rfl

theorem index_eq (hMade : MadeAt id i b) :
    b.index = UInt32.ofNat i := by
  cases hMade with
  | text body => rfl
  | fence data source => rfl

end MadeAt

/- A number is known from its digits. -/
theorem eq_of_toString
    {m n : Nat}
    (hDigits : (toString m).toList = (toString n).toList) :
    m = n := by
  rw [Nat.toString_eq_repr, Nat.toString_eq_repr,
    Nat.toList_repr, Nat.toList_repr] at hDigits
  rw [← @Nat.ofDigitChars_ten_toDigits m, hDigits,
    Nat.ofDigitChars_ten_toDigits]

/- An identity tells the kind of a block and its index. -/
theorem slot_inj
    {id : String}
    {kind other : BlockKind}
    {i j : Nat}
    (hSame : slot id kind i = slot id other j) :
    kind = other ∧ UInt32.ofNat i = UInt32.ofNat j := by
  have hChars := congrArg String.toList hSame
  simp only [slot, String.toList_append, List.append_assoc,
    List.append_cancel_left_eq] at hChars
  rcases BlockKind.name_append_inj hChars with ⟨hKind, hDigits⟩
  exact ⟨hKind, UInt32.toNat_inj.mp (eq_of_toString hDigits)⟩

/- The identity of a block tells its place. -/
theorem MadeAt.place_inj
    {id : String}
    {i j : Nat}
    {b c : Block}
    (hB : MadeAt id i b)
    (hC : MadeAt id j c)
    (hI : i < UInt32.size)
    (hJ : j < UInt32.size)
    (hId : b.id = c.id) :
    i = j := by
  rw [hB.id_eq, hC.id_eq] at hId
  have hSame := congrArg UInt32.toNat (slot_inj hId).2
  rw [UInt32.toNat_ofNat_of_lt' hI,
    UInt32.toNat_ofNat_of_lt' hJ] at hSame
  exact hSame

/- Blocks in order have identities of their own. -/
theorem Listed.nodup
    {id : String}
    {index : UInt32}
    {blocks : List Block}
    (hListed : Listed id index blocks)
    (hLength : blocks.length ≤ UInt32.size) :
    (blocks.map Block.id).Nodup := by
  have hMade :
      ∀ i (hI : i < blocks.length), MadeAt id i blocks[i] :=
    fun i hI =>
      hListed.made i _ (List.getElem?_eq_getElem hI)
  refine List.pairwise_map.mpr ?_
  rw [List.pairwise_iff_getElem]
  intro i j hI hJ hLess hSame
  have hPlace :=
    (hMade i hI).place_inj (hMade j hJ) (by omega) (by omega)
      hSame
  omega

/- Blocks that have their indices are in order as they are. -/
theorem Listed.sortByIndex
    {id : String}
    {index : UInt32}
    {blocks : List Block}
    (hListed : Listed id index blocks)
    (hLength : blocks.length ≤ UInt32.size) :
    Block.sortByIndex blocks = blocks := by
  have hPlace :
      ∀ i (hI : i < blocks.length),
        blocks[i].index.toNat = i := by
    intro i hI
    have hMade :=
      hListed.made i _ (List.getElem?_eq_getElem hI)
    rw [hMade.index_eq]
    exact UInt32.toNat_ofNat_of_lt' (by omega)
  apply List.mergeSort_of_pairwise
  rw [List.pairwise_iff_getElem]
  intro i j hI hJ hLess
  refine decide_eq_true (UInt32.le_iff_toNat_le.mpr ?_)
  rw [hPlace i hI, hPlace j hJ]
  exact Nat.le_of_lt hLess

/- One more block in order. -/
theorem Listed.push
    {id : String}
    {index : UInt32}
    {blocks : List Block}
    {b : Block}
    (hListed : Listed id index blocks)
    (hMade : MadeAt id blocks.length b) :
    Listed id (index + 1) (blocks ++ [b]) := by
  constructor
  · rw [hListed.index, List.length_append, List.length_singleton,
      UInt32.ofNat_add]
    rfl
  · intro i c hAt
    rw [List.getElem?_append] at hAt
    split at hAt
    · exact hListed.made i c hAt
    · next hBehind =>
      rw [List.getElem?_singleton] at hAt
      split at hAt
      · next hHere =>
        have hPlace : i = blocks.length := by omega
        rw [hPlace, ← Option.some.inj hAt]
        exact hMade
      · cases hAt

section Pending

variable {p : Splitter}

theorem Listed.pendingTextId_eq
    (hListed : Listed p.id p.nextIndex p.blocks) :
    p.pendingTextId = slot p.id .text p.blocks.length := by
  unfold pendingTextId blockId
  rw [hListed.index]
  rfl

theorem Listed.pendingStructuredId_eq
    (hListed : Listed p.id p.nextIndex p.blocks) :
    p.pendingStructuredId =
      slot p.id .structured p.blocks.length := by
  unfold pendingStructuredId blockId
  rw [hListed.index]
  rfl

/- The block that prose would become is in order. -/
theorem Listed.made_text
    (hListed : Listed p.id p.nextIndex p.blocks)
    (body : String) :
    MadeAt p.id p.blocks.length
      (.ofText p.pendingTextId p.nextIndex body) := by
  rw [hListed.pendingTextId_eq, hListed.index]
  exact .text body

/- The block that a fence would become is in order. -/
theorem Listed.made_fence
    (hListed : Listed p.id p.nextIndex p.blocks)
    (data : Option Json.Value)
    (source : Option String) :
    MadeAt p.id p.blocks.length
      (.ofStructured p.pendingStructuredId p.nextIndex
        data source) := by
  rw [hListed.pendingStructuredId_eq, hListed.index]
  exact .fence data source

end Pending

------------------------------------------------------------
-- Fences Entered and Left
------------------------------------------------------------

section Fences

variable {p : Splitter}

theorem openJson_of_blank
    (hBlank : (Text.trim p.text).isEmpty = true) :
    p.openJson =
      { p with text := "", json := "", mode := .json } := by
  unfold openJson flushText
  dsimp only
  rw [if_pos hBlank]

theorem openJson_of_text
    (hText : (Text.trim p.text).isEmpty = false) :
    p.openJson =
      { p with
        text := ""
        json := ""
        mode := .json
        blocks :=
          p.blocks ++
            [Block.ofText p.pendingTextId p.nextIndex
              (Text.trim p.text)]
        nextIndex := p.nextIndex + 1
        exhausted := p.runsOut } := by
  unfold openJson flushText
  dsimp only
  rw [if_neg (by rw [hText]; decide)]
  rfl

theorem closeFence_of_blank
    (hBlank : (Text.trim p.json).isEmpty = true) :
    p.closeFence = { p with json := "", mode := .prose } := by
  unfold closeFence
  rw [finishJson_value, if_pos hBlank]

theorem closeFence_of_json
    (hJson : (Text.trim p.json).isEmpty = false) :
    p.closeFence =
      { p with
        json := ""
        mode := .prose
        blocks :=
          p.blocks ++
            [Block.ofStructured p.pendingStructuredId p.nextIndex
              (Json.partialValue? p.json)
              (some (Text.trim p.json))]
        nextIndex := p.nextIndex + 1
        exhausted := p.runsOut
        jsonComplete := true } := by
  unfold closeFence
  rw [finishJson_value, if_neg (by rw [hJson]; decide)]

end Fences

------------------------------------------------------------
-- Tidy Splitters
------------------------------------------------------------

/-
  A splitter that has read so many bytes: it stands between
  characters, its prose has at most these bytes, its fence
  fits, there is no prose beside a fence of JSON, and its
  blocks are in order.
-/
structure Tidy (p : Splitter) (read : Nat) : Prop where
  steady : p.mode.Steady
  prose : p.trailingText.utf8ByteSize ≤ read
  room : p.json.utf8ByteSize ≤ p.limits.structured
  apart : p.inJson = true → p.text = ""
  listed : Listed p.id p.nextIndex p.blocks

theorem steady_prose : Mode.Steady .prose :=
  @Mode.Steady.prose 0 (Nat.zero_lt_succ 2)

theorem steady_json : Mode.Steady .json :=
  @Mode.Steady.json 0 (Nat.zero_lt_succ 2)

theorem tidy_start
    (id : String)
    (limits : Limits) :
    Tidy (start id limits) 0 where
  steady := steady_prose
  prose := Nat.le_refl 0
  room := Nat.zero_le _
  apart := fun _ => rfl
  listed := ⟨rfl, fun i b hAt => by simp [start] at hAt⟩

section Modes

variable {p : Splitter} {held : Nat}

theorem inJson_proseMode
    (hMode : p.mode = proseMode held) :
    p.inJson = false := by
  unfold inJson
  rw [hMode]
  cases held with
  | zero => rfl
  | succ held => rfl

theorem inJson_jsonMode
    (hMode : p.mode = jsonMode held) :
    p.inJson = true := by
  unfold inJson
  rw [hMode]
  cases held with
  | zero => rfl
  | succ held => rfl

theorem inJson_tagMode
    {tag : String}
    (hMode : p.mode = .tag tag) :
    p.inJson = false := by
  unfold inJson
  rw [hMode]

theorem inJson_otherMode
    (hMode : p.mode = .other held) :
    p.inJson = false := by
  unfold inJson
  rw [hMode]

/- The backticks that are held back count as prose. -/
theorem bytes_proseMode
    (hMode : p.mode = proseMode held) :
    p.trailingText.utf8ByteSize =
      p.text.utf8ByteSize + byteCount (ticks held) := by
  rw [← byteCount_toList, trailingText_proseMode hMode,
    byteCount_append, byteCount_toList]

theorem bytes_text_le (p : Splitter) :
    p.text.utf8ByteSize ≤ p.trailingText.utf8ByteSize := by
  unfold trailingText
  split
  · rw [String.utf8ByteSize_append]
    exact Nat.le_add_right _ _
  · exact Nat.le_refl _

end Modes

namespace Tidy

variable {p : Splitter} {read : Nat}

/- Prose becomes a block where a fence of JSON is entered. -/
theorem openJson (hTidy : Tidy p read) :
    Tidy p.openJson read := by
  cases hText : (Text.trim p.text).isEmpty with
  | true =>
      rw [openJson_of_blank hText]
      exact
        ⟨steady_json, Nat.zero_le _, Nat.zero_le _,
          fun _ => rfl, hTidy.listed⟩
  | false =>
      rw [openJson_of_text hText]
      exact
        ⟨steady_json, Nat.zero_le _, Nat.zero_le _,
          fun _ => rfl, hTidy.listed.push (hTidy.listed.made_text _)⟩

/- The inside of a fence becomes a block where it is left. -/
theorem closeFence (hTidy : Tidy p read) :
    Tidy p.closeFence read := by
  have hText := Nat.le_trans p.bytes_text_le hTidy.prose
  cases hJson : (Text.trim p.json).isEmpty with
  | true =>
      rw [closeFence_of_blank hJson]
      exact
        ⟨steady_prose, hText, Nat.zero_le _,
          (fun hIn => by cases hIn), hTidy.listed⟩
  | false =>
      rw [closeFence_of_json hJson]
      exact
        ⟨steady_prose, hText, Nat.zero_le _,
          (fun hIn => by cases hIn),
          hTidy.listed.push (hTidy.listed.made_fence _ _)⟩

/- Bytes that were read do not make a splitter less tidy. -/
theorem mono
    {later : Nat}
    (hTidy : Tidy p read)
    (hLater : read ≤ later) :
    Tidy p later :=
  { hTidy with prose := Nat.le_trans hTidy.prose hLater }

end Tidy

/- A move keeps a splitter tidy. -/
theorem Moves.tidy
    {p q : Splitter}
    {c : Char}
    {read : Nat}
    (hMoves : Moves p c q)
    (hTidy : Tidy p read) :
    Tidy q (read + c.utf8Size) := by
  have hProse := hTidy.prose
  have hText :
      p.text.utf8ByteSize ≤ read + c.utf8Size :=
    Nat.le_trans (Nat.le_trans p.bytes_text_le hProse)
      (Nat.le_add_right _ _)
  cases hMoves with
  | @hold held hHeld hMode =>
      refine
        ⟨Mode.Steady.prose (Nat.succ_lt_succ hHeld), ?_,
          hTidy.room, ?_, hTidy.listed⟩
      · rw [bytes_proseMode hMode] at hProse
        rw [@bytes_proseMode _ (held + 1) rfl,
          Layout.ticks_succ, byteCount_append, byteCount_cons,
          byteCount_nil]
        change p.text.utf8ByteSize + _ ≤ _
        omega
      · intro hIn
        rw [@inJson_proseMode _ (held + 1) rfl] at hIn
        cases hIn
  | mark hMode =>
      exact
        ⟨.tag "", hText, hTidy.room, (fun hIn => by cases hIn),
          hTidy.listed⟩
  | @prose held _ hMode =>
      refine
        ⟨steady_prose, ?_,
          hTidy.room, (fun hIn => by cases hIn), hTidy.listed⟩
      change
        (p.text ++ String.ofList
          (ticks held ++ [c])).utf8ByteSize ≤ _
      rw [bytes_proseMode hMode] at hProse
      rw [String.utf8ByteSize_append, utf8ByteSize_ofList,
        byteCount_append, byteCount_cons, byteCount_nil]
      omega
  | tag hMode =>
      exact
        ⟨.tag _, hText, hTidy.room, (fun hIn => by cases hIn),
          hTidy.listed⟩
  | enter hMode =>
      exact hTidy.openJson.mono (Nat.le_add_right _ _)
  | enterOther hMode =>
      exact
        ⟨.other 0, hText, hTidy.room, (fun hIn => by cases hIn),
          hTidy.listed⟩
  | @holdJson held hHeld hMode =>
      refine
        ⟨Mode.Steady.json (Nat.succ_lt_succ hHeld), ?_,
          hTidy.room, ?_, hTidy.listed⟩
      · rw [@trailingText_jsonMode _ (held + 1) rfl]
        exact hText
      · intro _
        exact hTidy.apart (inJson_jsonMode hMode)
  | leave hMode =>
      exact hTidy.closeFence.mono (Nat.le_add_right _ _)
  | @json held _ hMode hRoom =>
      refine
        ⟨steady_json,
          hText, ?_, ?_, hTidy.listed⟩
      · change
          (p.json ++ String.ofList
            (ticks held ++ [c])).utf8ByteSize ≤ _
        rw [String.utf8ByteSize_append, utf8ByteSize_ofList]
        exact hRoom
      · intro _
        exact hTidy.apart (inJson_jsonMode hMode)
  | other hMode =>
      exact
        ⟨.other _, hText, hTidy.room, (fun hIn => by cases hIn),
          hTidy.listed⟩
  | leaveOther hMode =>
      exact
        ⟨steady_prose,
          hText, hTidy.room, (fun hIn => by cases hIn),
          hTidy.listed⟩

------------------------------------------------------------
-- Announced Blocks
------------------------------------------------------------

/-
  A block of a kind can be seen at a place: it is finished, or
  it is the one that the present prose or the open fence will
  become.
-/
inductive Announced (p : Splitter) : BlockKind → Nat → Prop where
| block
    {i : Nat}
    {b : Block}
    (hAt : p.blocks[i]? = some b) :
    Announced p b.kind i
| prose
    (hText : (Text.trim p.text).isEmpty = false) :
    Announced p .text p.blocks.length
| fence
    (hIn : p.inJson = true)
    (hJson : (Text.trim p.json).isEmpty = false) :
    Announced p .structured p.blocks.length

/- A block is seen at the next place at the latest. -/
theorem Announced.place_le
    {p : Splitter}
    {kind : BlockKind}
    {i : Nat}
    (hSeen : Announced p kind i) :
    i ≤ p.blocks.length := by
  cases hSeen with
  | block hAt =>
      exact Nat.le_of_lt (List.getElem?_eq_some_iff.mp hAt).1
  | prose hText => exact Nat.le_refl _
  | fence hIn hJson => exact Nat.le_refl _

/-
  A splitter becomes another one that keeps the finished blocks
  and goes on announcing what could be seen.
-/
structure Grows (p q : Splitter) : Prop where
  id : q.id = p.id
  limits : q.limits = p.limits
  blocks : p.blocks <+: q.blocks
  announced : ∀ kind i, Announced p kind i → Announced q kind i

namespace Grows

variable {p q r : Splitter}

theorem refl (p : Splitter) : Grows p p :=
  ⟨rfl, rfl, List.prefix_refl _, fun _ _ hSeen => hSeen⟩

theorem trans
    (hFirst : Grows p q)
    (hSecond : Grows q r) :
    Grows p r := by
  refine
    ⟨hSecond.id.trans hFirst.id,
      hSecond.limits.trans hFirst.limits,
      hFirst.blocks.trans hSecond.blocks, ?_⟩
  intro kind i hSeen
  exact hSecond.announced kind i (hFirst.announced kind i hSeen)

/- Without a further block, what is not blank stays so. -/
theorem of_same
    (hId : q.id = p.id)
    (hLimits : q.limits = p.limits)
    (hBlocks : q.blocks = p.blocks)
    (hText :
      (Text.trim p.text).isEmpty = false →
        (Text.trim q.text).isEmpty = false)
    (hFence :
      p.inJson = true →
        (Text.trim p.json).isEmpty = false →
          q.inJson = true ∧
            (Text.trim q.json).isEmpty = false) :
    Grows p q := by
  have hPrefix : p.blocks <+: q.blocks :=
    hBlocks ▸ List.prefix_refl p.blocks
  refine ⟨hId, hLimits, hPrefix, ?_⟩
  intro kind i hSeen
  cases hSeen with
  | block hAt =>
      rw [← hBlocks] at hAt
      exact .block hAt
  | prose hSome =>
      rw [← hBlocks]
      exact .prose (hText hSome)
  | fence hIn hSome =>
      rcases hFence hIn hSome with ⟨hStill, hNow⟩
      rw [← hBlocks]
      exact .fence hStill hNow

/- Outside of a fence of JSON only the prose is announced. -/
theorem of_outside
    (hOut : p.inJson = false)
    (hId : q.id = p.id)
    (hLimits : q.limits = p.limits)
    (hBlocks : q.blocks = p.blocks)
    (hText :
      (Text.trim p.text).isEmpty = false →
        (Text.trim q.text).isEmpty = false) :
    Grows p q := by
  refine .of_same hId hLimits hBlocks hText ?_
  intro hIn
  rw [hOut] at hIn
  cases hIn

/- A further block has the kind that was announced for it. -/
theorem of_block
    {b : Block}
    (hId : q.id = p.id)
    (hLimits : q.limits = p.limits)
    (hBlocks : q.blocks = p.blocks ++ [b])
    (hText :
      (Text.trim p.text).isEmpty = false → b.kind = .text)
    (hFence : p.inJson = true → b.kind = .structured) :
    Grows p q := by
  have hLast : q.blocks[p.blocks.length]? = some b := by
    rw [hBlocks]
    exact List.getElem?_concat_length
  have hPrefix : p.blocks <+: q.blocks := by
    rw [hBlocks]
    exact List.prefix_append _ _
  refine ⟨hId, hLimits, hPrefix, ?_⟩
  intro kind i hSeen
  cases hSeen with
  | @block i c hAt =>
      have hPlace := (List.getElem?_eq_some_iff.mp hAt).1
      have hThere : q.blocks[i]? = some c := by
        rw [hBlocks, List.getElem?_append_left hPlace]
        exact hAt
      exact .block hThere
  | prose hSome =>
      rw [← hText hSome]
      exact .block hLast
  | fence hIn hSome =>
      rw [← hFence hIn]
      exact .block hLast

end Grows

/- Entering a fence finishes the prose that was announced. -/
theorem grows_openJson
    {p : Splitter}
    (hIn : p.inJson = false) :
    Grows p p.openJson := by
  cases hText : (Text.trim p.text).isEmpty with
  | true =>
      rw [openJson_of_blank hText]
      refine .of_outside hIn rfl rfl rfl ?_
      intro hSome
      rw [hText] at hSome
      cases hSome
  | false =>
      rw [openJson_of_text hText]
      refine .of_block rfl rfl rfl (fun _ => rfl) ?_
      intro hIn'
      rw [hIn] at hIn'
      cases hIn'

/- Leaving a fence finishes what was announced of it. -/
theorem grows_closeFence
    {p : Splitter}
    {read : Nat}
    (hTidy : Tidy p read)
    (hIn : p.inJson = true) :
    Grows p p.closeFence := by
  cases hJson : (Text.trim p.json).isEmpty with
  | true =>
      rw [closeFence_of_blank hJson]
      refine .of_same rfl rfl rfl (fun hSome => hSome) ?_
      intro _ hSome
      rw [hJson] at hSome
      cases hSome
  | false =>
      rw [closeFence_of_json hJson]
      refine .of_block rfl rfl rfl ?_ (fun _ => rfl)
      intro hSome
      rw [hTidy.apart hIn] at hSome
      cases hSome

/- A move announces all that was announced before it. -/
theorem Moves.grows
    {p q : Splitter}
    {c : Char}
    {read : Nat}
    (hMoves : Moves p c q)
    (hTidy : Tidy p read) :
    Grows p q := by
  cases hMoves with
  | hold hHeld hMode =>
      exact .of_outside (inJson_proseMode hMode) rfl rfl rfl
        fun hSome => hSome
  | mark hMode =>
      exact .of_outside (inJson_proseMode hMode) rfl rfl rfl
        fun hSome => hSome
  | prose hMode =>
      refine .of_outside (inJson_proseMode hMode) rfl rfl rfl ?_
      intro hSome
      exact Text.trim_append_isEmpty hSome _
  | tag hMode =>
      exact .of_outside (inJson_tagMode hMode) rfl rfl rfl
        fun hSome => hSome
  | enter hMode =>
      exact grows_openJson (inJson_tagMode hMode)
  | enterOther hMode =>
      exact .of_outside (inJson_tagMode hMode) rfl rfl rfl
        fun hSome => hSome
  | @holdJson held hHeld hMode =>
      refine .of_same rfl rfl rfl (fun hSome => hSome) ?_
      intro _ hSome
      exact ⟨@inJson_jsonMode _ (held + 1) rfl, hSome⟩
  | leave hMode =>
      exact grows_closeFence hTidy (inJson_jsonMode hMode)
  | json hMode hRoom =>
      refine .of_same rfl rfl rfl (fun hSome => hSome) ?_
      intro _ hSome
      exact ⟨rfl, Text.trim_append_isEmpty hSome _⟩
  | other hMode =>
      exact .of_outside (inJson_otherMode hMode) rfl rfl rfl
        fun hSome => hSome
  | leaveOther hMode =>
      exact .of_outside (inJson_otherMode hMode) rfl rfl rfl
        fun hSome => hSome

------------------------------------------------------------
-- Runs
------------------------------------------------------------

/-
  What holds of every move of a tidy splitter, and of moves in a
  row, holds of a run that does not fail, over characters for
  which there is room.
-/
theorem run_of_moves
    {R : Splitter → Splitter → Prop}
    (hRefl : ∀ p, R p p)
    (hTrans : ∀ p q r, R p q → R q r → R p r)
    (hMove :
      ∀ p q c read, Moves p c q → Tidy p read → R p q)
    {p q : Splitter}
    {read : Nat}
    {cs : List Char}
    (hTidy : Tidy p read)
    (hFits : read + byteCount cs ≤ p.limits.text)
    (hRun : p.run cs = .ok q) :
    Tidy q (read + byteCount cs) ∧ R p q := by
  induction cs generalizing p read with
  | nil =>
      rw [run_nil] at hRun
      rw [← Result.ok_inj hRun]
      exact ⟨hTidy, hRefl p⟩
  | cons c cs ih =>
      rw [byteCount_cons, ← Nat.add_assoc] at hFits ⊢
      rcases ok_of_run_cons hRun with ⟨next, hStep, hRest⟩
      have hRoom :
          p.trailingText.utf8ByteSize + c.utf8Size ≤
            p.limits.text := by
        have hProse := hTidy.prose
        omega
      have hMoves : Moves p c next :=
        step_moves hTidy.steady hRoom hTidy.room hStep
      have hLimits := (hMoves.grows hTidy).limits
      rcases ih (hMoves.tidy hTidy)
          (by rw [hLimits]; exact hFits) hRest with
        ⟨hTidyAfter, hLater⟩
      exact
        ⟨hTidyAfter,
          hTrans _ _ _ (hMove _ _ _ _ hMoves hTidy) hLater⟩

/- Such a run keeps a splitter tidy and goes on announcing. -/
theorem run_grows
    {p q : Splitter}
    {read : Nat}
    {cs : List Char}
    (hTidy : Tidy p read)
    (hFits : read + byteCount cs ≤ p.limits.text)
    (hRun : p.run cs = .ok q) :
    Tidy q (read + byteCount cs) ∧ Grows p q :=
  run_of_moves Grows.refl (fun _ _ _ => Grows.trans)
    (fun _ _ _ _ => Moves.grows) hTidy hFits hRun

------------------------------------------------------------
-- The End of a Text
------------------------------------------------------------

theorem close_value (p : Splitter) :
    p.close.value = if p.inJson then p.closeFence else p := by
  unfold close
  split <;> rfl

/- Closing keeps a splitter tidy, and nothing is left open. -/
theorem Tidy.close
    {p : Splitter}
    {read : Nat}
    (hTidy : Tidy p read) :
    Tidy p.close.value read ∧ Grows p p.close.value ∧
      p.close.value.inJson = false := by
  rw [close_value]
  cases hIn : p.inJson with
  | true =>
      refine ⟨hTidy.closeFence, grows_closeFence hTidy hIn, ?_⟩
      rfl
  | false => exact ⟨hTidy, .refl p, hIn⟩

/- All blocks are in order. -/
theorem Tidy.listed_allBlocks
    {p : Splitter}
    {read : Nat}
    (hTidy : Tidy p read) :
    ∃ index, Listed p.id index p.allBlocks := by
  unfold allBlocks
  dsimp only
  split
  · exact ⟨_, hTidy.listed⟩
  · exact ⟨_, hTidy.listed.push (hTidy.listed.made_text _)⟩

theorem blocks_prefix_allBlocks (p : Splitter) :
    p.blocks <+: p.allBlocks := by
  unfold allBlocks
  dsimp only
  split
  · exact List.prefix_refl _
  · exact List.prefix_append _ _

/- A finished block is one of all blocks, at its place. -/
theorem getElem?_allBlocks
    {p : Splitter}
    {i : Nat}
    {b : Block}
    (hAt : p.blocks[i]? = some b) :
    p.allBlocks[i]? = some b := by
  rcases blocks_prefix_allBlocks p with ⟨bs, hBlocks⟩
  have hPlace := (List.getElem?_eq_some_iff.mp hAt).1
  rw [← hBlocks, List.getElem?_append_left hPlace]
  exact hAt

/- The present prose is the last one, unless it is blank. -/
theorem getElem?_allBlocks_of_prose
    {p : Splitter}
    (hText : (Text.trim p.trailingText).isEmpty = false) :
    p.allBlocks[p.blocks.length]? =
      some
        (.ofText p.pendingTextId p.nextIndex
          (Text.trim p.trailingText)) := by
  unfold allBlocks
  dsimp only
  rw [if_neg (by rw [hText]; decide)]
  exact List.getElem?_concat_length

/-
  What was announced is among all blocks in the end, with its
  kind and at its place.
-/
theorem finished_of_announced
    {p : Splitter}
    {read : Nat}
    {kind : BlockKind}
    {i : Nat}
    (hTidy : Tidy p read)
    (hSeen : Announced p kind i) :
    ∃ b, p.close.value.allBlocks[i]? = some b ∧
      b.kind = kind := by
  rcases hTidy.close with ⟨_, hGrows, hOut⟩
  have hStill := hGrows.announced kind i hSeen
  revert hStill hOut
  generalize p.close.value = q
  intro hOut hStill
  cases hStill with
  | block hAt => exact ⟨_, getElem?_allBlocks hAt, rfl⟩
  | prose hText =>
      have hTrailing :
          (Text.trim q.trailingText).isEmpty = false := by
        unfold trailingText
        split
        · exact Text.trim_append_isEmpty hText _
        · exact hText
      exact ⟨_, getElem?_allBlocks_of_prose hTrailing, rfl⟩
  | fence hIn hJson =>
      rw [hOut] at hIn
      cases hIn

/- It has the identity and the index that were announced. -/
theorem recorded_of_announced
    {p : Splitter}
    {read : Nat}
    {kind : BlockKind}
    {i : Nat}
    (hTidy : Tidy p read)
    (hSeen : Announced p kind i) :
    ∃ b ∈ p.close.value.allBlocks,
      b.kind = kind ∧
      b.id = slot p.id kind i ∧
      b.index = UInt32.ofNat i := by
  rcases finished_of_announced hTidy hSeen with ⟨b, hAt, hKind⟩
  rcases hTidy.close with ⟨hClosed, hGrows, _⟩
  rcases hClosed.listed_allBlocks with ⟨index, hListed⟩
  have hMade := hListed.made i b hAt
  rw [hGrows.id] at hMade
  refine
    ⟨b, List.mem_of_getElem? hAt, hKind, ?_, hMade.index_eq⟩
  rw [← hKind]
  exact hMade.id_eq

end Splitter

end AnswerStream
