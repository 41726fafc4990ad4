import AnswerStream.Block
import AnswerStream.Json.Fingerprint
import AnswerStream.Note
import AnswerStream.Text.Blank

/-
  This file defines how the blocks of an older message are
  found again from its text alone. The text is searched for
  closed fences from left to right; the identity of a block is
  made from its content, so it is the same every time.

  Key definitions include:
    * `Legacy.splitTicks?`
    * `Legacy.Fence`
    * `Legacy.nextFence?`
    * `Legacy.contentId`
    * `Legacy.Builder`
    * `Legacy.blocksOf`
-/

namespace AnswerStream

open Json

namespace Legacy

------------------------------------------------------------
-- Fences
------------------------------------------------------------

/- The character of which fences are made. -/
def tick : Char := '\x60'

/-
  The characters before the first three backticks in a row, and
  those behind them.
-/
def splitTicks? : List Char → Option (List Char × List Char)
  | [] => none
  | c :: rest =>
      if c = tick ∧ rest.take 2 = [tick, tick] then
        some ([], rest.drop 2)
      else
        (splitTicks? rest).map fun r => (c :: r.1, r.2)

/-
  The characters before the first line break, and those behind
  it.
-/
def splitLine? : List Char → Option (List Char × List Char)
  | [] => none
  | c :: rest =>
      if c = '\n' then some ([], rest)
      else (splitLine? rest).map fun r => (c :: r.1, r.2)

/-
  The first closed fence of a text: what is before it, its tag,
  what is inside of it, and what is behind it.
-/
structure Fence where
  before : List Char
  tag : List Char
  interior : List Char
  rest : List Char
deriving DecidableEq, Repr

/-
  The first closed fence of a text. The tag goes up to the end
  of the line, and the inside up to the next three backticks.
-/
def nextFence? (cs : List Char) : Option Fence := do
  let (before, cs) ← splitTicks? cs
  let (tag, cs) ← splitLine? cs
  let (interior, rest) ← splitTicks? cs
  return ⟨before, tag, interior, rest⟩

/- The three backticks at the ends of a fence. -/
def ticks : List Char :=
  [tick, tick, tick]

/- A fence as it is written. -/
def Fence.whole (f : Fence) : List Char :=
  ticks ++ f.tag ++ ['\n'] ++ f.interior ++ ticks

/- The three backticks make the rest shorter. -/
theorem length_of_splitTicks?
    {cs before rest : List Char}
    (h : splitTicks? cs = some (before, rest)) :
    rest.length < cs.length := by
  induction cs generalizing before with
  | nil => simp [splitTicks?] at h
  | cons c cs ih =>
    simp only [splitTicks?] at h
    split at h
    · simp only [Option.some.injEq, Prod.mk.injEq] at h
      rw [← h.2, List.length_drop, List.length_cons]
      omega
    · simp only [Option.map_eq_some_iff, Prod.exists,
        Prod.mk.injEq] at h
      obtain ⟨a, b, hab, _, hb⟩ := h
      subst hb
      exact Nat.lt_succ_of_lt (ih hab)

/- The line break makes the rest shorter. -/
theorem length_of_splitLine?
    {cs before rest : List Char}
    (h : splitLine? cs = some (before, rest)) :
    rest.length < cs.length := by
  induction cs generalizing before with
  | nil => simp [splitLine?] at h
  | cons c cs ih =>
    simp only [splitLine?] at h
    split at h
    · simp only [Option.some.injEq, Prod.mk.injEq] at h
      rw [← h.2]
      exact Nat.lt_succ_self _
    · simp only [Option.map_eq_some_iff, Prod.exists,
        Prod.mk.injEq] at h
      obtain ⟨a, b, hab, _, hb⟩ := h
      subst hb
      exact Nat.lt_succ_of_lt (ih hab)

/- A fence makes the rest shorter. -/
theorem length_of_nextFence?
    {cs : List Char}
    {f : Fence}
    (h : nextFence? cs = some f) :
    f.rest.length < cs.length := by
  simp only [nextFence?, Option.bind_eq_bind,
    Option.bind_eq_some_iff, Option.pure_def, Option.some.injEq,
    Prod.exists] at h
  obtain ⟨before, r, h1, tag, s, h2, interior, rest, h3, rfl⟩ := h
  have l1 := length_of_splitTicks? h1
  have l2 := length_of_splitLine? h2
  have l3 := length_of_splitTicks? h3
  exact Nat.lt_trans l3 (Nat.lt_trans l2 l1)

------------------------------------------------------------
-- Identities
------------------------------------------------------------

/- The identity of a block of a message, made from its content. -/
def contentId
    (messageId : String)
    (kind : BlockKind)
    (content : Value) : String :=
  messageId ++ ":" ++ kind.name ++ ":" ++ content.fingerprint

------------------------------------------------------------
-- Building Blocks
------------------------------------------------------------

/-
  The blocks found so far, and the prose behind the last one.
-/
structure Builder where
  prose : String
  blocks : List Block
deriving DecidableEq, Repr

namespace Builder

/- Nothing is found yet. -/
def empty : Builder :=
  ⟨"", []⟩

/- More prose. -/
def addProse
    (b : Builder)
    (cs : List Char) : Builder :=
  { b with prose := b.prose ++ String.ofList cs }

/- The index of the next block. -/
def nextIndex (b : Builder) : UInt32 :=
  if b.blocks.length < UInt32.size then
    UInt32.ofNat b.blocks.length
  else
    0xFFFFFFFF

/-
  The identity of the next block: the one made from its
  content, with the index behind it if that is taken.
-/
def freshId
    (b : Builder)
    (messageId : String)
    (kind : BlockKind)
    (content : Value) : String :=
  let id := contentId messageId kind content
  if b.blocks.any fun c => c.id == id then
    id ++ ":" ++ toString b.nextIndex.toNat
  else
    id

/- One more block. -/
def addBlock
    (b : Builder)
    (block : Block) : Builder :=
  { b with blocks := b.blocks ++ [block] }

/- The prose so far becomes a block, unless it is blank. -/
def flush
    (messageId : String)
    (b : Builder) : Builder :=
  let text := Text.trim b.prose
  let cleared := { b with prose := "" }
  if text.isEmpty then cleared
  else
    cleared.addBlock <|
      Block.ofText (b.freshId messageId .text (.string text))
        b.nextIndex text

/- A fence with its value becomes a block. -/
def addFence
    (messageId : String)
    (b : Builder)
    (source : String)
    (data : Value) : Builder :=
  let b := b.flush messageId
  b.addBlock <|
    Block.ofStructured (b.freshId messageId .structured data)
      b.nextIndex (some data) (some source)

end Builder

/- The tag of a fence of JSON, in any case of ASCII. -/
def isJsonTag (tag : String) : Bool :=
  tag.toList.map Char.toLower == ['j', 's', 'o', 'n']

/-
  What becomes of a fence: one with another tag is left out,
  and one whose inside is no JSON stays prose.
-/
def addFence
    (messageId : String)
    (b : Builder)
    (f : Fence) : Noted Builder :=
  let b := b.addProse f.before
  let tag := Text.trim (String.ofList f.tag)
  if isJsonTag tag then
    let source := Text.trim (String.ofList f.interior)
    match value? source with
    | some data => pure (b.addFence messageId source data)
    | none => do
        Noted.say <| Note.debug
          "legacy json fence did not parse, kept as text"
          [("message_id", messageId)]
        return b.addProse f.whole
  else do
    Noted.say <| Note.debug "legacy non-json fence dropped"
      [("message_id", messageId), ("tag", tag)]
    return b

/- The blocks of a text, behind those found so far. -/
def build
    (messageId : String)
    (b : Builder)
    (cs : List Char) : Noted Builder :=
  match _h : nextFence? cs with
  | none => pure ((b.addProse cs).flush messageId)
  | some f => do
      let next ← addFence messageId b f
      build messageId next f.rest
termination_by cs.length
decreasing_by exact length_of_nextFence? (by assumption)

/- The blocks of the text of a message. -/
def blocksOf
    (messageId content : String) : Noted (List Block) :=
  Builder.blocks <$> build messageId .empty content.toList

end Legacy

end AnswerStream
