import AnswerStream.Proofs.Splitter.Overflowing

/-
  This file proves what a splitter keeps of its prose. However
  small the caps are, the buffers keep to them. What is kept is
  the end of the prose since the last fence of JSON, and each
  cut in front of it is made where `Cut` says: behind white
  space if there is any that may go, with no more left than may
  stay. A cut changes the prose, and nothing else.

  Key definitions include:
    * `Cut`
    * `Takes`
    * `TakesAll`
    * `Splitter.proseAt`
    * `Splitter.proseUses`

  Main statements:
    * `cut_shorten`
    * `Splitter.step_takes`
    * `Splitter.follows_uses`
    * `buffers_keep_to_caps`
-/

namespace AnswerStream

open Layout (ticks)

------------------------------------------------------------
-- Cuts
------------------------------------------------------------

/-
  A character of a text with what is before it, that starts at
  an offset or behind it.
-/
def StartsFrom
    (full : String)
    (offset : Nat)
    (before : String)
    (c : Char) : Prop :=
  offset ≤ before.utf8ByteSize ∧
    ∃ after, full = before.push c ++ after

/-
  A text is cut between two characters, so that not more bytes
  are left than may be kept. If a blank character starts where
  the last of so many bytes start, or behind, then it is cut
  behind the first one of these; else it is cut before the first
  character that starts there.
-/
structure Cut
    (kept : Nat)
    (full front rest : String) : Prop where
  parts : full = front ++ rest
  small : rest.utf8ByteSize ≤ kept
  blank :
    ∀ before c,
      StartsFrom full (full.utf8ByteSize - kept) before c →
      Text.isBlank c = true →
      ∃ start d,
        front = String.push start d ∧
        full.utf8ByteSize - kept ≤ start.utf8ByteSize ∧
        Text.isBlank d = true
  first :
    ∀ before c,
      StartsFrom full (full.utf8ByteSize - kept) before c →
      Text.isBlank c = true →
      front.utf8ByteSize ≤ (before.push c).utf8ByteSize
  word :
    (∀ before c,
      StartsFrom full (full.utf8ByteSize - kept) before c →
      Text.isBlank c = false) →
    ∀ before c,
      StartsFrom full (full.utf8ByteSize - kept) before c →
      front.utf8ByteSize ≤ before.utf8ByteSize

/- Without bytes there are no characters. -/
theorem eq_nil_of_byteCount
    {cs : List Char}
    (hBytes : byteCount cs = 0) :
    cs = [] := by
  cases cs with
  | nil => rfl
  | cons c cs =>
      have hSome := c.utf8Size_pos
      rw [byteCount_cons] at hBytes
      omega

/- The bytes of a front tell where it ends. -/
theorem eq_of_byteCount_front
    {front rest front' rest' : List Char}
    (hParts : front ++ rest = front' ++ rest')
    (hBytes : byteCount front = byteCount front') :
    rest = rest' := by
  rcases List.append_eq_append_iff.mp hParts with
    ⟨between, hFront, hRest⟩ | ⟨between, hFront, hRest⟩
  · rw [hFront, byteCount_append] at hBytes
    have hNone : between = [] := eq_nil_of_byteCount (by omega)
    rw [hRest, hNone, List.nil_append]
  · rw [hFront, byteCount_append] at hBytes
    have hNone : between = [] := eq_nil_of_byteCount (by omega)
    rw [hRest, hNone, List.nil_append]

namespace Cut

variable {kept : Nat} {full front rest front' rest' : String}

/- No cut leaves more than another one. -/
theorem front_le
    (hCut : Cut kept full front rest)
    (hOther : Cut kept full front' rest') :
    front.utf8ByteSize ≤ front'.utf8ByteSize := by
  have hSize := congrArg String.utf8ByteSize hOther.parts
  rw [String.utf8ByteSize_append] at hSize
  have hSmall := hOther.small
  by_cases hSome :
      ∃ before c,
        StartsFrom full (full.utf8ByteSize - kept) before c ∧
          Text.isBlank c = true
  · rcases hSome with ⟨before, c, hStarts, hBlank⟩
    rcases hOther.blank before c hStarts hBlank with
      ⟨start, d, hFront, hFar, hSpace⟩
    rw [hFront] at hOther ⊢
    exact hCut.first start d ⟨hFar, rest', hOther.parts⟩ hSpace
  · have hNone :
        ∀ before c,
          StartsFrom full (full.utf8ByteSize - kept) before c →
          Text.isBlank c = false := by
      intro before c hStarts
      exact
        Bool.of_not_eq_true fun hBlank =>
          hSome ⟨before, c, hStarts, hBlank⟩
    cases hRest : rest'.toList with
    | nil =>
        have hParts := congrArg String.utf8ByteSize hCut.parts
        rw [String.utf8ByteSize_append] at hParts
        rw [String.toList_eq_nil_iff.mp hRest] at hSize
        have hEmpty : "".utf8ByteSize = 0 := rfl
        omega
    | cons c cs =>
        refine
          hCut.word hNone front' c
            ⟨by omega, String.ofList cs,
              String.toList_injective ?_⟩
        rw [hOther.parts]
        simp [hRest]

/- A text is cut in one way only. -/
theorem unique
    (hCut : Cut kept full front rest)
    (hOther : Cut kept full front' rest') :
    rest = rest' := by
  have hBytes :=
    Nat.le_antisymm (hCut.front_le hOther) (hOther.front_le hCut)
  rw [← byteCount_toList front, ← byteCount_toList front']
    at hBytes
  have hParts :=
    congrArg String.toList (hCut.parts.symm.trans hOther.parts)
  rw [String.toList_append, String.toList_append] at hParts
  exact
    String.toList_injective (eq_of_byteCount_front hParts hBytes)

end Cut

/-
  Characters are split where those end that start before an
  offset.
-/
structure Near
    (offset : Nat)
    (cs near tail : List Char) : Prop where
  parts : cs = near ++ tail
  far : offset ≤ byteCount near
  starts :
    ∀ before c after,
      near = before ++ c :: after →
        byteCount before < offset

/- What is left without some bytes are the characters behind. -/
theorem near_dropBytes
    {offset : Nat}
    {cs : List Char}
    (hOffset : offset ≤ byteCount cs) :
    ∃ near, Near offset cs near (dropBytes offset cs) := by
  induction cs generalizing offset with
  | nil =>
      refine ⟨[], ?_, hOffset, ?_⟩
      · cases offset <;> rfl
      · intro before c after hNear
        cases before <;> cases hNear
  | cons d cs ih =>
      cases offset with
      | zero =>
          refine ⟨[], rfl, Nat.zero_le _, ?_⟩
          intro before c after hNear
          cases before <;> cases hNear
      | succ n =>
          rw [byteCount_cons] at hOffset
          rcases @ih (n + 1 - d.utf8Size) (by omega) with
            ⟨near, hNear⟩
          refine ⟨d :: near, ?_, ?_, ?_⟩
          · rw [dropBytes, List.cons_append, ← hNear.parts]
          · have hFar := hNear.far
            rw [byteCount_cons]
            omega
          · intro before c after hBefore
            cases before with
            | nil => exact Nat.succ_pos n
            | cons e before =>
                rcases List.cons_eq_cons.mp hBefore with
                  ⟨hSame, hTail⟩
                have hStarts := hNear.starts before c after hTail
                rw [byteCount_cons, ← hSame]
                omega

namespace Near

variable {offset kept : Nat} {full : String}
variable {near tail : List Char}

/- A character that starts at the offset or behind is left. -/
theorem behind
    {before : String}
    {c : Char}
    (hNear : Near offset full.toList near tail)
    (hStarts : StartsFrom full offset before c) :
    ∃ between after,
      before.toList = near ++ between ∧
        tail = between ++ c :: after := by
  rcases hStarts with ⟨hFar, after, hFull⟩
  rw [← byteCount_toList before] at hFar
  have hParts :
      near ++ tail = before.toList ++ c :: after.toList := by
    rw [← hNear.parts, hFull]
    simp
  rcases List.append_eq_append_iff.mp hParts with
    ⟨between, hBefore, hTail⟩ | ⟨between, hFront, hTail⟩
  · exact ⟨between, after.toList, hBefore, hTail⟩
  · cases between with
    | nil =>
        refine ⟨[], after.toList, ?_, hTail.symm⟩
        rw [hFront, List.append_nil, List.append_nil]
    | cons d between =>
        have hBefore := hNear.starts before.toList d between hFront
        omega

/- Not more bytes are left than stay. -/
theorem small
    (hNear :
      Near (full.utf8ByteSize - kept) full.toList near tail) :
    byteCount tail ≤ kept := by
  have hSize := congrArg byteCount hNear.parts
  rw [byteCount_append, byteCount_toList] at hSize
  have hFar := hNear.far
  omega

/- Visible characters are all left. -/
theorem cut_of_visible
    (hNear :
      Near (full.utf8ByteSize - kept) full.toList near tail)
    (hVisible : ∀ c ∈ tail, Text.isBlank c = false) :
    Cut kept full (String.ofList near) (String.ofList tail) := by
  have hNone :
      ∀ before c,
        StartsFrom full (full.utf8ByteSize - kept) before c →
        Text.isBlank c = false := by
    intro before c hStarts
    rcases hNear.behind hStarts with ⟨between, after, _, hTail⟩
    exact hVisible c (by simp [hTail])
  refine ⟨String.toList_injective ?_, ?_, ?_, ?_, ?_⟩
  · simpa using hNear.parts
  · rw [utf8ByteSize_ofList]
    exact hNear.small
  · intro before c hStarts hBlank
    rw [hNone before c hStarts] at hBlank
    cases hBlank
  · intro before c hStarts hBlank
    rw [hNone before c hStarts] at hBlank
    cases hBlank
  · intro _ before c hStarts
    rcases hNear.behind hStarts with ⟨between, _, hBefore, _⟩
    rw [utf8ByteSize_ofList, ← byteCount_toList before, hBefore,
      byteCount_append]
    exact Nat.le_add_right _ _

/-
  The first blank character is where blank characters of a text
  may be from there on.
-/
theorem byteCount_first_le
    {word rest between after : List Char}
    {c d : Char}
    (hSame : word ++ d :: rest = between ++ c :: after)
    (hVisible : ∀ c ∈ word, Text.isBlank c = false)
    (hBlank : Text.isBlank c = true) :
    byteCount (word ++ [d]) ≤ byteCount (between ++ [c]) := by
  rcases List.append_eq_append_iff.mp hSame with
    ⟨more, hBetween, hTail⟩ | ⟨more, hWord, hTail⟩
  · cases more with
    | nil =>
        rw [hBetween, (List.cons_eq_cons.mp hTail).1,
          List.append_nil]
    | cons e more =>
        rw [hBetween, (List.cons_eq_cons.mp hTail).1]
        simp only [byteCount_append, byteCount_cons,
          byteCount_nil]
        omega
  · cases more with
    | nil =>
        rw [hWord, (List.cons_eq_cons.mp hTail).1,
          List.append_nil]
    | cons e more =>
        have hMember : c ∈ word := by
          rw [hWord, (List.cons_eq_cons.mp hTail).1]
          simp
        rw [hVisible c hMember] at hBlank
        cases hBlank

/- Else what is left is what stands behind a blank character. -/
theorem cut_of_blank
    {word rest : List Char}
    {d : Char}
    (hNear :
      Near (full.utf8ByteSize - kept) full.toList near
        (word ++ d :: rest))
    (hVisible : ∀ c ∈ word, Text.isBlank c = false)
    (hBlank : Text.isBlank d = true) :
    Cut kept full (String.ofList (near ++ (word ++ [d])))
      (String.ofList rest) := by
  have hSome :
      StartsFrom full (full.utf8ByteSize - kept)
        (String.ofList (near ++ word)) d := by
    refine ⟨?_, String.ofList rest, String.toList_injective ?_⟩
    · rw [utf8ByteSize_ofList, byteCount_append]
      exact Nat.le_add_right_of_le hNear.far
    · simpa using hNear.parts
  refine ⟨String.toList_injective ?_, ?_, ?_, ?_, ?_⟩
  · simpa using hNear.parts
  · have hSmall := hNear.small
    rw [byteCount_append, byteCount_cons] at hSmall
    rw [utf8ByteSize_ofList]
    omega
  · intro _ _ _ _
    refine
      ⟨String.ofList (near ++ word), d,
        String.toList_injective ?_, hSome.1, hBlank⟩
    simp
  · intro before c hStarts hHere
    rcases hNear.behind hStarts with
      ⟨between, after, hBefore, hTail⟩
    have hFirst := byteCount_first_le hTail hVisible hHere
    rw [String.utf8ByteSize_push, ← byteCount_toList before,
      hBefore, utf8ByteSize_ofList]
    simp only [byteCount_append, byteCount_cons,
      byteCount_nil] at hFirst ⊢
    omega
  · intro hNone
    rw [hNone _ d hSome] at hBlank
    cases hBlank

end Near

/-
  All that is left is visible, or it is cut behind the first
  blank character.
-/
theorem dropFront_cases
    (offset : Nat)
    (cs : List Char) :
    (dropFront offset cs = dropBytes offset cs ∧
        ∀ c ∈ dropBytes offset cs, Text.isBlank c = false) ∨
      ∃ word d,
        dropBytes offset cs = word ++ d :: dropFront offset cs ∧
        (∀ c ∈ word, Text.isBlank c = false) ∧
        Text.isBlank d = true := by
  have hParts :=
    List.takeWhile_append_dropWhile
      (p := fun c => !Text.isBlank c)
      (l := dropBytes offset cs)
  have hVisible :
      ∀ c ∈
        (dropBytes offset cs).takeWhile
          fun c => !Text.isBlank c,
        Text.isBlank c = false := by
    intro c hMember
    simpa using List.mem_takeWhile_imp hMember
  unfold dropFront
  dsimp only
  cases hBehind :
      (dropBytes offset cs).dropWhile
        fun c => !Text.isBlank c with
  | nil =>
      rw [hBehind, List.append_nil] at hParts
      rw [hParts] at hVisible
      exact .inl ⟨rfl, hVisible⟩
  | cons d after =>
      rw [hBehind] at hParts
      have hHead :=
        List.head?_dropWhile_not
          (fun c => !Text.isBlank c) (dropBytes offset cs)
      rw [hBehind] at hHead
      exact .inr ⟨_, d, hParts.symm, hVisible, by simpa using hHead⟩

/- A text is shortened by a cut. -/
theorem cut_shorten
    (limits : Limits)
    (full : String) :
    ∃ front, Cut limits.kept full front (shorten limits full) := by
  have hOffset :
      full.utf8ByteSize - limits.kept ≤ byteCount full.toList := by
    rw [byteCount_toList]
    exact Nat.sub_le _ _
  rcases near_dropBytes hOffset with ⟨near, hNear⟩
  unfold shorten
  rcases dropFront_cases (full.utf8ByteSize - limits.kept)
      full.toList with
    ⟨hSame, hVisible⟩ | ⟨word, d, hRest, hVisible, hBlank⟩
  · rw [hSame]
    exact ⟨_, hNear.cut_of_visible hVisible⟩
  · rw [hRest] at hNear
    exact ⟨_, hNear.cut_of_blank hVisible hBlank⟩

------------------------------------------------------------
-- Prose That Is Taken
------------------------------------------------------------

/-
  Prose takes a character: behind it, and if there is no room
  for all of it then it is cut in front.
-/
inductive Takes
    (limits : Limits)
    (text : String)
    (c : Char) : String → Prop where
| whole
    (hFits : (text.push c).utf8ByteSize ≤ limits.text) :
    Takes limits text c (text.push c)
| shortened
    {front rest : String}
    (hFull : limits.text < (text.push c).utf8ByteSize)
    (hCut : Cut limits.kept (text.push c) front rest) :
    Takes limits text c rest

/- Prose takes characters one after the other. -/
inductive TakesAll
    (limits : Limits) :
    String → List Char → String → Prop where
| none (text : String) : TakesAll limits text [] text
| more
    {text next last : String}
    {c : Char}
    {cs : List Char}
    (hTakes : Takes limits text c next)
    (hRest : TakesAll limits next cs last) :
    TakesAll limits text (c :: cs) last

variable {limits : Limits} {text next last : String}
variable {c : Char} {cs ds : List Char}

/- The bytes that stay have room. -/
theorem Limits.kept_le (limits : Limits) :
    limits.kept ≤ limits.text :=
  Nat.sub_le _ _

/- There is room for what is taken. -/
theorem Takes.fits (hTakes : Takes limits text c next) :
    next.utf8ByteSize ≤ limits.text := by
  cases hTakes with
  | whole hFits => exact hFits
  | shortened hFull hCut =>
      exact Nat.le_trans hCut.small limits.kept_le

/- What is taken is the end of all that there was. -/
theorem Takes.suffix (hTakes : Takes limits text c next) :
    next.toList <:+ text.toList ++ [c] := by
  rw [← String.toList_push]
  cases hTakes with
  | whole hFits => exact List.suffix_refl _
  | shortened hFull hCut =>
      rw [hCut.parts, String.toList_append]
      exact List.suffix_append _ _

/- A character is taken in one way only. -/
theorem Takes.unique
    (hTakes : Takes limits text c next)
    (hOther : Takes limits text c last) :
    next = last := by
  cases hTakes with
  | whole hFits =>
      cases hOther with
      | whole _ => rfl
      | shortened hFull _ => omega
  | shortened hFull hCut =>
      cases hOther with
      | whole hFits => omega
      | shortened _ hSame => exact hCut.unique hSame

namespace TakesAll

/- So are several of them. -/
theorem unique
    (hAll : TakesAll limits text cs next)
    (hOther : TakesAll limits text cs last) :
    next = last := by
  induction hAll with
  | none text =>
      cases hOther
      rfl
  | more hTakes hRest ih =>
      cases hOther with
      | more hHere hSame =>
          rw [← hTakes.unique hHere] at hSame
          exact ih hSame

theorem trans
    (hFirst : TakesAll limits text cs next)
    (hSecond : TakesAll limits next ds last) :
    TakesAll limits text (cs ++ ds) last := by
  induction hFirst with
  | none text => exact hSecond
  | more hTakes hRest ih => exact .more hTakes (ih hSecond)

/- There is room for prose that takes more characters. -/
theorem fits
    (hAll : TakesAll limits text cs last)
    (hText : text.utf8ByteSize ≤ limits.text) :
    last.utf8ByteSize ≤ limits.text := by
  induction hAll with
  | none text => exact hText
  | more hTakes hRest ih => exact ih hTakes.fits

/- It is the end of all that was read. -/
theorem suffix (hAll : TakesAll limits text cs last) :
    last.toList <:+ text.toList ++ cs := by
  induction hAll with
  | none text => simp
  | @more text next last c cs hTakes hRest ih =>
      rcases hTakes.suffix with ⟨front, hFront⟩
      refine ih.trans ⟨front, ?_⟩
      rw [← List.append_assoc, hFront, List.append_assoc,
        List.singleton_append]

end TakesAll

namespace Splitter

variable {p q : Splitter} {read : List Char}

/- One more character of prose is taken. -/
theorem pushText_takes
    (p : Splitter)
    (c : Char) :
    ∃ text,
      Takes p.limits p.text c text ∧
        (p.pushText c).value = { p with text := text } := by
  unfold pushText
  dsimp only
  by_cases hFull :
      p.limits.text < (p.text.push c).utf8ByteSize
  · rw [if_pos hFull]
    rcases cut_shorten p.limits (p.text.push c) with
      ⟨front, hCut⟩
    exact ⟨_, .shortened hFull hCut, rfl⟩
  · rw [if_neg hFull]
    exact ⟨_, .whole (Nat.le_of_not_lt hFull), rfl⟩

/- So are more of them. -/
theorem pushTexts_takes
    (p : Splitter)
    (cs : List Char) :
    ∃ text,
      TakesAll p.limits p.text cs text ∧
        (p.pushTexts cs).value = { p with text := text } := by
  induction cs generalizing p with
  | nil => exact ⟨p.text, .none _, rfl⟩
  | cons c cs ih =>
      rcases p.pushText_takes c with ⟨next, hTakes, hNext⟩
      rcases ih { p with text := next } with
        ⟨last, hRest, hLast⟩
      refine ⟨last, .more hTakes hRest, ?_⟩
      rw [pushTexts, Noted.value_bind, hNext, hLast]

------------------------------------------------------------
-- Prose That Is Read
------------------------------------------------------------

/-
  The prose that a character completes: the backticks that were
  held back before it, and the character.
-/
def proseAt
    (p : Splitter)
    (c : Char) : List Char :=
  if c = tick then []
  else
    match p.mode with
    | .prose => [c]
    | .opening held => ticks held ++ [c]
    | _ => []

/- The character ends the tag of a fence of JSON. -/
def opensJson
    (p : Splitter)
    (c : Char) : Bool :=
  match p.mode with
  | .tag text => c == '\n' && Layout.isJsonTag text.toList
  | _ => false

/-
  The prose since the last fence of JSON, behind one more
  character.
-/
def proseBehind
    (p : Splitter)
    (read : List Char)
    (c : Char) : List Char :=
  if p.opensJson c then [] else read ++ p.proseAt c

/- Behind more of them, up to one that fails. -/
def proseRun
    (p : Splitter)
    (read : List Char) : List Char → List Char
  | [] => read
  | c :: cs =>
      let next := (p.step c).value
      if next.failure.isSome then p.proseBehind read c
      else next.splitter.proseRun (p.proseBehind read c) cs

/- Behind a use; a reset starts over. -/
def proseUse
    (p : Splitter)
    (read : List Char) : Use → List Char
  | .append chunk => p.proseRun read chunk.toList
  | .close => read
  | .reset => []

/-
  The prose that was read since the last fence of JSON and the
  last reset.
-/
def proseUses
    (p : Splitter)
    (read : List Char) : List Use → List Char
  | [] => read
  | u :: us =>
      (p.use u).splitter.proseUses (p.proseUse read u) us

theorem proseUses_concat
    (p : Splitter)
    (read : List Char)
    (us : List Use)
    (u : Use) :
    p.proseUses read (us ++ [u]) =
      (p.uses us).proseUse (p.proseUses read us) u := by
  induction us generalizing p read with
  | nil => rfl
  | cons v us ih => exact ih _ _

------------------------------------------------------------
-- Steps
------------------------------------------------------------

/-
  A character that completes some prose is taken with it, and
  nothing else changes but the mode.
-/
theorem step_takes (hProse : p.proseAt c ≠ []) :
    ∃ text,
      TakesAll p.limits p.text (p.proseAt c) text ∧
        (p.step c).value =
          .ok { p with text := text, mode := .prose } := by
  unfold proseAt at hProse ⊢
  by_cases hTick : c = tick
  · rw [if_pos hTick] at hProse
    exact absurd rfl hProse
  · rw [if_neg hTick] at hProse ⊢
    unfold step
    cases hMode : p.mode with
    | prose =>
        rcases p.pushText_takes c with ⟨text, hTakes, hText⟩
        refine ⟨text, .more hTakes (.none text), ?_⟩
        dsimp only
        rw [if_neg hTick]
        change Result.ok (p.pushText c).value = _
        rw [hText, ← hMode]
    | opening held =>
        rcases pushTexts_takes { p with mode := .prose }
            (ticks held ++ [c]) with ⟨text, hAll, hText⟩
        refine ⟨text, hAll, ?_⟩
        dsimp only
        rw [if_neg hTick]
        exact congrArg Result.ok hText
    | _ =>
        rw [hMode] at hProse
        exact absurd rfl hProse

/- The end of its line completes a tag. -/
theorem step_line_of_tag
    {tag : String}
    (hMode : p.mode = .tag tag) :
    (p.step '\n').value = .ok (p.openFence tag).value := by
  unfold step
  rw [hMode]
  simp only [if_true]
  rfl

/- Behind the tag of a fence of JSON there is no prose. -/
theorem step_text_of_opens (hOpens : p.opensJson c = true) :
    (p.step c).value.splitter.text = "" := by
  unfold opensJson at hOpens
  cases hMode : p.mode with
  | tag tag =>
      rw [hMode] at hOpens
      rcases Bool.and_eq_true_iff.mp hOpens with ⟨hLine, hTag⟩
      rw [beq_iff_eq.mp hLine, step_line_of_tag hMode,
        openFence_value, if_pos hTag]
      rfl
  | _ => simp [hMode] at hOpens

/- Characters of a fence are no prose. -/
theorem takeJson_text
    (p : Splitter)
    (cs : List Char)
    (mode : Mode) :
    (p.takeJson cs mode).value.splitter.text = p.text := by
  rcases takeJson_frame p cs mode with ⟨json, hOk | hFull⟩
  · rw [hOk]
    rfl
  · rw [hFull]

/- No character of an open fence of JSON is prose. -/
theorem step_text_of_json
    (hIn : p.inJson = true)
    (c : Char) :
    (p.step c).value.splitter.text = p.text := by
  cases hMode : p.mode with
  | json =>
      unfold step
      rw [hMode]
      dsimp only
      split
      · rfl
      · exact p.takeJson_text [c] .json
  | closing held =>
      by_cases hTick : c = tick
      · unfold step
        rw [hMode]
        dsimp only
        rw [if_pos hTick]
        split
        · exact p.closeFence_text
        · rfl
      · have hTicks := p.takeJson_text (ticks held) (.closing 0)
        rw [step_closing_value hMode hTick]
        dsimp only
        split
        · exact hTicks
        · exact (takeJson_text _ [c] .json).trans hTicks
  | _ => simp [inJson, hMode] at hIn

/- Neither is one of a tag, that of another fence included. -/
theorem step_text_of_tag
    {tag : String}
    (hMode : p.mode = .tag tag)
    (hOpens : p.opensJson c = false) :
    (p.step c).value.splitter.text = p.text := by
  unfold opensJson at hOpens
  rw [hMode] at hOpens
  by_cases hLine : c = '\n'
  · have hTag : ¬ Layout.isJsonTag tag.toList = true := by
      simpa [hLine] using hOpens
    rw [hLine, step_line_of_tag hMode, openFence_value,
      if_neg hTag]
    rfl
  · unfold step
    rw [hMode]
    dsimp only
    rw [if_neg hLine]
    rfl

/- A backtick is held back from the prose. -/
theorem eq_tick_of_no_prose
    (hNone : p.proseAt c = [])
    (hProse : p.mode = .prose ∨ ∃ held, p.mode = .opening held) :
    c = tick := by
  by_contra hOther
  unfold proseAt at hNone
  rcases hProse with hMode | ⟨held, hMode⟩ <;>
    simp [hMode, hOther] at hNone

/-
  A character that neither completes prose nor ends the tag of
  a fence of JSON leaves the prose alone.
-/
theorem step_text_of_other
    (hNone : p.proseAt c = [])
    (hOpens : p.opensJson c = false) :
    (p.step c).value.splitter.text = p.text := by
  cases hMode : p.mode with
  | prose =>
      have hTick := eq_tick_of_no_prose hNone (.inl hMode)
      unfold step
      rw [hMode]
      dsimp only
      rw [if_pos hTick]
      rfl
  | opening held =>
      have hTick := eq_tick_of_no_prose hNone (.inr ⟨_, hMode⟩)
      unfold step
      rw [hMode]
      dsimp only
      rw [if_pos hTick]
      split <;> rfl
  | tag tag => exact step_text_of_tag hMode hOpens
  | json => exact step_text_of_json (by simp [inJson, hMode]) c
  | closing held =>
      exact step_text_of_json (by simp [inJson, hMode]) c
  | other run =>
      unfold step
      rw [hMode]
      dsimp only
      split
      · split <;> rfl
      · rfl

------------------------------------------------------------
-- Uses
------------------------------------------------------------

/-
  A splitter with the given caps keeps to them, and has taken
  the prose that was read.
-/
structure Follows
    (limits : Limits)
    (read : List Char)
    (p : Splitter) : Prop where
  roomy : Roomy limits p
  taken : TakesAll limits "" read p.text

namespace Follows

/- Whatever a character is, it follows what is read. -/
theorem step
    (hFollows : Follows limits read p)
    (hHeld : p.mode.Held 0)
    (c : Char) :
    Follows limits (p.proseBehind read c)
      (p.step c).value.splitter := by
  refine ⟨hFollows.roomy.step hHeld c, ?_⟩
  unfold proseBehind
  by_cases hOpens : p.opensJson c = true
  · rw [if_pos hOpens, step_text_of_opens hOpens]
    exact .none ""
  · rw [if_neg hOpens]
    by_cases hNone : p.proseAt c = []
    · rw [hNone, List.append_nil,
        step_text_of_other hNone (Bool.of_not_eq_true hOpens)]
      exact hFollows.taken
    · rcases step_takes hNone with ⟨text, hAll, hStep⟩
      rw [hFollows.roomy.caps] at hAll
      rw [hStep]
      exact hFollows.taken.trans hAll

/- So do several of them. -/
theorem run
    {id : String}
    (hFollows : Follows limits read p)
    (hFormed : Formed id p)
    (cs : List Char) :
    Follows limits (p.proseRun read cs) (p.run cs).splitter := by
  induction cs generalizing p read with
  | nil => exact hFollows
  | cons c cs ih =>
      have hHere := hFollows.step hFormed.held c
      have hTouches := step_touches hFormed.held c
      unfold proseRun
      rcases hStep : (p.step c).value with ⟨next, failure⟩
      rw [hStep] at hHere hTouches
      cases failure with
      | none =>
          rw [run_cons_of_ok hStep]
          exact ih hHere (hTouches.formed hFormed)
      | some cause =>
          rw [run_cons_of_failure (by rw [hStep]; rfl), hStep]
          exact hHere

end Follows

/- However a splitter is used, it follows what is read. -/
theorem follows_uses
    (id : String)
    (limits : Limits)
    (us : List Use) :
    Follows limits ((start id limits).proseUses [] us)
      ((start id limits).uses us) := by
  induction us using List.reverseRecOn with
  | nil => exact ⟨roomy_of_empty rfl rfl, .none ""⟩
  | append_singleton us u ih =>
      rw [uses_concat, proseUses_concat]
      cases u with
      | append chunk =>
          exact ih.run (formed_uses id limits us) chunk.toList
      | close =>
          have hRoomy := roomy_uses id limits (us ++ [.close])
          rw [uses_concat] at hRoomy
          refine ⟨hRoomy, ?_⟩
          change
            TakesAll limits "" _
              ((start id limits).uses us).close.value.text
          rw [close_value]
          split
          · rw [closeFence_text]
            exact ih.taken
          · exact ih.taken
      | reset =>
          exact ⟨roomy_of_empty ih.roomy.caps rfl, .none ""⟩

end Splitter

/-
  Whatever the caps are and however a splitter is used, its
  buffers keep to their caps, and the prose that it has is the
  end of what was read since the last fence of JSON and the
  last reset: it took it one character after the other, and was
  cut in front wherever the next one had no room. A character
  that brings prose, and so any that leads to a cut, changes the
  prose and the mode, and neither a block nor a fence.
-/
theorem buffers_keep_to_caps
    (id : String)
    (limits : Limits)
    (us : List Splitter.Use) :
    let p := (Splitter.start id limits).uses us
    let read := (Splitter.start id limits).proseUses [] us
    p.text.utf8ByteSize ≤ limits.text ∧
      p.json.utf8ByteSize ≤ limits.structured ∧
      p.text.toList <:+ read ∧
      (∀ text, TakesAll limits "" read text ↔ text = p.text) ∧
      ∀ c, p.proseAt c ≠ [] →
        ∃ text,
          TakesAll limits p.text (p.proseAt c) text ∧
            (p.step c).value =
              .ok { p with text := text, mode := .prose } := by
  intro p read
  have hFollows := Splitter.follows_uses id limits us
  refine
    ⟨hFollows.taken.fits (Nat.zero_le _), hFollows.roomy.fits,
      hFollows.taken.suffix, ?_, ?_⟩
  · intro text
    constructor
    · intro hTaken
      exact hTaken.unique hFollows.taken
    · intro hText
      rw [hText]
      exact hFollows.taken
  · intro c hProse
    rcases Splitter.step_takes hProse with ⟨text, hAll, hStep⟩
    rw [hFollows.roomy.caps] at hAll
    exact ⟨text, hAll, hStep⟩

/-
  Prose is cut while backticks go back into it: there is no room
  for the second one, and a character that starts before the
  bytes that are kept is dropped as a whole.
-/
example :
    ((Splitter.start "p" ⟨4, 4⟩).uses
        [.append "a\u00e9\x60\x60", .append "\u00e9"]).text =
      "\x60\x60\u00e9" := by
  decide +kernel

end AnswerStream
