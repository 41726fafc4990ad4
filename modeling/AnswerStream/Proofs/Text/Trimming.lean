import AnswerStream.Splitter.Buffer
import AnswerStream.Json.Completion
import Mathlib.Data.List.DropRight
import Mathlib.Data.List.TakeWhile

/-
  This file proves what trimming leaves: a trimmed text is not
  trimmed further, only blank text is trimmed to nothing, and
  the best reading of a text is that of the trimmed one. The
  bytes of a text are those of its characters.

  Main statements:
    * `Text.trim_trim`
    * `Text.trim_isEmpty_iff`
    * `Text.trim_prefix_append`
    * `Json.partialValue?_trim`
    * `utf8ByteSize_ofList`
-/

namespace AnswerStream

namespace Text

------------------------------------------------------------
-- Visible Characters
------------------------------------------------------------

/- What ASCII has behind the space is visible. -/
theorem isBlank_of_ascii
    {c : Char}
    (hLow : 0x20 < c.toNat)
    (hHigh : c.toNat < 0x85) :
    isBlank c = false := by
  simp only [isBlank, blankRanges, List.any_cons, List.any_nil,
    Bool.or_eq_false_iff, Bool.and_eq_false_iff,
    decide_eq_false_iff_not, and_true]
  omega

theorem isBlank_of_isDigit
    {c : Char}
    (hDigit : c.isDigit = true) :
    isBlank c = false := by
  simp only [Char.isDigit, Bool.and_eq_true, decide_eq_true_eq,
    ge_iff_le, UInt32.le_iff_toNat_le] at hDigit
  have hBounds : 48 ≤ c.toNat ∧ c.toNat ≤ 57 := hDigit
  exact isBlank_of_ascii (by omega) (by omega)

theorem isBlank_of_isAlpha
    {c : Char}
    (hAlpha : c.isAlpha = true) :
    isBlank c = false := by
  have hRanges :
      (decide (c.val ≥ 65 ∧ c.val ≤ 90) ||
          c.val ≥ 97 && c.val ≤ 122) =
        true := hAlpha
  simp only [Bool.or_eq_true, Bool.and_eq_true, decide_eq_true_eq,
    ge_iff_le, UInt32.le_iff_toNat_le] at hRanges
  have hBounds :
      (65 ≤ c.toNat ∧ c.toNat ≤ 90) ∨
        (97 ≤ c.toNat ∧ c.toNat ≤ 122) := hRanges
  exact isBlank_of_ascii (by omega) (by omega)

------------------------------------------------------------
-- Trimming
------------------------------------------------------------

theorem dropBlankEnd_eq (cs : List Char) :
    dropBlankEnd cs = cs.rdropWhile isBlank :=
  rfl

/- What is trimmed behind is white space. -/
theorem exists_blank_behind (cs : List Char) :
    ∃ blanks,
      cs = dropBlankEnd cs ++ blanks ∧
        ∀ c ∈ blanks, isBlank c = true :=
  ⟨cs.rtakeWhile isBlank,
    List.rdropWhile_append_rtakeWhile.symm,
    fun _ => List.mem_rtakeWhile_imp⟩

/- Only what stands before a visible character is in front. -/
theorem dropBlank_append_visible
    {c : Char}
    (hVisible : isBlank c = false)
    (cs ds : List Char) :
    dropBlank (cs ++ c :: ds) = dropBlank cs ++ c :: ds := by
  unfold dropBlank
  induction cs with
  | nil =>
      rw [List.nil_append, List.dropWhile_cons, hVisible]
      rfl
  | cons b cs ih =>
      rw [List.cons_append, List.dropWhile_cons, List.dropWhile_cons]
      split
      · exact ih
      · rfl

/- Only what stands behind one is behind. -/
theorem dropBlankEnd_append_visible
    {c : Char}
    (hVisible : isBlank c = false)
    (cs ds : List Char) :
    dropBlankEnd (cs ++ c :: ds) = cs ++ c :: dropBlankEnd ds := by
  have hReverse :=
    dropBlank_append_visible hVisible ds.reverse cs.reverse
  have hParts :
      (cs ++ c :: ds).reverse = ds.reverse ++ c :: cs.reverse := by
    simp
  unfold dropBlankEnd
  rw [hParts]
  change (dropBlank (ds.reverse ++ c :: cs.reverse)).reverse = _
  rw [hReverse]
  simp [dropBlank]

/- Nothing is trimmed behind a visible character. -/
theorem dropBlankEnd_concat
    {c : Char}
    (hVisible : isBlank c = false)
    (cs : List Char) :
    dropBlankEnd (cs ++ [c]) = cs ++ [c] :=
  dropBlankEnd_append_visible hVisible cs []

/- So both sides are trimmed apart. -/
theorem toList_trim_of_visible
    {s : String}
    {c : Char}
    {cs ds : List Char}
    (hVisible : isBlank c = false)
    (hParts : s.toList = cs ++ c :: ds) :
    (trim s).toList = dropBlank cs ++ c :: dropBlankEnd ds := by
  rw [toList_trim, hParts, dropBlank_append_visible hVisible,
    dropBlankEnd_append_visible hVisible]

/- Blank text is trimmed to nothing. -/
theorem dropBlankEnd_of_blank
    {cs : List Char}
    (hBlank : ∀ c ∈ cs, isBlank c = true) :
    dropBlankEnd cs = [] :=
  List.rdropWhile_eq_nil_iff.mpr hBlank

/- A trimmed text that is not empty ends with a visible character. -/
theorem exists_visible_end
    {s : String}
    (hSome : (trim s).toList ≠ []) :
    ∃ body c,
      (trim s).toList = body ++ [c] ∧ isBlank c = false := by
  rw [toList_trim] at hSome ⊢
  refine
    ⟨_, _, (List.dropLast_append_getLast hSome).symm, ?_⟩
  have hVisible :=
    List.rdropWhile_last_not isBlank (dropBlank s.toList) hSome
  exact Bool.not_eq_true _ ▸ hVisible

/- It begins with one. -/
theorem isBlank_of_head?_trim
    {s : String}
    {c : Char}
    (hHead : (trim s).toList.head? = some c) :
    isBlank c = false := by
  rw [toList_trim] at hHead
  rcases List.head?_eq_some_iff.mp hHead with ⟨rest, hRest⟩
  rcases List.rdropWhile_prefix isBlank (dropBlank s.toList) with
    ⟨blanks, hParts⟩
  have hFirst : (s.toList.dropWhile isBlank).head? = some c := by
    change (dropBlank s.toList).head? = some c
    rw [← hParts, ← dropBlankEnd_eq, hRest]
    rfl
  have hVisible := List.head?_dropWhile_not isBlank s.toList
  rwa [hFirst] at hVisible

/- What is trimmed behind starts as it did. -/
theorem dropBlank_dropBlankEnd
    {cs : List Char}
    (hStart : dropBlank cs = cs) :
    dropBlank (dropBlankEnd cs) = dropBlankEnd cs := by
  unfold dropBlank at hStart ⊢
  rw [List.dropWhile_eq_self_iff] at hStart ⊢
  intro hLength
  have hPrefix : dropBlankEnd cs <+: cs :=
    List.rdropWhile_prefix isBlank cs
  have hLonger : 0 < cs.length :=
    Nat.lt_of_lt_of_le hLength hPrefix.length_le
  rw [hPrefix.getElem hLength]
  exact hStart hLonger

/- A trimmed text is not trimmed further. -/
theorem trim_trim (s : String) :
    trim (trim s) = trim s := by
  apply String.toList_injective
  rw [toList_trim, toList_trim, dropBlank_dropBlankEnd]
  · exact List.rdropWhile_idempotent isBlank _
  · exact List.dropWhile_idempotent isBlank _

/- Nor is it trimmed further behind. -/
theorem trimEnd_trim (s : String) :
    trimEnd (trim s) = trim s := by
  apply String.toList_injective
  rw [trimEnd, String.toList_ofList, toList_trim]
  exact List.rdropWhile_idempotent isBlank _

/- Only blank text is trimmed to nothing. -/
theorem trim_isEmpty_iff (s : String) :
    (trim s).isEmpty = true ↔
      ∀ c ∈ s.toList, isBlank c = true := by
  rw [String.isEmpty_iff, trim, String.ofList_eq_empty_iff,
    dropBlankEnd_eq, List.rdropWhile_eq_nil_iff]
  constructor
  · intro hRest
    have hNone : dropBlank s.toList = [] := by
      by_contra hSome
      have hFirst :=
        List.head_dropWhile_not isBlank hSome
      have hBlank :=
        hRest _ (List.head_mem hSome)
      exact absurd hBlank (by simp [dropBlank, hFirst])
    exact List.dropWhile_eq_nil_iff.mp hNone
  · intro hAll c hMember
    exact hAll c (List.dropWhile_subset isBlank hMember)

/- Text that goes on after something visible is not blank. -/
theorem trim_append_isEmpty
    {s : String}
    (hSome : (trim s).isEmpty = false)
    (t : String) :
    (trim (s ++ t)).isEmpty = false := by
  rw [← Bool.not_eq_true, trim_isEmpty_iff] at hSome ⊢
  intro hAll
  apply hSome
  intro c hMember
  apply hAll
  rw [String.toList_append]
  exact List.mem_append_left _ hMember

/- Text that is not blank has a last visible character. -/
theorem exists_last_visible
    {s : String}
    (hSome : (trim s).isEmpty = false) :
    ∃ cs c blanks,
      s.toList = cs ++ c :: blanks ∧ isBlank c = false ∧
        ∀ b ∈ blanks, isBlank b = true := by
  rcases exists_blank_behind s.toList with
    ⟨blanks, hParts, hBlank⟩
  have hVisible : dropBlankEnd s.toList ≠ [] := by
    intro hNone
    rw [hNone, List.nil_append] at hParts
    rw [← hParts, ← trim_isEmpty_iff, hSome] at hBlank
    cases hBlank
  have hLast := List.rdropWhile_last_not isBlank s.toList hVisible
  rcases List.eq_nil_or_concat (dropBlankEnd s.toList) with
    hNone | ⟨cs, c, hConcat⟩
  · exact absurd hNone hVisible
  · rw [hConcat, List.concat_append] at hParts
    refine ⟨cs, c, blanks, hParts, ?_, hBlank⟩
    rw [dropBlankEnd_eq] at hConcat
    simpa [hConcat] using hLast

/- What is visible of a text stays as it is if it goes on. -/
theorem trim_prefix_append
    {s : String}
    (hSome : (trim s).isEmpty = false)
    (t : String) :
    (trim s).toList <+: (trim (s ++ t)).toList := by
  rcases exists_last_visible hSome with
    ⟨cs, c, blanks, hParts, hVisible, hBlank⟩
  have hBoth :
      (s ++ t).toList = cs ++ c :: (blanks ++ t.toList) := by
    rw [String.toList_append, hParts, List.append_assoc,
      List.cons_append]
  rw [toList_trim_of_visible hVisible hParts,
    toList_trim_of_visible hVisible hBoth,
    dropBlankEnd_of_blank hBlank]
  exact
    (List.prefix_append_right_inj _).mpr <|
      (List.prefix_cons_inj c).mpr List.nil_prefix

end Text

------------------------------------------------------------
-- Reading Trimmed Text
------------------------------------------------------------

/- White space around a text does not change its best reading. -/
theorem Json.partialValue?_trim (s : String) :
    Json.partialValue? (Text.trim s) = Json.partialValue? s := by
  unfold Json.partialValue?
  rw [Text.trim_trim]

/- Blank text has no reading. -/
theorem Json.trim_isEmpty_of_partialValue?
    {s : String}
    {v : Json.Value}
    (hValue : Json.partialValue? s = some v) :
    (Text.trim s).isEmpty = false := by
  unfold Json.partialValue? at hValue
  by_contra hEmpty
  rw [Bool.not_eq_false] at hEmpty
  simp [hEmpty] at hValue

/- The value of a trimmed text is its best reading. -/
theorem Json.partialValue?_of_value?
    {s : String}
    {v : Json.Value}
    (hValue : Json.value? (Text.trim s) = some v) :
    Json.partialValue? s = some v := by
  have hSome : (Text.trim s).isEmpty = false := by
    cases hBlank : (Text.trim s).isEmpty with
    | false => rfl
    | true =>
        rw [String.isEmpty_iff.mp hBlank] at hValue
        cases hValue
  unfold Json.partialValue?
  simp [hSome, hValue]

------------------------------------------------------------
-- Bytes
------------------------------------------------------------

@[simp] theorem byteCount_nil :
    byteCount [] = 0 :=
  rfl

@[simp] theorem byteCount_cons
    (c : Char)
    (cs : List Char) :
    byteCount (c :: cs) = c.utf8Size + byteCount cs :=
  rfl

@[simp] theorem byteCount_append (cs ds : List Char) :
    byteCount (cs ++ ds) = byteCount cs + byteCount ds := by
  induction cs with
  | nil => simp
  | cons c cs ih =>
      rw [List.cons_append, byteCount_cons, ih, byteCount_cons,
        Nat.add_assoc]

/- Characters can be counted up to one of them and behind it. -/
theorem byteCount_append_cons
    (cs : List Char)
    (c : Char)
    (ds : List Char) :
    byteCount (cs ++ c :: ds) =
      byteCount (cs ++ [c]) + byteCount ds := by
  rw [← byteCount_append, List.append_assoc,
    List.singleton_append]

/- The bytes of a text are those of its characters. -/
theorem utf8ByteSize_ofList (cs : List Char) :
    (String.ofList cs).utf8ByteSize = byteCount cs := by
  induction cs with
  | nil => rfl
  | cons c cs ih =>
      rw [← List.singleton_append, String.ofList_append,
        String.utf8ByteSize_append, ih, byteCount_append]
      congr 1
      simp [byteCount]

theorem byteCount_toList (s : String) :
    byteCount s.toList = s.utf8ByteSize := by
  rw [← utf8ByteSize_ofList, String.ofList_toList]

end AnswerStream
