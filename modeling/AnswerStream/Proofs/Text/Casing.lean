import AnswerStream.History.Legacy
import AnswerStream.Proofs.Splitter.Layout

/-
  This file proves that the tag of a fence of JSON is told in
  two ways alike: by its lower case, and by its letters in any
  case of ASCII. A letter that only ASCII writes comes from no
  other capital, and no other character becomes more than one
  with it in front.

  Key definitions include:
    * `Text.PlainLetter`

  Main statements:
    * `Text.lowerChar_eq_cons_iff`
    * `Text.lowerFrom_eq_iff`
    * `Layout.isJsonTag_eq`
-/

namespace AnswerStream

namespace Text

------------------------------------------------------------
-- Characters
------------------------------------------------------------

/-
  A small letter of ASCII that is no small letter of a capital
  beyond ASCII: all other runs of capitals have theirs
  elsewhere.
-/
structure PlainLetter (d : Char) : Prop where
  small : 0x61 ≤ d.toNat ∧ d.toNat ≤ 0x7A
  dotless : d ≠ 'i'
  capital :
    ∀ r ∈ lowerRanges,
      (r.first = 0x41 ∧ r.last = 0x5A ∧ r.distance = 32) ∨
        (d.toNat : Int) < r.first + r.distance ∨
        r.last + r.distance < (d.toNat : Int)

theorem plainLetter_of_json :
    ∀ d ∈ ['j', 's', 'o', 'n'], PlainLetter d := by
  intro d hMember
  simp only [List.mem_cons, List.not_mem_nil, or_false] at hMember
  rcases hMember with rfl | rfl | rfl | rfl <;>
    exact ⟨by decide, by decide, by decide +kernel⟩

/- No small letter of ASCII is a capital. -/
theorem small_not_capital :
    ∀ r ∈ lowerRanges, r.last < 0x61 ∨ 0x7A < r.first := by
  decide +kernel

/- The small letter of a capital of ASCII is 32 places behind. -/
theorem toNat_toLower (c : Char) :
    c.toLower.toNat =
      if 0x41 ≤ c.toNat ∧ c.toNat ≤ 0x5A then c.toNat + 32
      else c.toNat := by
  have hCapital :
      (c.val ≥ 'A'.val ∧ c.val ≤ 'Z'.val) ↔
        0x41 ≤ c.toNat ∧ c.toNat ≤ 0x5A := by
    rw [ge_iff_le, UInt32.le_iff_toNat_le,
      UInt32.le_iff_toNat_le]
    exact Iff.rfl
  unfold Char.toLower
  by_cases hIn : c.val ≥ 'A'.val ∧ c.val ≤ 'Z'.val
  · have hBounds := hCapital.mp hIn
    rw [dif_pos hIn, if_pos hBounds, Char.toNat_mk,
      UInt32.toNat_add]
    change (c.toNat + 32) % UInt32.size = _
    exact Nat.mod_eq_of_lt (by unfold UInt32.size; omega)
  · rw [dif_neg hIn, if_neg fun hBounds => hIn (hCapital.mpr hBounds)]

/- A character is known from its code point, if that is not 0. -/
theorem toNat_of_ofNat
    {n : Nat}
    {d : Char}
    (hChar : Char.ofNat n = d)
    (hSome : d.toNat ≠ 0) :
    n = d.toNat := by
  unfold Char.ofNat at hChar
  by_cases hValid : n.isValidChar
  · rw [dif_pos hValid] at hChar
    rw [← hChar]
    rfl
  · rw [dif_neg hValid] at hChar
    rw [← hChar] at hSome
    exact absurd rfl hSome

/- A run of capitals that is found holds the code point. -/
theorem bounds_of_lowerRange?
    {n : Nat}
    {r : LowerRange}
    (hFound : lowerRange? n = some r) :
    r ∈ lowerRanges ∧ r.first ≤ n ∧ n ≤ r.last := by
  have hHolds := List.find?_some hFound
  simp only [Bool.and_eq_true, decide_eq_true_eq] at hHolds
  exact
    ⟨List.mem_of_find?_eq_some hFound, hHolds.1.1, hHolds.1.2⟩

/- The capitals of ASCII are found first. -/
theorem lowerRange?_of_capital
    {n : Nat}
    (hCapital : 0x41 ≤ n ∧ n ≤ 0x5A) :
    lowerRange? n = some ⟨0x41, 0x5A, 1, 32⟩ := by
  unfold lowerRange? lowerRanges
  rw [List.find?_cons_of_pos]
  simp [hCapital, Nat.mod_one]

/- A small letter of ASCII is found nowhere. -/
theorem lowerRange?_of_small
    {n : Nat}
    (hSmall : 0x61 ≤ n ∧ n ≤ 0x7A) :
    lowerRange? n = none := by
  cases hFound : lowerRange? n with
  | none => rfl
  | some r =>
      rcases bounds_of_lowerRange? hFound with
        ⟨hMember, hFirst, hLast⟩
      rcases small_not_capital r hMember with hBelow | hAbove
      · omega
      · omega

/-
  The lower case of a character begins with a plain letter just
  if the character is this letter in ASCII, and then it is no
  more than that.
-/
theorem lowerChar_eq_cons_iff
    {d : Char}
    (hPlain : PlainLetter d)
    (c : Char)
    (more : List Char) :
    lowerChar c = d :: more ↔ c.toLower = d ∧ more = [] := by
  have hSmall := hPlain.small
  have hLower := toNat_toLower c
  unfold lowerChar
  by_cases hDotted : c.toNat = 0x130
  · rw [if_pos hDotted]
    rw [if_neg (by omega)] at hLower
    constructor
    · intro hSame
      exact absurd (List.cons.inj hSame).1.symm hPlain.dotless
    · rintro ⟨rfl, _⟩
      omega
  · rw [if_neg hDotted]
    by_cases hCapital : 0x41 ≤ c.toNat ∧ c.toNat ≤ 0x5A
    · rw [if_pos hCapital] at hLower
      have hPlace :
          ((c.toNat : Int) + 32).toNat = c.toLower.toNat := by
        omega
      rw [lowerRange?_of_capital hCapital]
      dsimp only
      rw [hPlace, Char.ofNat_toNat, List.cons.injEq, eq_comm (a := [])]
    · rw [if_neg hCapital, Char.toNat_inj] at hLower
      rw [hLower]
      cases hFound : lowerRange? c.toNat with
      | none => simp [eq_comm]
      | some r =>
          rcases bounds_of_lowerRange? hFound with
            ⟨hMember, hFirst, hLast⟩
          constructor
          · intro hSame
            have hPlace :=
              toNat_of_ofNat (List.cons.inj hSame).1 (by omega)
            rcases hPlain.capital r hMember with
              ⟨hA, hZ, _⟩ | hBelow | hAbove
            · omega
            · omega
            · omega
          · rintro ⟨rfl, _⟩
            rw [lowerRange?_of_small hSmall] at hFound
            cases hFound

/- What becomes of a character in lower case. -/
def lowerPiece
    (before : List Char)
    (c : Char)
    (rest : List Char) : List Char :=
  if c = 'Σ' then
    if endsWord before rest then ['ς'] else ['σ']
  else
    lowerChar c

theorem lowerPiece_eq_cons_iff
    {d : Char}
    (hPlain : PlainLetter d)
    (before : List Char)
    (c : Char)
    (rest more : List Char) :
    lowerPiece before c rest = d :: more ↔
      c.toLower = d ∧ more = [] := by
  have hSmall := hPlain.small
  unfold lowerPiece
  by_cases hSigma : c = 'Σ'
  · subst hSigma
    have hNot : ∀ e : Char, 0x7A < e.toNat → e ≠ d := by
      rintro e hBeyond rfl
      omega
    rw [if_pos rfl]
    constructor
    · intro hSame
      split at hSame
      · exact absurd (List.cons.inj hSame).1 (hNot 'ς' (by decide))
      · exact absurd (List.cons.inj hSame).1 (hNot 'σ' (by decide))
    · rintro ⟨hSame, _⟩
      exact absurd hSame (hNot 'Σ' (by decide))
  · rw [if_neg hSigma]
    exact lowerChar_eq_cons_iff hPlain c more

/- Something becomes of each character. -/
theorem lowerPiece_ne_nil
    (before : List Char)
    (c : Char)
    (rest : List Char) :
    lowerPiece before c rest ≠ [] := by
  unfold lowerPiece lowerChar
  split
  · split <;> simp
  · split
    · simp
    · split <;> simp

------------------------------------------------------------
-- Texts
------------------------------------------------------------

/- The lower case of a text is plain just if it is so in ASCII. -/
theorem lowerFrom_eq_iff
    {ds : List Char}
    (hPlain : ∀ d ∈ ds, PlainLetter d)
    (before cs : List Char) :
    lowerFrom before cs = ds ↔ cs.map Char.toLower = ds := by
  induction cs generalizing before ds with
  | nil => rfl
  | cons c cs ih =>
      change
        lowerPiece before c cs ++ lowerFrom (c :: before) cs = ds ↔
          _
      rcases hFirst : lowerPiece before c cs with _ | ⟨e, more⟩
      · exact absurd hFirst (lowerPiece_ne_nil before c cs)
      · cases ds with
        | nil => simp
        | cons d ds =>
            have hHead := hPlain d List.mem_cons_self
            have hRest :=
              ih (fun f hMember =>
                hPlain f (List.mem_cons_of_mem d hMember))
                (c :: before)
            have hPiece :=
              lowerPiece_eq_cons_iff hHead before c cs
            rw [hFirst] at hPiece
            rw [List.map_cons, List.cons_append,
              List.cons.injEq, List.cons.injEq]
            constructor
            · rintro ⟨rfl, hBehind⟩
              rcases (hPiece more).mp rfl with ⟨hLetter, rfl⟩
              exact ⟨hLetter, hRest.mp hBehind⟩
            · rintro ⟨hLetter, hBehind⟩
              have hSame := (hPiece []).mpr ⟨hLetter, rfl⟩
              cases hSame
              exact ⟨rfl, hRest.mpr hBehind⟩

end Text

/- Both ways to tell the tag of a fence of JSON agree. -/
theorem Layout.isJsonTag_eq (tag : List Char) :
    Layout.isJsonTag tag =
      Legacy.isJsonTag (Text.trim (String.ofList tag)) := by
  rw [Bool.eq_iff_iff]
  unfold Layout.isJsonTag Legacy.isJsonTag Text.lower
  rw [beq_iff_eq, beq_iff_eq,
    ← Text.lowerFrom_eq_iff Text.plainLetter_of_json []]
  constructor
  · intro hSame
    have hChars := congrArg String.toList hSame
    rwa [String.toList_ofList] at hChars
  · intro hSame
    rw [hSame]

end AnswerStream
