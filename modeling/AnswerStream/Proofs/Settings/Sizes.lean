import AnswerStream.Settings.Layers
import AnswerStream.Proofs.Text.Trimming

/-
  This file proves which texts are read as sizes. Such a text
  spells the size: it has its decimal digits, with any number of
  zeros in front of them, perhaps a plus sign in front of these,
  and any white space around it all.

  Key definitions include:
    * `Spells`

  Main statements:
    * `decimal?_eq_some_iff`
    * `parseSize?_eq_some_iff`
    * `parseInRange?_eq_some_iff`
-/

namespace AnswerStream

------------------------------------------------------------
-- Digits
------------------------------------------------------------

/- A digit is known from its value. -/
theorem digitChar_of_isDigit
    {c : Char}
    (hDigit : c.isDigit = true) :
    c.toNat - '0'.toNat < 10 ∧
      Nat.digitChar (c.toNat - '0'.toNat) = c := by
  rw [Char.isDigit_iff_toNat] at hDigit
  change 48 ≤ c.toNat ∧ c.toNat ≤ 57 at hDigit
  change c.toNat - 48 < 10 ∧ Nat.digitChar (c.toNat - 48) = c
  have hSmall : c.toNat - 48 < 10 := by omega
  refine ⟨hSmall, Char.toNat_inj.mp ?_⟩
  rw [Nat.toNat_digitChar_of_lt_ten hSmall]
  omega

/- Digits go on behind those of a number that is not zero. -/
theorem toDigits_append_eq
    {cs : List Char}
    {n : Nat}
    (hDigits : ∀ c ∈ cs, c.isDigit = true)
    (hPositive : 0 < n) :
    Nat.toDigits 10 n ++ cs =
      Nat.toDigits 10 (Nat.ofDigitChars 10 cs n) := by
  induction cs generalizing n with
  | nil => rw [List.append_nil, Nat.ofDigitChars_nil]
  | cons c cs ih =>
      rcases List.forall_mem_cons.mp hDigits with ⟨hFirst, hRest⟩
      rcases digitChar_of_isDigit hFirst with ⟨hSmall, hChar⟩
      have hNext :
          Nat.toDigits 10 n ++ [c] =
            Nat.toDigits 10 (10 * n + (c.toNat - '0'.toNat)) := by
        rw [← Nat.toDigits_append_toDigits (by decide) hPositive
            hSmall, Nat.toDigits_of_lt_base hSmall, hChar]
      rw [List.append_cons, hNext, ih hRest (by omega),
        Nat.ofDigitChars_cons]

/- Digits are those of their number behind some zeros. -/
theorem exists_zeros_of_digits
    {cs : List Char}
    (hDigits : ∀ c ∈ cs, c.isDigit = true)
    (hSome : cs ≠ []) :
    ∃ zeros,
      cs =
        List.replicate zeros '0' ++
          Nat.toDigits 10 (Nat.ofDigitChars 10 cs 0) := by
  induction cs with
  | nil => exact absurd rfl hSome
  | cons c cs ih =>
      rcases List.forall_mem_cons.mp hDigits with ⟨hFirst, hRest⟩
      rcases digitChar_of_isDigit hFirst with ⟨hSmall, hChar⟩
      rw [Nat.ofDigitChars_cons, Nat.mul_zero, Nat.zero_add]
      rcases Nat.eq_zero_or_pos (c.toNat - '0'.toNat) with
        hZero | hPositive
      · rw [hZero] at hChar ⊢
        subst hChar
        by_cases hLast : cs = []
        · exact ⟨0, by rw [hLast]; rfl⟩
        · rcases ih hRest hLast with ⟨zeros, hZeros⟩
          refine ⟨zeros + 1, ?_⟩
          rw [List.replicate_succ, List.cons_append, ← hZeros]
          rfl
      · refine ⟨0, ?_⟩
        rw [← toDigits_append_eq hRest hPositive,
          Nat.toDigits_of_lt_base hSmall, hChar]
        rfl

/- The digits of a number are read back, also behind zeros. -/
theorem ofDigitChars_zeros_toDigits
    (zeros n : Nat) :
    Nat.ofDigitChars 10
        (List.replicate zeros '0' ++ Nat.toDigits 10 n) 0 = n := by
  rw [Nat.ofDigitChars_append, Nat.ofDigitChars_replicate_zero,
    Nat.mul_zero, Nat.ofDigitChars_ten_toDigits]

theorem isDigit_of_mem_zeros_toDigits
    {zeros n : Nat}
    {c : Char}
    (hMember :
      c ∈ List.replicate zeros '0' ++ Nat.toDigits 10 n) :
    c.isDigit = true := by
  rcases List.mem_append.mp hMember with hZero | hDigit
  · rw [(List.mem_replicate.mp hZero).2]
    rfl
  · exact Nat.isDigit_of_mem_toDigits (by decide) (by decide) hDigit

/- Just the digits of a number, behind some zeros, are read. -/
theorem decimal?_eq_some_iff
    (cs : List Char)
    (n : Nat) :
    decimal? cs = some n ↔
      ∃ zeros,
        cs = List.replicate zeros '0' ++ Nat.toDigits 10 n := by
  have hValue :
      cs.foldl (fun n c => n * 10 + (c.toNat - '0'.toNat)) 0 =
        Nat.ofDigitChars 10 cs 0 := by
    simp only [Nat.ofDigitChars_eq_foldl, Nat.mul_comm]
  unfold decimal?
  rw [hValue]
  constructor
  · intro hRead
    split at hRead
    · cases hRead
    · next hDigits =>
      cases hRead
      simp only [Bool.or_eq_true, List.isEmpty_iff,
        Bool.not_eq_true', not_or, Bool.not_eq_false,
        List.all_eq_true] at hDigits
      exact exists_zeros_of_digits hDigits.2 hDigits.1
  · rintro ⟨zeros, rfl⟩
    rw [ofDigitChars_zeros_toDigits]
    refine if_neg ?_
    simp only [Bool.or_eq_true, List.isEmpty_iff,
      List.append_eq_nil_iff, Nat.toDigits_ne_nil, and_false,
      Bool.not_eq_true', false_or, Bool.not_eq_false,
      List.all_eq_true]
    exact fun c hMember => isDigit_of_mem_zeros_toDigits hMember

------------------------------------------------------------
-- White Space around Visible Characters
------------------------------------------------------------

namespace Text

/- A text is what it is trimmed to, with white space around it. -/
theorem exists_blanks_around (s : String) :
    ∃ before behind,
      s.toList = before ++ (trim s).toList ++ behind ∧
        (∀ c ∈ before, isBlank c = true) ∧
        ∀ c ∈ behind, isBlank c = true := by
  rcases exists_blank_behind (dropBlank s.toList) with
    ⟨behind, hParts, hBehind⟩
  refine
    ⟨s.toList.takeWhile isBlank, behind, ?_, ?_, hBehind⟩
  · rw [toList_trim, List.append_assoc, ← hParts]
    exact List.takeWhile_append_dropWhile.symm
  · exact fun c hMember => List.mem_takeWhile_imp hMember

/- White space around visible characters is trimmed. -/
theorem toList_trim_of_around
    {s : String}
    {before body behind : List Char}
    (hText : s.toList = before ++ body ++ behind)
    (hBefore : ∀ c ∈ before, isBlank c = true)
    (hBehind : ∀ c ∈ behind, isBlank c = true)
    (hBody : ∀ c ∈ body, isBlank c = false)
    (hSome : body ≠ []) :
    (trim s).toList = body := by
  have hFront : dropBlank s.toList = body ++ behind := by
    cases body with
    | nil => exact absurd rfl hSome
    | cons c body =>
        have hVisible := hBody c List.mem_cons_self
        rw [hText, List.append_assoc, List.cons_append,
          dropBlank_append_visible hVisible]
        have hNone : dropBlank before = [] :=
          List.dropWhile_eq_nil_iff.mpr hBefore
        rw [hNone, List.nil_append]
  rw [toList_trim, hFront]
  rw [← List.dropLast_append_getLast hSome] at hBody ⊢
  have hVisible := hBody _ (List.mem_append_right _ List.mem_cons_self)
  rw [List.append_assoc, List.cons_append,
    dropBlankEnd_append_visible hVisible, List.nil_append,
    dropBlankEnd_of_blank hBehind]

end Text

------------------------------------------------------------
-- Sizes
------------------------------------------------------------

/-
  A text spells a number: the digits of the number behind any
  number of zeros, perhaps a plus sign in front of them, and
  any white space around it all.
-/
inductive Spells (n : Nat) (s : String) : Prop where
| intro
    {before sign behind : List Char}
    {zeros : Nat}
    (hBefore : ∀ c ∈ before, Text.isBlank c = true)
    (hSign : sign = [] ∨ sign = ['+'])
    (hBehind : ∀ c ∈ behind, Text.isBlank c = true)
    (hText :
      s.toList =
        before ++
          (sign ++ (List.replicate zeros '0' ++ Nat.toDigits 10 n)) ++
          behind) :
    Spells n s

/- The digits of a trimmed text, without its sign. -/
def unsigned : List Char → List Char
| '+' :: rest => rest
| cs => cs

theorem exists_sign (cs : List Char) :
    ∃ sign,
      (sign = [] ∨ sign = ['+']) ∧ cs = sign ++ unsigned cs := by
  unfold unsigned
  split
  · exact ⟨['+'], .inr rfl, rfl⟩
  · exact ⟨[], .inl rfl, rfl⟩

/- Digits have no sign in front that could be taken off. -/
theorem unsigned_append_digits
    {sign cs : List Char}
    (hSign : sign = [] ∨ sign = ['+'])
    (hDigits : ∀ c ∈ cs, c.isDigit = true) :
    unsigned (sign ++ cs) = cs := by
  rcases hSign with rfl | rfl
  · rw [List.nil_append]
    unfold unsigned
    split
    · next rest =>
      have hDigit := hDigits '+' List.mem_cons_self
      cases hDigit
    · rfl
  · rfl

theorem parseSize?_eq
    (s : String) :
    parseSize? s =
      (decimal? (unsigned (Text.trim s).toList)).bind fun n =>
        if n < UInt64.size then some n else none := by
  unfold parseSize?
  generalize (Text.trim s).toList = cs
  rfl

/- Just the texts that spell a size are read as this size. -/
theorem parseSize?_eq_some_iff
    (s : String)
    (n : Nat) :
    parseSize? s = some n ↔ Spells n s ∧ n < UInt64.size := by
  rw [parseSize?_eq]
  constructor
  · intro hRead
    rcases Option.bind_eq_some_iff.mp hRead with ⟨m, hDigits, hFits⟩
    rcases Option.ite_none_right_eq_some.mp hFits with ⟨hSmall, hSame⟩
    cases hSame
    refine ⟨?_, hSmall⟩
    rcases (decimal?_eq_some_iff _ _).mp hDigits with ⟨zeros, hZeros⟩
    rcases Text.exists_blanks_around s with
      ⟨before, behind, hText, hBefore, hBehind⟩
    rcases exists_sign (Text.trim s).toList with
      ⟨sign, hSign, hParts⟩
    rw [hParts, hZeros] at hText
    exact .intro hBefore hSign hBehind hText
  · rintro ⟨hSpells, hSmall⟩
    cases hSpells with
    | @intro before sign behind zeros hBefore hSign hBehind hText =>
        have hDigits :
            ∀ c ∈ List.replicate zeros '0' ++ Nat.toDigits 10 n,
              c.isDigit = true :=
          fun c hMember => isDigit_of_mem_zeros_toDigits hMember
        have hVisible :
            ∀ c ∈
              sign ++
                (List.replicate zeros '0' ++ Nat.toDigits 10 n),
              Text.isBlank c = false := by
          intro c hMember
          rcases List.mem_append.mp hMember with hFirst | hDigit
          · rcases hSign with rfl | rfl
            · cases hFirst
            · rw [List.mem_singleton.mp hFirst]
              decide
          · exact Text.isBlank_of_isDigit (hDigits c hDigit)
        have hSome :
            sign ++
                (List.replicate zeros '0' ++ Nat.toDigits 10 n) ≠
              [] := by
          simp [Nat.toDigits_ne_nil]
        have hRead :
            decimal? (unsigned (Text.trim s).toList) = some n := by
          rw [Text.toList_trim_of_around hText hBefore hBehind
              hVisible hSome, unsigned_append_digits hSign hDigits]
          exact (decimal?_eq_some_iff _ n).mpr ⟨zeros, rfl⟩
        rw [hRead, Option.bind_some, if_pos hSmall]

/- A size in a range is read if a text spells it. -/
theorem parseInRange?_eq_some_iff
    {s : String}
    {least greatest n : Nat}
    (hGreatest : greatest < UInt64.size) :
    parseInRange? s least greatest = some n ↔
      Spells n s ∧ least ≤ n ∧ n ≤ greatest := by
  have hRange :
      parseInRange? s least greatest = some n ↔
        parseSize? s = some n ∧ least ≤ n ∧ n ≤ greatest := by
    unfold parseInRange?
    simp only [Option.bind_eq_bind, Option.bind_eq_some_iff,
      Option.ite_none_right_eq_some]
    constructor
    · rintro ⟨m, hRead, hBounds, hSame⟩
      cases hSame
      exact ⟨hRead, hBounds⟩
    · rintro ⟨hRead, hBounds⟩
      exact ⟨n, hRead, hBounds, rfl⟩
  rw [hRange, parseSize?_eq_some_iff]
  constructor
  · rintro ⟨⟨hSpells, -⟩, hBounds⟩
    exact ⟨hSpells, hBounds⟩
  · rintro ⟨hSpells, hBounds⟩
    have hSmall := Nat.lt_of_le_of_lt hBounds.2 hGreatest
    exact ⟨⟨hSpells, hSmall⟩, hBounds⟩

end AnswerStream
