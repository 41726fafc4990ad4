import AnswerStream.Json.Quote
import AnswerStream.Proofs.Json.Sorting

/-
  This file proves that the canonical text of a value tells it
  apart from all others, as long as its numbers are integers. A
  value can be read off the front of a text, whatever stands
  behind it, so that neither a comma nor a closing bracket nor
  a quote inside of it can be taken for one around it. Equal
  fingerprints of different values are thus collisions of the
  hash.

  Key definitions include:
    * `Json.firstWritten?`
    * `Json.Halts`
    * `Json.Value.Integral`
    * `Json.Value.SameKind`
    * `Json.Value.ReadsOnce`

  Main statements:
    * `Json.quoted_append_inj`
    * `Json.Number.integerText_append_inj`
    * `Json.Value.Integral.readsOnce`
    * `canonical_texts_tell_values_apart`
-/

namespace AnswerStream

namespace Json

------------------------------------------------------------
-- Quoted Strings
------------------------------------------------------------

/-
  The first character of a string that is written, with what
  stands behind it. There is none in front of a quote.
-/
def firstWritten? : List Char → Option (Char × List Char)
  | [] => none
  | '"' :: _ => none
  | '\\' :: 'u' :: '0' :: '0' :: high :: low :: rest => do
      let h ← Quote.hexValue? high
      let l ← Quote.hexValue? low
      return (Char.ofNat (h * 16 + l), rest)
  | '\\' :: letter :: rest =>
      (Quote.letter? letter).map fun c => (c, rest)
  | c :: rest => some (c, rest)

/- A character that stands for itself is the first one. -/
theorem firstWritten?_of_plain
    {c : Char}
    (hQuote : c ≠ '"')
    (hBackslash : c ≠ '\\')
    (rest : List Char) :
    firstWritten? (c :: rest) = some (c, rest) :=
  firstWritten?.eq_5 c rest hQuote
    (fun _ _ _ h _ => hBackslash h) fun _ _ h _ => hBackslash h

/- A control character is read back from its digits. -/
theorem firstWritten?_controlChar
    {c : Char}
    (hControl : c.toNat < 0x20)
    (rest : List Char) :
    firstWritten? (controlChar c ++ rest) = some (c, rest) := by
  have hDigits :
      ∀ n < 0x20,
        Quote.hexValue? (Nat.digitChar (n / 16)) = some (n / 16) ∧
          Quote.hexValue? (Nat.digitChar (n % 16)) =
            some (n % 16) := by
    decide
  rcases hDigits c.toNat hControl with ⟨hHigh, hLow⟩
  have hNumber : c.toNat / 16 * 16 + c.toNat % 16 = c.toNat :=
    Nat.div_add_mod' c.toNat 16
  unfold controlChar
  simp [firstWritten?, hHigh, hLow, hNumber]

/- Each character is read back from its written form. -/
theorem firstWritten?_quotedChar
    (c : Char)
    (rest : List Char) :
    firstWritten? (quotedChar c ++ rest) = some (c, rest) := by
  unfold quotedChar
  split
  case h_8 hQuote hBackslash _ _ _ _ _ =>
    split
    · next hControl => exact firstWritten?_controlChar hControl rest
    · exact firstWritten?_of_plain hQuote hBackslash rest
  all_goals rfl

/- The characters of a string are read back up to its end. -/
theorem flatMap_quotedChar_inj
    {cs ds r s : List Char}
    (hSame :
      cs.flatMap quotedChar ++ '"' :: r =
        ds.flatMap quotedChar ++ '"' :: s) :
    cs = ds ∧ r = s := by
  induction cs generalizing ds with
  | nil =>
      cases ds with
      | nil => exact ⟨rfl, (List.cons.inj hSame).2⟩
      | cons d ds =>
          have hRead := congrArg firstWritten? hSame
          rw [List.flatMap_cons, List.append_assoc,
            firstWritten?_quotedChar] at hRead
          cases hRead
  | cons c cs ih =>
      have hRead := congrArg firstWritten? hSame
      rw [List.flatMap_cons, List.append_assoc,
        firstWritten?_quotedChar] at hRead
      cases ds with
      | nil => cases hRead
      | cons d ds =>
          rw [List.flatMap_cons, List.append_assoc,
            firstWritten?_quotedChar, Option.some.injEq,
            Prod.mk.injEq] at hRead
          rcases hRead with ⟨hFirst, hBehind⟩
          rcases ih hBehind with ⟨hRest, hAfter⟩
          exact ⟨by rw [hFirst, hRest], hAfter⟩

/- A string is read back from the front of a text. -/
theorem quoted_append_inj
    {a b : String}
    {r s : List Char}
    (hSame : quoted a ++ r = quoted b ++ s) :
    a = b ∧ r = s := by
  unfold quoted at hSame
  simp only [List.cons_append, List.append_assoc,
    List.nil_append, List.cons.injEq, true_and] at hSame
  rcases flatMap_quotedChar_inj hSame with ⟨hChars, hRest⟩
  exact ⟨String.toList_injective hChars, hRest⟩

------------------------------------------------------------
-- Numbers
------------------------------------------------------------

/- What stands behind a number: no further digit of it. -/
def Halts (cs : List Char) : Prop :=
  ∀ c ∈ cs.head?, c.isDigit = false

theorem halts_nil : Halts [] :=
  nofun

theorem halts_cons
    {c : Char}
    (hDigit : c.isDigit = false)
    (rest : List Char) :
    Halts (c :: rest) := by
  intro d hHead
  cases hHead
  exact hDigit

/- Digits are read up to what is no digit. -/
theorem digits_append_inj
    {ds es r s : List Char}
    (hDigits : ∀ d ∈ ds, d.isDigit = true)
    (hOthers : ∀ e ∈ es, e.isDigit = true)
    (hHalts : Halts r)
    (hStops : Halts s)
    (hSame : ds ++ r = es ++ s) :
    ds = es ∧ r = s := by
  have hTaken :
      ∀ {xs ys : List Char}, (∀ x ∈ xs, x.isDigit = true) →
        Halts ys → (xs ++ ys).takeWhile Char.isDigit = xs := by
    intro xs ys hAll hBehind
    rw [List.takeWhile_append_of_pos hAll]
    cases ys with
    | nil => simp
    | cons y ys =>
        have hFirst : y.isDigit = false := hBehind y rfl
        simp [hFirst]
  have hFront := congrArg (List.takeWhile Char.isDigit) hSame
  rw [hTaken hDigits hHalts, hTaken hOthers hStops] at hFront
  subst hFront
  exact ⟨rfl, List.append_cancel_left hSame⟩

namespace Number

/- A number is read back from its digits, up to their end. -/
theorem toDigits_append_inj
    {m n : Nat}
    {r s : List Char}
    (hHalts : Halts r)
    (hStops : Halts s)
    (hSame : Nat.toDigits 10 m ++ r = Nat.toDigits 10 n ++ s) :
    m = n ∧ r = s := by
  have hDigits :
      ∀ k, ∀ d ∈ Nat.toDigits 10 k, d.isDigit = true :=
    fun _ _ hMember =>
      Nat.isDigit_of_mem_toDigits (by decide) (by decide) hMember
  rcases digits_append_inj (hDigits m) (hDigits n) hHalts hStops
      hSame with ⟨hFront, hRest⟩
  refine ⟨?_, hRest⟩
  rw [← @Nat.ofDigitChars_ten_toDigits m, hFront,
    Nat.ofDigitChars_ten_toDigits]

/- The digits of a number do not begin with a sign. -/
theorem toDigits_append_ne_minus
    (n : Nat)
    (r s : List Char) :
    Nat.toDigits 10 n ++ r ≠ '-' :: s := by
  intro hSame
  cases hDigits : Nat.toDigits 10 n with
  | nil => exact Nat.toDigits_ne_nil hDigits
  | cons d ds =>
      rw [hDigits, List.cons_append] at hSame
      have hMember : '-' ∈ Nat.toDigits 10 n := by
        rw [hDigits, (List.cons.inj hSame).1]
        exact List.mem_cons_self
      have hDigit :=
        Nat.isDigit_of_mem_toDigits (by decide) (by decide)
          hMember
      revert hDigit
      decide

/- An integer is read back from the front of a text. -/
theorem integerText_append_inj
    {i j : Int}
    {r s : List Char}
    (hHalts : Halts r)
    (hStops : Halts s)
    (hSame : integerText i ++ r = integerText j ++ s) :
    i = j ∧ r = s := by
  cases i with
  | ofNat m =>
      cases j with
      | ofNat n =>
          rcases toDigits_append_inj hHalts hStops hSame with
            ⟨hNumber, hRest⟩
          exact ⟨congrArg Int.ofNat hNumber, hRest⟩
      | negSucc n =>
          exact absurd hSame (toDigits_append_ne_minus m r _)
  | negSucc m =>
      cases j with
      | ofNat n =>
          exact absurd hSame.symm (toDigits_append_ne_minus n s _)
      | negSucc n =>
          rcases toDigits_append_inj hHalts hStops
              (List.cons.inj hSame).2 with ⟨hNumber, hRest⟩
          exact
            ⟨congrArg Int.negSucc (Nat.succ.inj hNumber), hRest⟩

/- It begins with its sign or with a digit. -/
theorem exists_integerText_eq (i : Int) :
    ∃ c rest, integerText i = c :: rest ∧
      (c = '-' ∨ c.isDigit = true) := by
  cases i with
  | ofNat n =>
      cases hDigits : Nat.toDigits 10 n with
      | nil => exact absurd hDigits Nat.toDigits_ne_nil
      | cons d ds =>
          refine ⟨d, ds, hDigits, .inr ?_⟩
          exact
            Nat.isDigit_of_mem_toDigits (by decide) (by decide)
              (hDigits ▸ List.mem_cons_self)
  | negSucc n => exact ⟨'-', _, rfl, .inl rfl⟩

end Number

------------------------------------------------------------
-- Values
------------------------------------------------------------

namespace Value

/- A value whose numbers are integers. -/
inductive Integral : Value → Prop where
| null : Integral .null
| bool (value : Bool) : Integral (.bool value)
| integer (value : Int) : Integral (.number (.integer value))
| string (value : String) : Integral (.string value)
| array
    {items : List Value}
    (hItems : ∀ v ∈ items, Integral v) :
    Integral (.array items)
| object
    {members : List (String × Value)}
    (hMembers : ∀ m ∈ members, Integral m.2) :
    Integral (.object members)

/-
  The character with which the text of a value begins, unless
  the value is a number.
-/
def leader : Value → Option Char
  | .null => some 'n'
  | .bool value => some (if value then 't' else 'f')
  | .number _ => none
  | .string _ => some '"'
  | .array _ => some '['
  | .object _ => some '\x7b'

/- The same, known from the first character of the text. -/
def leaderOf (c : Char) : Option Char :=
  if c = '-' ∨ c.isDigit = true then none else some c

variable {a b v : Value} {r s : List Char}

/- The text of a value begins as the value says. -/
theorem Integral.exists_chars_eq
    (hIntegral : Integral v) :
    ∃ c rest, v.chars = c :: rest ∧ leaderOf c = v.leader := by
  cases hIntegral with
  | null => exact ⟨_, _, rfl, rfl⟩
  | bool value => cases value <;> exact ⟨_, _, rfl, rfl⟩
  | integer value =>
      rcases Number.exists_integerText_eq value with
        ⟨c, rest, hText, hFirst⟩
      exact ⟨c, rest, hText, if_pos hFirst⟩
  | string value => exact ⟨_, _, rfl, rfl⟩
  | array hItems => exact ⟨_, _, rfl, rfl⟩
  | object hMembers => exact ⟨_, _, rfl, rfl⟩

/- Texts that begin alike are of values that begin alike. -/
theorem Integral.leader_eq
    (hA : Integral a)
    (hB : Integral b)
    (hSame : a.chars ++ r = b.chars ++ s) :
    a.leader = b.leader := by
  rcases hA.exists_chars_eq with ⟨c, cs, hFirst, hLeader⟩
  rcases hB.exists_chars_eq with ⟨d, ds, hOther, hOtherLeader⟩
  rw [hFirst, hOther, List.cons_append, List.cons_append] at hSame
  rw [← hLeader, ← hOtherLeader, (List.cons.inj hSame).1]

/- No value begins like the end of an array. -/
theorem Integral.chars_append_ne
    (hIntegral : Integral v)
    (r s : List Char) :
    v.chars ++ r ≠ ']' :: s := by
  intro hSame
  rcases hIntegral.exists_chars_eq with ⟨c, cs, hFirst, hLeader⟩
  rw [hFirst, List.cons_append] at hSame
  rw [(List.cons.inj hSame).1] at hLeader
  have hBracket : ∀ w : Value, w.leader ≠ leaderOf ']' := by
    intro w
    cases w with
    | bool value => cases value <;> decide
    | _ => simp [leader, leaderOf]
  exact hBracket v hLeader.symm

end Value

------------------------------------------------------------
-- Parts with Commas between Them
------------------------------------------------------------

/- What is written behind the first part. -/
def joinedBehind
    {α : Type}
    (write : α → List Char) : List α → List Char
  | [] => []
  | x :: rest => ',' :: joined write (x :: rest)

theorem joined_cons
    {α : Type}
    (write : α → List Char)
    (x : α)
    (rest : List α) :
    joined write (x :: rest) =
      write x ++ joinedBehind write rest := by
  cases rest with
  | nil => exact (List.append_nil _).symm
  | cons y rest => rfl

/- It ends a number, as the closing bracket does. -/
theorem halts_joinedBehind
    {α : Type}
    (write : α → List Char)
    (rest : List α)
    {closer : Char}
    (hDigit : closer.isDigit = false)
    (r : List Char) :
    Halts (joinedBehind write rest ++ closer :: r) := by
  cases rest with
  | nil => exact halts_cons hDigit r
  | cons x rest => exact halts_cons rfl _

/-
  Parts that are read back from the front of a text, and that
  do not begin with the closing bracket, are read back up to it.
-/
theorem joined_append_inj
    {α : Type}
    {write : α → List Char}
    {closer : Char}
    {xs ys : List α}
    {r s : List Char}
    (hComma : closer ≠ ',')
    (hDigit : closer.isDigit = false)
    (hPart :
      ∀ x ∈ xs, ∀ y ∈ ys, ∀ r s,
        Halts r → Halts s → write x ++ r = write y ++ s →
          x = y ∧ r = s)
    (hOpens : ∀ x ∈ xs, ∀ r s, write x ++ r ≠ closer :: s)
    (hOthers : ∀ y ∈ ys, ∀ r s, write y ++ r ≠ closer :: s)
    (hSame :
      joined write xs ++ closer :: r =
        joined write ys ++ closer :: s) :
    xs = ys ∧ r = s := by
  induction xs generalizing ys with
  | nil =>
      cases ys with
      | nil => exact ⟨rfl, (List.cons.inj hSame).2⟩
      | cons y ys =>
          rw [joined_cons, List.append_assoc] at hSame
          exact
            absurd hSame.symm
              (hOthers y List.mem_cons_self _ _)
  | cons x xs ih =>
      rw [joined_cons, List.append_assoc] at hSame
      cases ys with
      | nil =>
          exact absurd hSame (hOpens x List.mem_cons_self _ _)
      | cons y ys =>
          rw [joined_cons, List.append_assoc] at hSame
          rcases
            hPart x List.mem_cons_self y List.mem_cons_self _ _
              (halts_joinedBehind write xs hDigit r)
              (halts_joinedBehind write ys hDigit s) hSame with
            ⟨rfl, hBehind⟩
          have hRest :
              joined write xs ++ closer :: r =
                  joined write ys ++ closer :: s →
                xs = ys ∧ r = s :=
            ih
              (fun z hZ w hW =>
                hPart z (List.mem_cons_of_mem x hZ)
                  w (List.mem_cons_of_mem x hW))
              (fun z hZ => hOpens z (List.mem_cons_of_mem x hZ))
              fun w hW => hOthers w (List.mem_cons_of_mem x hW)
          have hTail : xs = ys ∧ r = s := by
            -- A comma stands on both sides or on neither.
            cases xs with
            | nil =>
                cases ys with
                | nil => exact hRest hBehind
                | cons w ys =>
                    exact absurd (List.cons.inj hBehind).1 hComma
            | cons z xs =>
                cases ys with
                | nil =>
                    exact
                      absurd (List.cons.inj hBehind).1.symm hComma
                | cons w ys =>
                    exact hRest (List.cons.inj hBehind).2
          exact ⟨by rw [hTail.1], hTail.2⟩

------------------------------------------------------------
-- Unique Reading
------------------------------------------------------------

namespace Value

variable {a b : Value} {r s : List Char}

/-
  A value is read back from the front of a text, up to what
  ends a number.
-/
def ReadsOnce (a : Value) : Prop :=
  ∀ b r s, Integral b → Halts r → Halts s →
    a.chars ++ r = b.chars ++ s → a = b ∧ r = s

/- The characters of a member begin with a quote. -/
theorem memberChars_append_ne
    (m : String × Value)
    (r s : List Char) :
    memberChars m ++ r ≠ '\x7d' :: s := by
  intro hSame
  exact absurd (List.cons.inj hSame).1 (by decide)

/- A member is read back if its value is. -/
theorem ReadsOnce.member
    {m n : String × Value}
    (hReads : m.2.ReadsOnce)
    (hIntegral : Integral n.2)
    (hHalts : Halts r)
    (hStops : Halts s)
    (hSame : memberChars m ++ r = memberChars n ++ s) :
    m = n ∧ r = s := by
  unfold memberChars at hSame
  rw [List.append_assoc, List.append_assoc] at hSame
  rcases quoted_append_inj hSame with ⟨hKey, hBehind⟩
  rcases hReads _ _ _ hIntegral hHalts hStops
      (List.cons.inj hBehind).2 with ⟨hValue, hRest⟩
  exact ⟨Prod.ext hKey hValue, hRest⟩

/- The elements of an array are read back up to its end. -/
theorem array_readsOnce
    {items : List Value}
    (hItems : ∀ v ∈ items, Integral v)
    (hReads : ∀ v ∈ items, v.ReadsOnce) :
    (array items).ReadsOnce := by
  intro b r s hB hHalts hStops hSame
  have hLeader := (Integral.array hItems).leader_eq hB hSame
  cases hB with
  | @array others hOthers =>
      change
        '[' :: itemsChars items ++ [']'] ++ r =
          '[' :: itemsChars others ++ [']'] ++ s at hSame
      simp only [List.cons_append, List.append_assoc,
        List.nil_append, List.cons.injEq, true_and,
        itemsChars_eq_joined] at hSame
      have hParts :=
        joined_append_inj (by decide) (by decide)
          (fun v hV w hW r s =>
            hReads v hV w r s (hOthers w hW))
          (fun v hV => (hItems v hV).chars_append_ne)
          (fun w hW => (hOthers w hW).chars_append_ne) hSame
      exact ⟨congrArg array hParts.1, hParts.2⟩
  | _ => grind [leader]

/- So are the members of an object. -/
theorem object_readsOnce
    {members : List (String × Value)}
    (hMembers : ∀ m ∈ members, Integral m.2)
    (hReads : ∀ m ∈ members, m.2.ReadsOnce) :
    (object members).ReadsOnce := by
  intro b r s hB hHalts hStops hSame
  have hLeader := (Integral.object hMembers).leader_eq hB hSame
  cases hB with
  | @object others hOthers =>
      change
        '\x7b' :: membersChars members ++ ['\x7d'] ++ r =
          '\x7b' :: membersChars others ++ ['\x7d'] ++ s at hSame
      simp only [List.cons_append, List.append_assoc,
        List.nil_append, List.cons.injEq, true_and,
        membersChars_eq_joined] at hSame
      have hParts :=
        joined_append_inj (by decide) (by decide)
          (fun m hM n hN _ _ =>
            (hReads m hM).member (hOthers n hN))
          (fun m _ => memberChars_append_ne m)
          (fun n _ => memberChars_append_ne n) hSame
      exact ⟨congrArg object hParts.1, hParts.2⟩
  | _ => grind [leader]

/- Every value whose numbers are integers is read back. -/
theorem Integral.readsOnce
    (hIntegral : Integral a) :
    a.ReadsOnce := by
  induction hIntegral with
  | array hItems ih => exact array_readsOnce hItems ih
  | object hMembers ih => exact object_readsOnce hMembers ih
  | null =>
      intro b r s hB _ _ hSame
      have hLeader := Integral.null.leader_eq hB hSame
      cases hB with
      | null => exact ⟨rfl, List.append_cancel_left hSame⟩
      | _ => grind [leader]
  | bool value =>
      intro b r s hB _ _ hSame
      have hLeader := (Integral.bool value).leader_eq hB hSame
      cases hB with
      | bool other =>
          have hValue : value = other := by
            cases value <;> cases other <;>
              simp [leader] at hLeader ⊢
          subst hValue
          exact ⟨rfl, List.append_cancel_left hSame⟩
      | _ => grind [leader]
  | integer i =>
      intro b r s hB hHalts hStops hSame
      have hLeader := (Integral.integer i).leader_eq hB hSame
      cases hB with
      | integer j =>
          rcases Number.integerText_append_inj hHalts hStops
              hSame with ⟨hNumber, hRest⟩
          exact ⟨by rw [hNumber], hRest⟩
      | _ => grind [leader]
  | string t =>
      intro b r s hB _ _ hSame
      have hLeader := (Integral.string t).leader_eq hB hSame
      cases hB with
      | string u =>
          rcases quoted_append_inj hSame with ⟨hText, hRest⟩
          exact ⟨by rw [hText], hRest⟩
      | _ => grind [leader]

/- So its canonical text is that of no other value in order. -/
theorem Integral.canonical_inj
    (hA : Integral a)
    (hB : Integral b)
    (hOrder : a.InOrder)
    (hOther : b.InOrder)
    (hSame : a.canonical = b.canonical) :
    a = b := by
  rw [hOrder.canonical_eq_text, hOther.canonical_eq_text] at hSame
  have hChars : a.chars = b.chars := String.ofList_injective hSame
  refine (hA.readsOnce b [] [] hB halts_nil halts_nil ?_).1
  rw [hChars]

end Value

------------------------------------------------------------
-- Fingerprints
------------------------------------------------------------

namespace Fingerprint

/- The number that hexadecimal digits stand for. -/
def unhex (digits : List Char) : Nat :=
  digits.foldl
    (fun n c => n * 16 + (Quote.hexValue? c).getD 0) 0

theorem unhex_concat
    (digits : List Char)
    (c : Char) :
    unhex (digits ++ [c]) =
      unhex digits * 16 + (Quote.hexValue? c).getD 0 := by
  simp [unhex]

/- Zeros in front do not count. -/
theorem unhex_zeros
    (n : Nat)
    (digits : List Char) :
    unhex (List.replicate n '0' ++ digits) = unhex digits := by
  induction n with
  | zero => rfl
  | succ n ih => exact ih

/- A number is known from its digits. -/
theorem unhex_toDigits (n : Nat) :
    unhex (Nat.toDigits 16 n) = n := by
  have hDigit :
      ∀ d < 16, (Quote.hexValue? (Nat.digitChar d)).getD 0 = d := by
    decide
  induction n using Nat.strongRecOn with
  | ind n ih =>
      rw [Nat.toDigits_eq_if (by decide)]
      split
      · next hSmall => simpa [unhex] using hDigit n hSmall
      · rw [unhex_concat, ih (n / 16) (by omega),
          hDigit (n % 16) (by omega)]
        omega

/- A word is known from its eight digits. -/
theorem hex_inj
    {m n : UInt32}
    (hSame : hex m = hex n) :
    m = n := by
  have hDigits := String.ofList_injective hSame
  have hNumbers := congrArg unhex hDigits
  rw [unhex_zeros, unhex_zeros, unhex_toDigits, unhex_toDigits]
    at hNumbers
  exact UInt32.toNat_inj.mp hNumbers

end Fingerprint

end Json

open Json

/-
  Values whose numbers are integers, with the members of objects
  in order as in all values of texts, have the same canonical
  text only if they are the same. Where different ones share a
  fingerprint, it is the hash that takes different texts to one
  word.
-/
theorem canonical_texts_tell_values_apart
    (a b : Value)
    (hA : a.Integral)
    (hB : b.Integral)
    (hOrder : a.InOrder)
    (hOther : b.InOrder) :
    (a.canonical = b.canonical → a = b) ∧
      (a.fingerprint = b.fingerprint →
        a = b ∨
          a.canonical ≠ b.canonical ∧
            Fingerprint.ofText a.canonical =
              Fingerprint.ofText b.canonical) := by
  have hTexts : a.canonical = b.canonical → a = b :=
    hA.canonical_inj hB hOrder hOther
  refine ⟨hTexts, fun hSame => ?_⟩
  by_cases hText : a.canonical = b.canonical
  · exact .inl (hTexts hText)
  · exact .inr ⟨hText, Fingerprint.hex_inj hSame⟩

/- A text inside of an array inside of an object. -/
def nestedText (body : String) : Value :=
  .object
    [("items", .array [.number (.integer (-1)), .string body])]

theorem integral_nestedText (body : String) :
    (nestedText body).Integral := by
  refine .object fun m hMember => ?_
  rw [List.mem_singleton.mp hMember]
  refine .array fun v hItem => ?_
  rcases List.mem_cons.mp hItem with rfl | hText
  · exact .integer (-1)
  · rw [List.mem_singleton.mp hText]
    exact .string body

theorem inOrder_nestedText (body : String) :
    (nestedText body).InOrder := by
  refine .object (List.pairwise_singleton _ _) fun m hMember => ?_
  rw [List.mem_singleton.mp hMember]
  refine .array fun v hItem => ?_
  rcases List.mem_cons.mp hItem with rfl | hText
  · exact .number _
  · rw [List.mem_singleton.mp hText]
    exact .string body

/-
  Two texts that share a hash: their values share a fingerprint,
  but no canonical text.
-/
theorem nestedText_collides :
    (nestedText "ab").Integral ∧ (nestedText "bA").Integral ∧
      (nestedText "ab").InOrder ∧ (nestedText "bA").InOrder ∧
      (nestedText "ab").fingerprint =
        (nestedText "bA").fingerprint ∧
      (nestedText "ab").canonical ≠ (nestedText "bA").canonical :=
  have hTold :=
    canonical_texts_tell_values_apart (nestedText "ab")
      (nestedText "bA") (integral_nestedText "ab")
      (integral_nestedText "bA") (inOrder_nestedText "ab")
      (inOrder_nestedText "bA")
  ⟨integral_nestedText "ab", integral_nestedText "bA",
    inOrder_nestedText "ab", inOrder_nestedText "bA",
    by decide +kernel,
    fun hSame => absurd (hTold.1 hSame) (by decide)⟩

end AnswerStream
