import AnswerStream.Message
import AnswerStream.Proofs.State.Members

/-
  This file proves that the fields of a record are read back as
  they were written: each from its own key, if no key repeats,
  and each kind of value by its own reader. Only a null that
  stands in an optional field is not told from its absence.

  Key definitions include:
    * `Wire.present`
    * `Wire.Reads`
    * `Wire.withoutNull`

  Main statements:
    * `Wire.record_eq`
    * `Wire.fields?_record`
    * `Wire.Reads.list`
    * `Wire.optional_write`
    * `Wire.optional_any`
-/

namespace AnswerStream

open Json

namespace Wire

------------------------------------------------------------
-- Members of a Record
------------------------------------------------------------

/- The members of a record, as they are written. -/
def present (fields : List (String × Option Value)) : Members :=
  fields.filterMap fun f => f.2.map fun v => (f.1, v)

/- The last value of a key may be that of the first field. -/
theorem last?_present_cons
    (key : String)
    (f : String × Option Value)
    (rest : List (String × Option Value)) :
    Members.last? key (present (f :: rest)) =
      (Members.last? key (present rest)).or
        (if f.1 = key then f.2 else none) := by
  rcases f with ⟨k, o⟩
  cases o with
  | none => simp [present]
  | some v => simp [present, Members.last?]

/- No field with another key has a value for the key. -/
theorem last?_present_of_not_mem
    {key : String}
    {fields : List (String × Option Value)}
    (hOthers : key ∉ fields.map Prod.fst) :
    Members.last? key (present fields) = none := by
  induction fields with
  | nil => rfl
  | cons f rest ih =>
      rw [List.map_cons, List.mem_cons, not_or] at hOthers
      rw [last?_present_cons, ih hOthers.2, Option.none_or,
        if_neg (Ne.symm hOthers.1)]

/- Of fields with different keys each has its own value. -/
theorem last?_present_of_mem
    {f : String × Option Value}
    {fields : List (String × Option Value)}
    (hKeys : (fields.map Prod.fst).Nodup)
    (hField : f ∈ fields) :
    Members.last? f.1 (present fields) = f.2 := by
  induction fields with
  | nil => cases hField
  | cons g rest ih =>
      rcases List.nodup_cons.mp hKeys with ⟨hOthers, hRest⟩
      rw [last?_present_cons]
      rcases List.mem_cons.mp hField with rfl | hLater
      · rw [last?_present_of_not_mem hOthers, Option.none_or,
          if_pos rfl]
      · have hOther : g.1 ≠ f.1 := fun hSame =>
          hOthers (hSame ▸ List.mem_map_of_mem hLater)
        rw [ih hRest hLater, if_neg hOther, Option.or_none]

/-
  A record of fields with different keys is an object that has
  under each key what the field holds.
-/
theorem record_eq
    {fields : List (String × Option Value)}
    (hKeys : (fields.map Prod.fst).Nodup) :
    ∃ members,
      record fields = .object members ∧
      ∀ f ∈ fields, Table.get? f.1 members = f.2 := by
  refine ⟨overlay [] (present fields), rfl, ?_⟩
  intro f hField
  rw [get?_overlay, last?_present_of_mem hKeys hField,
    Table.get?, Option.or_none]

/- So the fields of its value are found by their keys. -/
theorem fields?_record
    {v : Value}
    {fields : List (String × Option Value)}
    (hValue : v = record fields)
    (hKeys : (fields.map Prod.fst).Nodup)
    (keys : List String) :
    ∃ field,
      fields? keys v = some field ∧
      ∀ f ∈ fields, field f.1 = f.2 := by
  rcases record_eq hKeys with ⟨members, hRecord, hFields⟩
  refine ⟨fun key => Table.get? key members, ?_, hFields⟩
  rw [hValue, hRecord]
  rfl

------------------------------------------------------------
-- Readers and Writers
------------------------------------------------------------

/-
  Of whatever a writer wrote a reader gives back what the wire
  keeps of it.
-/
def Reads
    {α : Type}
    (read : Value → Option α)
    (write : α → Value)
    (kept : α → α) : Prop :=
  ∀ a, read (write a) = some (kept a)

theorem reads_string : Reads string .string id :=
  fun _ => rfl

theorem reads_bool : Reads bool .bool id :=
  fun _ => rfl

theorem reads_word32 : Reads word32 ofWord32 id := by
  intro n
  have hFits : n.toNat < 1 <<< 32 := n.toNat_lt
  change (if _ then _ else _ : Option Nat).map _ = _
  rw [if_pos hFits, Option.map_some, UInt32.ofNat_toNat, id]

theorem reads_word64 : Reads word64 ofWord64 id := by
  intro n
  have hFits : n.toNat < 1 <<< 64 := n.toNat_lt
  change (if _ then _ else _ : Option Nat).map _ = _
  rw [if_pos hFits, Option.map_some, UInt64.ofNat_toNat, id]

section Readers

variable {α : Type} {read : Value → Option α} {write : α → Value}
  {kept : α → α}

/- Of a list is kept what is kept of its items. -/
theorem Reads.list
    (hReads : Reads read write kept) :
    Reads (Wire.list read) (fun items => .array (items.map write))
      (List.map kept) := by
  intro items
  change (items.map write).mapM read = some (items.map kept)
  induction items with
  | nil => rfl
  | cons a rest ih => simp [hReads a, ih]

/- An optional field that is no null is read by its reader. -/
theorem optional_of_ne_null
    (read : Value → Option α)
    {v : Value}
    (hNull : v ≠ .null) :
    optional read (some v) = (read v).map some := by
  unfold optional
  split
  · next hAbsent => cases hAbsent
  · next hSame => exact absurd (Option.some.inj hSame) hNull
  · next hSame => rw [Option.some.inj hSame]

/- So what is never written as null is read back from one. -/
theorem optional_write
    (hReads : Reads read write kept)
    (hNull : ∀ a, write a ≠ .null)
    (o : Option α) :
    optional read (o.map write) = some (o.map kept) := by
  cases o with
  | none => rfl
  | some a =>
      rw [Option.map_some, optional_of_ne_null read (hNull a),
        hReads a, Option.map_some, Option.map_some]

end Readers

/- An optional value, a null being as good as none. -/
def withoutNull : Option Value → Option Value
  | some .null => none
  | o => o

/- Only a null is dropped. -/
theorem withoutNull_eq_self_iff (o : Option Value) :
    withoutNull o = o ↔ o ≠ some .null := by
  unfold withoutNull
  split
  · simp
  · next hOther => simpa using hOther

/- What is left is no null. -/
theorem withoutNull_ne_null (o : Option Value) :
    withoutNull o ≠ some .null := by
  unfold withoutNull
  split
  · simp
  · next hOther => exact hOther

/- A value that is left was there, and is no null. -/
theorem withoutNull_eq_some_iff
    (o : Option Value)
    (v : Value) :
    withoutNull o = some v ↔ o = some v ∧ v ≠ .null := by
  constructor
  · intro hLeft
    have hNull := withoutNull_ne_null o
    have hSame : withoutNull o = o := by
      unfold withoutNull at hLeft ⊢
      split
      · cases hLeft
      · rfl
    rw [hLeft] at hNull hSame
    exact ⟨hSame.symm, fun hNone => hNull (congrArg some hNone)⟩
  · rintro ⟨rfl, hNull⟩
    rw [withoutNull_eq_self_iff]
    exact fun hSame => hNull (Option.some.inj hSame)

/- An optional field of any value is read back without a null. -/
theorem optional_any (o : Option Value) :
    optional any o = some (withoutNull o) := by
  by_cases hNull : o = some .null
  · rw [hNull]
    rfl
  · rw [(withoutNull_eq_self_iff o).mpr hNull]
    cases o with
    | none => rfl
    | some v =>
        rw [optional_of_ne_null any fun h => hNull (h ▸ rfl)]
        rfl

end Wire

------------------------------------------------------------
-- Names of Cases
------------------------------------------------------------

theorem BlockKind.reads_toValue :
    Wire.Reads BlockKind.ofValue? BlockKind.toValue id := by
  intro k
  cases k <;> rfl

theorem ToolState.reads_toValue :
    Wire.Reads ToolState.ofValue? ToolState.toValue id := by
  intro s
  cases s <;> rfl

theorem Role.reads_toValue :
    Wire.Reads Role.ofValue? Role.toValue id := by
  intro r
  cases r <;> rfl

end AnswerStream
