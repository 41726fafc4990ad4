import AnswerStream.Proofs.Json.Finished

/-
  This file proves that in the values of texts the members of
  objects stand in the order of their keys. Members in order are
  known from the values of their keys alone.

  Key definitions include:
    * `Json.Value.InOrder`
    * `Json.Value.Ordered`

  Main statements:
    * `Json.Members.Sorted.get?_eq_some_iff`
    * `Json.Members.Sorted.ext`
    * `Json.inOrder_of_value?`
    * `Json.ordered_of_value?`
-/

namespace AnswerStream

/- The value of a key stands under this key. -/
theorem Table.mem_of_get?
    {κ α : Type}
    [DecidableEq κ]
    {key : κ}
    {a : α}
    {t : Table κ α}
    (hValue : Table.get? key t = some a) :
    (key, a) ∈ t := by
  induction t with
  | nil => cases hValue
  | cons m rest ih =>
      rcases m with ⟨k, b⟩
      rw [Table.get?] at hValue
      split at hValue
      · next hKey =>
        cases hKey
        cases hValue
        exact List.mem_cons_self
      · exact List.mem_cons_of_mem _ (ih hValue)

/- A key that does not occur has no value. -/
theorem Table.get?_of_not_mem
    {κ α : Type}
    [DecidableEq κ]
    {key : κ}
    {t : Table κ α}
    (hOthers : key ∉ t.map Prod.fst) :
    Table.get? key t = none := by
  cases hValue : Table.get? key t with
  | none => rfl
  | some a =>
      exact
        absurd (List.mem_map_of_mem (Table.mem_of_get? hValue))
          hOthers

/- Where keys do not repeat, a table holds the values of keys. -/
theorem Table.get?_eq_some_iff_of_nodup
    {κ α : Type}
    [DecidableEq κ]
    {t : Table κ α}
    (hDistinct : (t.map Prod.fst).Nodup)
    (key : κ)
    (a : α) :
    Table.get? key t = some a ↔ (key, a) ∈ t := by
  refine ⟨Table.mem_of_get?, fun hMember => ?_⟩
  induction t with
  | nil => cases hMember
  | cons m rest ih =>
      rcases m with ⟨k, b⟩
      rcases List.nodup_cons.mp hDistinct with ⟨hFirst, hRest⟩
      rw [Table.get?]
      rcases List.mem_cons.mp hMember with hHere | hLater
      · cases hHere
        exact if_pos rfl
      · have hOther : k ≠ key := by
          rintro rfl
          exact hFirst (List.mem_map.mpr ⟨_, hLater, rfl⟩)
        rw [if_neg hOther]
        exact ih hRest hLater

namespace Json

------------------------------------------------------------
-- Members in Order
------------------------------------------------------------

namespace Members

/- Members in order are the values of their keys. -/
theorem Sorted.get?_eq_some_iff
    {ms : Members}
    (hSorted : Sorted ms)
    (key : String)
    (v : Value) :
    Table.get? key ms = some v ↔ (key, v) ∈ ms :=
  Table.get?_eq_some_iff_of_nodup hSorted.nodup key v

/- Members in order with the same values are the same. -/
theorem Sorted.ext
    {ms ns : Members}
    (hMs : Sorted ms)
    (hNs : Sorted ns)
    (hValues :
      ∀ key, Table.get? key ms = Table.get? key ns) :
    ms = ns := by
  have hMembers : ∀ m, m ∈ ms ↔ m ∈ ns := by
    rintro ⟨key, v⟩
    rw [← hMs.get?_eq_some_iff, ← hNs.get?_eq_some_iff, hValues]
  have hPerm : ms.Perm ns :=
    (List.perm_ext_iff_of_nodup hMs.nodup.of_map
      hNs.nodup.of_map).mpr hMembers
  refine hPerm.eq_of_pairwise ?_ hMs hNs
  intro a b _ _ hLess hGreater
  exact
    absurd (String.lt_trans hLess hGreater) (String.lt_irrefl _)

end Members

------------------------------------------------------------
-- Values in Order
------------------------------------------------------------

/- In every object of a value, the members stand in order. -/
inductive Value.InOrder : Value → Prop where
| null : InOrder .null
| bool (value : Bool) : InOrder (.bool value)
| number (value : Number) : InOrder (.number value)
| string (value : String) : InOrder (.string value)
| array
    {items : List Value}
    (hItems : ∀ v ∈ items, InOrder v) :
    InOrder (.array items)
| object
    {members : List (String × Value)}
    (hSorted : Members.Sorted members)
    (hMembers : ∀ m ∈ members, InOrder m.2) :
    InOrder (.object members)

/-
  In the objects that are reached through objects, the value
  itself among them, the members stand in order.
-/
inductive Value.Ordered : Value → Prop where
| other
    {v : Value}
    (hOther : v.members? = none) :
    Ordered v
| object
    {members : Members}
    (hSorted : members.Sorted)
    (hMembers : ∀ m ∈ members, Ordered m.2) :
    Ordered (.object members)

/- A value in which all members stand in order is such a value. -/
theorem Value.InOrder.ordered
    {v : Value}
    (hInOrder : v.InOrder) :
    v.Ordered := by
  induction hInOrder with
  | object hSorted _ ih => exact .object hSorted ih
  | _ => exact .other rfl

namespace Value.Ordered

variable {ms : Members}

theorem sorted (hOrdered : Ordered (.object ms)) :
    Members.Sorted ms := by
  cases hOrdered with
  | other hOther => cases hOther
  | object hSorted _ => exact hSorted

theorem ordered_of_get?
    {key : String}
    {v : Value}
    (hOrdered : Ordered (.object ms))
    (hValue : Table.get? key ms = some v) :
    Ordered v := by
  cases hOrdered with
  | other hOther => cases hOther
  | object _ hMembers =>
      exact hMembers (key, v) (Table.mem_of_get? hValue)

end Value.Ordered

namespace Written

/- The values of a list of trees are those of its trees. -/
theorem exists_of_mem_items?
    {depth : Nat}
    {items : List Written}
    {vs : List Value}
    {v : Value}
    (hValues : items? depth items = some vs)
    (hMember : v ∈ vs) :
    ∃ t ∈ items, value? depth t = some v := by
  induction items generalizing vs with
  | nil =>
      cases hValues
      cases hMember
  | cons t rest ih =>
      rw [items?] at hValues
      split at hValues
      · cases hValues
      · next w hTree =>
        rcases Option.map_eq_some_iff.mp hValues with
          ⟨others, hRest, rfl⟩
        rcases List.mem_cons.mp hMember with rfl | hLater
        · exact ⟨t, List.mem_cons_self, hTree⟩
        · rcases ih hRest hLater with ⟨u, hThere, hValue⟩
          exact ⟨u, List.mem_cons_of_mem t hThere, hValue⟩

/- The value of a tree is in order. -/
theorem inOrder_value?
    {depth : Nat}
    {t : Written}
    {v : Value}
    (hValue : t.value? depth = some v) :
    v.InOrder := by
  induction depth using Nat.strongRecOn generalizing t v with
  | ind depth ih =>
      cases t with
      | null =>
          cases hValue
          exact .null
      | bool b =>
          cases hValue
          exact .bool b
      | number n =>
          rcases Option.map_eq_some_iff.mp hValue with
            ⟨x, -, rfl⟩
          exact .number x
      | string s =>
          rcases Option.map_eq_some_iff.mp hValue with
            ⟨x, -, rfl⟩
          exact .string x
      | array items =>
          cases depth with
          | zero => cases hValue
          | succ below =>
              rcases Option.map_eq_some_iff.mp hValue with
                ⟨vs, hItems, rfl⟩
              refine .array fun w hMember => ?_
              rcases exists_of_mem_items? hItems hMember with
                ⟨u, -, hInside⟩
              exact ih below (Nat.lt_succ_self below) hInside
      | object members =>
          cases depth with
          | zero => cases hValue
          | succ below =>
              rcases Option.map_eq_some_iff.mp hValue with
                ⟨values, hMembers, rfl⟩
              have hSorted := Members.sorted_ofList values
              refine .object hSorted ?_
              rintro ⟨key, w⟩ hMember
              rw [← hSorted.get?_eq_some_iff,
                Members.get?_ofList] at hMember
              rcases
                  (members?_mem_iff hMembers key w).mp
                    (Members.mem_of_last? hMember) with
                ⟨u, -, hInside⟩
              exact ih below (Nat.lt_succ_self below) hInside

end Written

/- The value of a text is in order. -/
theorem inOrder_of_value?
    {s : String}
    {v : Value}
    (hValue : value? s = some v) :
    v.InOrder := by
  rcases Option.bind_eq_some_iff.mp hValue with ⟨t, -, hTree⟩
  exact Written.inOrder_value? hTree

theorem ordered_of_value?
    {s : String}
    {v : Value}
    (hValue : value? s = some v) :
    v.Ordered :=
  (inOrder_of_value? hValue).ordered

end Json

end AnswerStream
