import AnswerStream.Transform

/-
  This file proves how members of objects are written over each
  other: they stay in the order of their keys, so that no key
  repeats, and the last value that is written for a key counts.

  Key definitions include:
    * `Json.Members.last?`

  Main statements:
    * `Json.Members.sorted_insert`
    * `get?_overlay`
    * `sorted_mergeState`
    * `mergeState_fences`
-/

namespace AnswerStream

open Json

namespace Json

namespace Members

------------------------------------------------------------
-- Order of Keys
------------------------------------------------------------

/- Nothing but the written member is new. -/
theorem mem_of_mem_insert
    {key : String}
    {value : Value}
    {m : String × Value}
    {ms : Members}
    (hMember : m ∈ insert key value ms) :
    m = (key, value) ∨ m ∈ ms := by
  induction ms with
  | nil => exact .inl (List.mem_singleton.mp hMember)
  | cons n rest ih =>
      simp only [insert] at hMember
      split at hMember
      · rcases List.mem_cons.mp hMember with hNew | hOld
        · exact .inl hNew
        · exact .inr (List.mem_cons_of_mem n hOld)
      · split at hMember
        · exact List.mem_cons.mp hMember
        · rcases List.mem_cons.mp hMember with hHere | hLater
          · exact .inr (hHere ▸ List.mem_cons_self)
          · rcases ih hLater with hNew | hOld
            · exact .inl hNew
            · exact .inr (List.mem_cons_of_mem n hOld)

/- Of two different keys that are not in order the other is first. -/
theorem lt_of_not_lt
    {a b : String}
    (hOther : a ≠ b)
    (hNot : ¬ b < a) :
    a < b := by
  refine Decidable.byContradiction fun hLess => hOther ?_
  exact
    String.le_antisymm (String.not_lt.mp hNot)
      (String.not_lt.mp hLess)

/- A member is written in its place. -/
theorem sorted_insert
    {ms : Members}
    (hSorted : Sorted ms)
    (key : String)
    (value : Value) :
    Sorted (insert key value ms) := by
  induction ms with
  | nil => exact List.pairwise_singleton _ _
  | cons m rest ih =>
      rcases m with ⟨k, v⟩
      rcases List.pairwise_cons.mp hSorted with ⟨hFirst, hRest⟩
      simp only [insert]
      split
      · next hSame =>
        subst hSame
        exact List.pairwise_cons.mpr ⟨hFirst, hRest⟩
      · next hOther =>
        split
        · next hLess =>
          refine List.pairwise_cons.mpr ⟨?_, hSorted⟩
          intro n hMember
          rcases List.mem_cons.mp hMember with hHere | hLater
          · simpa [hHere] using hLess
          · exact String.lt_trans hLess (hFirst n hLater)
        · next hNot =>
          refine List.pairwise_cons.mpr ⟨?_, ih hRest⟩
          intro n hMember
          rcases mem_of_mem_insert hMember with hNew | hOld
          · simpa [hNew] using lt_of_not_lt hOther hNot
          · exact hFirst n hOld

/- Keys in order do not repeat. -/
theorem Sorted.nodup
    {ms : Members}
    (hSorted : Sorted ms) :
    (ms.map Prod.fst).Nodup := by
  refine List.pairwise_map.mpr (hSorted.imp ?_)
  intro a b hLess hSame
  exact String.lt_irrefl _ (hSame ▸ hLess)

------------------------------------------------------------
-- The Last Value of a Key
------------------------------------------------------------

/- The last value that members have for a key. -/
def last?
    (key : String) : Members → Option Value
  | [] => none
  | (k, v) :: rest =>
      (last? key rest).or (if k = key then some v else none)

/- A value that counts is one of the values. -/
theorem mem_of_last?
    {key : String}
    {value : Value}
    {ms : Members}
    (hLast : last? key ms = some value) :
    (key, value) ∈ ms := by
  induction ms with
  | nil => cases hLast
  | cons m rest ih =>
      rcases m with ⟨k, v⟩
      rcases Option.or_eq_some_iff.mp hLast with hLater | ⟨-, hHere⟩
      · exact List.mem_cons_of_mem _ (ih hLater)
      · split at hHere
        · next hKey =>
          cases hHere
          exact hKey ▸ List.mem_cons_self
        · cases hHere

/- Where no key repeats, every value counts. -/
theorem last?_of_mem
    {key : String}
    {value : Value}
    {ms : Members}
    (hKeys : (ms.map Prod.fst).Nodup)
    (hMember : (key, value) ∈ ms) :
    last? key ms = some value := by
  induction ms with
  | nil => cases hMember
  | cons m rest ih =>
      rcases List.nodup_cons.mp hKeys with ⟨hOthers, hRest⟩
      rcases List.mem_cons.mp hMember with rfl | hLater
      · have hNone : last? key rest = none := by
          cases hLast : last? key rest with
          | none => rfl
          | some v =>
              exact
                absurd (List.mem_map_of_mem (mem_of_last? hLast))
                  hOthers
        rw [last?, hNone, Option.none_or, if_pos rfl]
      · rw [last?, ih hRest hLater, Option.some_or]

end Members

end Json

------------------------------------------------------------
-- Members Written over Others
------------------------------------------------------------

theorem sorted_overlay
    {below : Members}
    (hSorted : Members.Sorted below)
    (above : Members) :
    Members.Sorted (overlay below above) := by
  induction above generalizing below with
  | nil => exact hSorted
  | cons m rest ih =>
      exact ih (Members.sorted_insert hSorted m.1 m.2)

/- So it is with members that are written into an object. -/
theorem Json.Members.sorted_ofList (ms : Members) :
    Members.Sorted (Members.ofList ms) :=
  sorted_overlay List.Pairwise.nil ms

/- The last value written over a key counts. -/
theorem get?_overlay
    (key : String)
    (below above : Members) :
    Table.get? key (overlay below above) =
      (Members.last? key above).or (Table.get? key below) := by
  induction above generalizing below with
  | nil => simp [overlay, Members.last?]
  | cons m rest ih =>
      rcases m with ⟨k, v⟩
      have hRest := ih (Members.insert k v below)
      rw [Members.get?_insert] at hRest
      by_cases hKey : k = key <;>
        simpa [overlay, Members.last?, hKey, Option.or_assoc]
          using hRest

/- So it does where members are written into an object. -/
theorem Json.Members.get?_ofList
    (key : String)
    (ms : Members) :
    Table.get? key (Members.ofList ms) = Members.last? key ms := by
  change Table.get? key (overlay [] ms) = _
  rw [get?_overlay, Table.get?, Option.or_none]

------------------------------------------------------------
-- Raw State Values
------------------------------------------------------------

/- The members of all fences stand in order. -/
theorem sorted_mergeState (blocks : List Block) :
    Members.Sorted (mergeState blocks) := by
  have hFold :
      ∀ ms, Members.Sorted ms →
        Members.Sorted
          (blocks.foldl
            (fun acc b => overlay acc (stateMembers b)) ms) := by
    induction blocks with
    | nil => exact fun ms hSorted => hSorted
    | cons b rest ih =>
        intro ms hSorted
        exact ih _ (sorted_overlay hSorted _)
  exact hFold [] List.Pairwise.nil

/- Only fences have members. -/
theorem stateMembers_of_kind
    {b : Block}
    (hKind : b.kind ≠ .structured) :
    stateMembers b = [] := by
  unfold stateMembers
  split
  · next hFence _ => exact absurd hFence hKind
  · rfl

/- Blocks that are no fences do not matter. -/
theorem mergeState_fences (blocks : List Block) :
    mergeState (blocks.filter fun b => b.kind == .structured) =
      mergeState blocks := by
  have hFold :
      ∀ ms,
        (blocks.filter fun b => b.kind == .structured).foldl
            (fun acc b => overlay acc (stateMembers b)) ms =
          blocks.foldl
            (fun acc b => overlay acc (stateMembers b)) ms := by
    induction blocks with
    | nil => exact fun ms => rfl
    | cons b rest ih =>
        intro ms
        by_cases hKind : b.kind = .structured
        · simp [hKind, ih]
        · have hNone : overlay ms (stateMembers b) = ms := by
            simp [stateMembers_of_kind hKind, overlay]
          simp [hKind, ih, hNone]
  exact hFold []

end AnswerStream
