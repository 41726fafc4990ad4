import AnswerStream.Json.Fingerprint
import AnswerStream.Proofs.Json.Ordered
import Mathlib.Data.List.Sort

/-
  This file proves what the canonical text of a value is. The
  order in which the members of an object were put makes no
  difference to it, since the keys are sorted and each finds its
  own value. Where they stand in order, as in all values of
  texts, it is the text of the value.

  Key definitions include:
    * `Json.Value.memberChars`

  Main statements:
    * `Json.sortKeys_of_perm`
    * `Json.Value.canonical_object_of_perm`
    * `Json.Value.InOrder.canonical_eq_text`
-/

namespace AnswerStream

namespace Json

------------------------------------------------------------
-- Parts with Commas between Them
------------------------------------------------------------

/- Parts are joined as their texts are. -/
theorem joined_eq_map
    {α : Type}
    (write : α → List Char)
    (xs : List α) :
    joined write xs = joined id (xs.map write) := by
  induction xs using joined.induct with
  | case1 => rfl
  | case2 x => rfl
  | case3 x rest hSome ih =>
      have hOthers : rest.map write ≠ [] := by
        simpa using hSome
      rw [joined.eq_3 write x rest hSome, ih, List.map_cons,
        joined.eq_3 id _ _ hOthers]
      rfl

namespace Value

theorem itemsChars_eq_joined (items : List Value) :
    itemsChars items = joined chars items := by
  induction items using joined.induct with
  | case1 => rfl
  | case2 v => rfl
  | case3 v rest hSome ih =>
      rw [itemsChars.eq_3 v rest hSome, ih,
        joined.eq_3 chars v rest hSome]

/- The characters of a member. -/
def memberChars (m : String × Value) : List Char :=
  quoted m.1 ++ ':' :: chars m.2

theorem membersChars_eq_joined
    (members : List (String × Value)) :
    membersChars members = joined memberChars members := by
  induction members using joined.induct with
  | case1 => rfl
  | case2 m => rfl
  | case3 m rest hSome ih =>
      rcases m with ⟨key, v⟩
      rw [membersChars.eq_3 key v rest hSome, ih,
        joined.eq_3 memberChars (key, v) rest hSome]
      simp [memberChars]

end Value

------------------------------------------------------------
-- Keys in Order
------------------------------------------------------------

theorem insertKey_eq
    (key : String)
    (keys : List String) :
    insertKey key keys = keys.orderedInsert (· ≤ ·) key := by
  induction keys with
  | nil => rfl
  | cons k rest ih =>
      rw [insertKey, List.orderedInsert_cons, ih]

/- Keys are sorted by insertion. -/
theorem sortKeys_eq (keys : List String) :
    sortKeys keys = keys.insertionSort (· ≤ ·) := by
  induction keys with
  | nil => rfl
  | cons key rest ih =>
      rw [sortKeys, insertKey_eq, ih, List.insertionSort_cons]

theorem sortKeys_perm (keys : List String) :
    (sortKeys keys).Perm keys := by
  rw [sortKeys_eq]
  exact List.perm_insertionSort _ keys

theorem sortKeys_sorted (keys : List String) :
    (sortKeys keys).Pairwise (· ≤ ·) := by
  rw [sortKeys_eq]
  exact List.pairwise_insertionSort _ keys

/- Keys are sorted in one way, however they stand. -/
theorem sortKeys_of_perm
    {keys others : List String}
    (hPerm : keys.Perm others) :
    sortKeys keys = sortKeys others :=
  ((sortKeys_perm keys).trans
      (hPerm.trans (sortKeys_perm others).symm)).eq_of_pairwise
    (fun _ _ _ _ => String.le_antisymm)
    (sortKeys_sorted keys) (sortKeys_sorted others)

/- Keys in order stay as they are. -/
theorem sortKeys_of_sorted
    {keys : List String}
    (hSorted : keys.Pairwise (· ≤ ·)) :
    sortKeys keys = keys := by
  rw [sortKeys_eq]
  exact hSorted.insertionSort_eq

------------------------------------------------------------
-- Canonical Text
------------------------------------------------------------

namespace Value

theorem canonicalItems_eq (items : List Value) :
    canonicalItems items = items.map canonicalChars := by
  induction items with
  | nil => rfl
  | cons v rest ih => rw [canonicalItems, ih, List.map_cons]

theorem canonicalMembers_eq (members : Members) :
    canonicalMembers members =
      members.map fun m => (m.1, canonicalChars m.2) := by
  induction members with
  | nil => rfl
  | cons m rest ih => rw [canonicalMembers, ih, List.map_cons]

theorem map_fst_canonicalMembers (members : Members) :
    (canonicalMembers members).map Prod.fst =
      members.map Prod.fst := by
  rw [canonicalMembers_eq, List.map_map]
  rfl

/- The canonical text of a member is found by its key. -/
theorem keyedText_canonicalMembers
    {members : Members}
    {m : String × Value}
    (hDistinct : (members.map Prod.fst).Nodup)
    (hMember : m ∈ members) :
    keyedText (canonicalMembers members) m.1 =
      quoted m.1 ++ ':' :: canonicalChars m.2 := by
  have hFound :
      Table.get? m.1 (canonicalMembers members) =
        some (canonicalChars m.2) := by
    rw [Table.get?_eq_some_iff_of_nodup
      ((map_fst_canonicalMembers members).symm ▸ hDistinct),
      canonicalMembers_eq]
    exact List.mem_map_of_mem hMember
  rw [keyedText, hFound]
  rfl

/-
  The order in which members were put makes no difference, since
  the keys are sorted and each finds its own text.
-/
theorem canonical_object_of_perm
    {members others : Members}
    (hDistinct : (members.map Prod.fst).Nodup)
    (hPerm : members.Perm others) :
    (object members).canonical = (object others).canonical := by
  have hKeys :
      sortKeys (members.map Prod.fst) =
        sortKeys (others.map Prod.fst) :=
    sortKeys_of_perm (hPerm.map Prod.fst)
  have hTexts :
      ∀ key ∈ sortKeys (members.map Prod.fst),
        keyedText (canonicalMembers members) key =
          keyedText (canonicalMembers others) key := by
    intro key hMember
    rw [(sortKeys_perm _).mem_iff] at hMember
    rcases List.mem_map.mp hMember with ⟨m, hHere, rfl⟩
    rw [keyedText_canonicalMembers hDistinct hHere,
      keyedText_canonicalMembers
        ((hPerm.map Prod.fst).nodup_iff.mp hDistinct)
        (hPerm.mem_iff.mp hHere)]
  simp only [canonical, canonicalChars,
    map_fst_canonicalMembers]
  rw [← hKeys, joined_eq_map, List.map_congr_left hTexts,
    ← joined_eq_map]

/- Where members stand in order, canonical text is plain text. -/
theorem InOrder.canonicalChars_eq
    {v : Value}
    (hInOrder : v.InOrder) :
    v.canonicalChars = v.chars := by
  induction hInOrder with
  | array hItems ih =>
      rw [canonicalChars, canonicalItems_eq, chars,
        itemsChars_eq_joined, joined_eq_map chars,
        List.map_congr_left ih]
  | @object members hSorted hMembers ih =>
      have hKeys :
          sortKeys (members.map Prod.fst) =
            members.map Prod.fst :=
        sortKeys_of_sorted <|
          List.pairwise_map.mpr <|
            hSorted.imp fun hLess =>
              String.not_lt.mp (String.lt_asymm hLess)
      have hTexts :
          ∀ m ∈ members,
            (keyedText (canonicalMembers members) ∘ Prod.fst) m =
              memberChars m := by
        intro m hMember
        rw [Function.comp_apply, keyedText_canonicalMembers
          (Members.Sorted.nodup hSorted) hMember,
          ih m hMember, memberChars]
      simp only [canonicalChars, map_fst_canonicalMembers]
      rw [hKeys, chars, membersChars_eq_joined, joined_eq_map,
        joined_eq_map memberChars, List.map_map,
        List.map_congr_left hTexts]
  | _ => rfl

theorem InOrder.canonical_eq_text
    {v : Value}
    (hInOrder : v.InOrder) :
    v.canonical = v.text := by
  rw [canonical, hInOrder.canonicalChars_eq, text]

end Value

end Json

end AnswerStream
