import AnswerStream.Settings.Layers
import AnswerStream.Proofs.Json.Ordered
import AnswerStream.Proofs.Wire.Records

/-
  This file proves what a value has at each path after another
  one was merged over it. What the upper value lists is there,
  what it leaves out or gives as null is what was there before,
  and merging the same value once more changes nothing.

  Key definitions include:
    * `Json.Value.at?`
    * `mergeOver`

  Main statements:
    * `get?_mergeMembers`
    * `deepMerge_self`
    * `at?_deepMerge_of_leaf`
    * `at?_deepMerge_of_objects`
    * `merging_overrides_leaves`
-/

namespace AnswerStream

open Json

------------------------------------------------------------
-- Paths
------------------------------------------------------------

namespace Json.Value

/- The value at the end of a path that leads through objects. -/
def at? : List String → Value → Option Value
| [], v => some v
| key :: path, v => (v.get? key).bind (at? path)

/- A path that goes on begins in an object. -/
theorem exists_of_at?_cons
    {key : String}
    {path : List String}
    {v w : Value}
    (hPath : v.at? (key :: path) = some w) :
    ∃ members inner,
      v = .object members ∧
        Table.get? key members = some inner ∧
        inner.at? path = some w := by
  rcases Option.bind_eq_some_iff.mp hPath with
    ⟨inner, hInner, hRest⟩
  cases v with
  | object members => exact ⟨members, inner, rfl, hInner, hRest⟩
  | _ => cases hInner

/- A path goes on in the value of its first key. -/
theorem at?_cons_of_get?
    {key : String}
    {members : Members}
    {inner : Value}
    (hInner : Table.get? key members = some inner)
    (path : List String) :
    (Value.object members).at? (key :: path) =
      inner.at? path := by
  change (Table.get? key members).bind (at? path) = _
  rw [hInner, Option.bind_some]

/- No path leads through a null to something else. -/
theorem ne_null_of_at?
    {path : List String}
    {v w : Value}
    (hPath : v.at? path = some w)
    (hNull : w ≠ .null) :
    v ≠ .null := by
  rintro rfl
  cases path with
  | nil => exact hNull (Option.some.inj hPath).symm
  | cons key path => cases hPath

end Json.Value

------------------------------------------------------------
-- Merging Step by Step
------------------------------------------------------------

/- A value over the one that is below it, if there is one. -/
def mergeOver : Option Value → Value → Value
| some old, v => deepMerge old v
| none, v => v

section Steps

variable {below above : Members} {old new : Value}

@[simp] theorem deepMerge_object
    (below above : Members) :
    deepMerge (.object below) (.object above) =
      .object (mergeMembers below above) := by
  rw [deepMerge]

/- A value that is no object replaces what is below it. -/
theorem deepMerge_of_new
    (hOther : new.members? = none) :
    deepMerge old new = new := by
  cases new with
  | object members => cases hOther
  | _ => cases old <;> simp [deepMerge]

/- What is no object is replaced by any value. -/
theorem deepMerge_of_old
    (hOther : old.members? = none) :
    deepMerge old new = new := by
  cases old with
  | object members => cases hOther
  | _ => simp [deepMerge]

theorem mergeMembers_cons_null
    (key : String) :
    mergeMembers below ((key, .null) :: above) =
      mergeMembers below above := by
  simp [mergeMembers]

theorem mergeMembers_cons_of_ne_null
    {key : String}
    (hNull : new ≠ .null) :
    mergeMembers below ((key, new) :: above) =
      mergeMembers
        (Members.insert key
          (mergeOver (Table.get? key below) new) below)
        above := by
  rw [mergeMembers, if_neg hNull]
  cases Table.get? key below <;> rfl

/- Members that are merged into others are put in order. -/
theorem sorted_mergeMembers
    (hBelow : below.Sorted) :
    Members.Sorted (mergeMembers below above) := by
  induction above generalizing below with
  | nil =>
      rw [mergeMembers]
      exact hBelow
  | cons m rest ih =>
      rcases m with ⟨key, v⟩
      by_cases hNull : v = .null
      · rw [hNull, mergeMembers_cons_null]
        exact ih hBelow
      · rw [mergeMembers_cons_of_ne_null hNull]
        exact ih (Members.sorted_insert hBelow _ _)

/-
  A key that is not given, or given as null, keeps its value.
  Any other key has the new value over the one it had.
-/
theorem get?_mergeMembers
    (below : Members)
    (hKeys : (above.map Prod.fst).Nodup)
    (key : String) :
    Table.get? key (mergeMembers below above) =
      ((Wire.withoutNull (Table.get? key above)).map
        (mergeOver (Table.get? key below))).or
        (Table.get? key below) := by
  induction above generalizing below with
  | nil =>
      rw [mergeMembers]
      rfl
  | cons m rest ih =>
      rcases m with ⟨k, v⟩
      rcases List.nodup_cons.mp hKeys with ⟨hOthers, hRest⟩
      by_cases hKey : k = key
      · subst hKey
        have hNone := Table.get?_of_not_mem hOthers
        rw [Table.get?, if_pos rfl]
        by_cases hNull : v = .null
        · rw [hNull, mergeMembers_cons_null, ih _ hRest, hNone]
          rfl
        · have hGiven : Wire.withoutNull (some v) = some v :=
            (Wire.withoutNull_eq_self_iff _).mpr
              fun hSame => hNull (Option.some.inj hSame)
          rw [mergeMembers_cons_of_ne_null hNull, ih _ hRest, hNone,
            Members.get?_insert, if_pos rfl, hGiven]
          rfl
      · rw [Table.get?, if_neg hKey]
        by_cases hNull : v = .null
        · rw [hNull, mergeMembers_cons_null, ih _ hRest]
        · rw [mergeMembers_cons_of_ne_null hNull, ih _ hRest,
            Members.get?_insert, if_neg hKey]

/- A value that is given stands over the one below it. -/
theorem get?_mergeMembers_of_given
    (below : Members)
    {key : String}
    (hKeys : (above.map Prod.fst).Nodup)
    (hThere : Table.get? key above = some new)
    (hNull : new ≠ .null) :
    Table.get? key (mergeMembers below above) =
      some (mergeOver (Table.get? key below) new) := by
  have hGiven :=
    (Wire.withoutNull_eq_some_iff _ _).mpr ⟨hThere, hNull⟩
  rw [get?_mergeMembers below hKeys, hGiven]
  rfl

/- Where no value is given, the one below stays. -/
theorem get?_mergeMembers_of_not_given
    (below : Members)
    {key : String}
    (hKeys : (above.map Prod.fst).Nodup)
    (hNone : Wire.withoutNull (Table.get? key above) = none) :
    Table.get? key (mergeMembers below above) =
      Table.get? key below := by
  rw [get?_mergeMembers below hKeys, hNone]
  rfl

end Steps

------------------------------------------------------------
-- Merging Twice
------------------------------------------------------------

/- A value over itself is the same value. -/
theorem deepMerge_self
    {v : Value}
    (hOrdered : v.Ordered) :
    deepMerge v v = v := by
  induction hOrdered with
  | other hOther => exact deepMerge_of_new hOther
  | @object members hSorted _ ih =>
      rw [deepMerge_object]
      refine congrArg Value.object ?_
      refine (sorted_mergeMembers hSorted).ext hSorted fun key => ?_
      cases hValue : Wire.withoutNull (Table.get? key members) with
      | none =>
          exact
            get?_mergeMembers_of_not_given _ hSorted.nodup hValue
      | some v =>
          rcases (Wire.withoutNull_eq_some_iff _ v).mp hValue with
            ⟨hThere, hNull⟩
          rw [get?_mergeMembers_of_given _ hSorted.nodup hThere
            hNull, hThere]
          exact
            congrArg some
              (ih (key, v) (Table.mem_of_get? hThere))

/- A value that was merged over another one is merged in. -/
theorem deepMerge_deepMerge
    {old new : Value}
    (hOld : old.Ordered)
    (hNew : new.Ordered) :
    deepMerge (deepMerge old new) new = deepMerge old new := by
  induction hNew generalizing old with
  | other hOther =>
      rw [deepMerge_of_new hOther, deepMerge_of_new hOther]
  | @object above hAbove hMembers ih =>
      cases hOld with
      | other hOther =>
          rw [deepMerge_of_old hOther]
          exact deepMerge_self (.object hAbove hMembers)
      | @object below hBelow hInside =>
          rw [deepMerge_object, deepMerge_object]
          have hMerged : Members.Sorted (mergeMembers below above) :=
            sorted_mergeMembers hBelow
          refine congrArg Value.object ?_
          refine
            (sorted_mergeMembers hMerged).ext hMerged fun key => ?_
          cases hGiven :
              Wire.withoutNull (Table.get? key above) with
          | none =>
              exact
                get?_mergeMembers_of_not_given _ hAbove.nodup hGiven
          | some v =>
              rcases (Wire.withoutNull_eq_some_iff _ v).mp hGiven
                with ⟨hThere, hNull⟩
              have hMember := Table.mem_of_get? hThere
              -- The second time the value is merged over itself,
              -- or over itself over the old one.
              rw [get?_mergeMembers_of_given _ hAbove.nodup hThere
                  hNull,
                get?_mergeMembers_of_given below hAbove.nodup hThere
                  hNull]
              refine congrArg some ?_
              cases hOld : Table.get? key below with
              | none => exact deepMerge_self (hMembers _ hMember)
              | some u =>
                  exact
                    ih _ hMember
                      (hInside _ (Table.mem_of_get? hOld))

------------------------------------------------------------
-- Merging along Paths
------------------------------------------------------------

/- What is reached in a value in order is in order. -/
theorem Json.Value.Ordered.at?
    {path : List String}
    {v w : Value}
    (hOrdered : v.Ordered)
    (hPath : v.at? path = some w) :
    w.Ordered := by
  induction path generalizing v with
  | nil =>
      cases hPath
      exact hOrdered
  | cons key path ih =>
      rcases Value.exists_of_at?_cons hPath with
        ⟨members, inner, rfl, hInner, hRest⟩
      exact ih (hOrdered.ordered_of_get? hInner) hRest

/- A leaf of the upper value is there. -/
theorem at?_deepMerge_of_leaf
    {path : List String}
    {old new leaf : Value}
    (hNew : new.Ordered)
    (hPath : new.at? path = some leaf)
    (hNull : leaf ≠ .null)
    (hLeaf : leaf.members? = none) :
    (deepMerge old new).at? path = some leaf := by
  induction path generalizing old new with
  | nil =>
      cases hPath
      rw [deepMerge_of_new hLeaf]
      rfl
  | cons key path ih =>
      rcases Value.exists_of_at?_cons hPath with
        ⟨above, inner, rfl, hInner, hRest⟩
      cases old with
      | object below =>
          have hThere :=
            get?_mergeMembers_of_given below hNew.sorted.nodup hInner
              (Value.ne_null_of_at? hRest hNull)
          rw [deepMerge_object, Value.at?_cons_of_get? hThere]
          cases Table.get? key below with
          | none => exact hRest
          | some u => exact ih (hNew.ordered_of_get? hInner) hRest
      | _ =>
          rw [deepMerge_of_old rfl]
          exact hPath

/- Objects in both values are merged where they are. -/
theorem at?_deepMerge_of_objects
    {path : List String}
    {old new : Value}
    {below above : Members}
    (hNew : new.Ordered)
    (hBelow : old.at? path = some (.object below))
    (hAbove : new.at? path = some (.object above)) :
    (deepMerge old new).at? path =
      some (.object (mergeMembers below above)) := by
  induction path generalizing old new with
  | nil =>
      cases hBelow
      cases hAbove
      rw [deepMerge_object]
      rfl
  | cons key path ih =>
      rcases Value.exists_of_at?_cons hBelow with
        ⟨olds, u, rfl, hOld, hOldRest⟩
      rcases Value.exists_of_at?_cons hAbove with
        ⟨news, v, rfl, hInner, hRest⟩
      have hThere :=
        get?_mergeMembers_of_given olds hNew.sorted.nodup hInner
          (Value.ne_null_of_at? hRest nofun)
      rw [hOld] at hThere
      rw [deepMerge_object, Value.at?_cons_of_get? hThere]
      exact ih (hNew.ordered_of_get? hInner) hOldRest hRest

/-
  Merging overrides just what the upper value lists. Each of
  its leaves but the nulls is there; in an object that both
  values have, a key that it does not list, or lists as null,
  is as it was before; and merging it once more changes nothing.
-/
theorem merging_overrides_leaves
    (old new : Value)
    (hOld : old.Ordered)
    (hNew : new.Ordered) :
    (∀ (path : List String) (leaf : Value),
      new.at? path = some leaf →
      leaf ≠ .null →
      leaf.members? = none →
      (deepMerge old new).at? path = some leaf) ∧
    (∀ (path : List String) (below above : Members) (key : String),
      old.at? path = some (.object below) →
      new.at? path = some (.object above) →
      Table.get? key above = none ∨
        Table.get? key above = some .null →
      ∃ merged,
        (deepMerge old new).at? path = some (.object merged) ∧
          Table.get? key merged = Table.get? key below) ∧
    deepMerge (deepMerge old new) new = deepMerge old new := by
  refine
    ⟨fun path leaf => at?_deepMerge_of_leaf hNew, ?_,
      deepMerge_deepMerge hOld hNew⟩
  intro path below above key hBelow hAbove hNone
  have hSorted : above.Sorted := (hNew.at? hAbove).sorted
  have hLeft : Wire.withoutNull (Table.get? key above) = none := by
    rcases hNone with hAbsent | hNull
    · rw [hAbsent]
      rfl
    · rw [hNull]
      rfl
  exact
    ⟨_, at?_deepMerge_of_objects hNew hBelow hAbove,
      get?_mergeMembers_of_not_given _ hSorted.nodup hLeft⟩

/- A nested object beside a number. -/
def lowerValue : Value :=
  .object
    [ ("a",
        .object
          [ ("x", Wire.ofNat 1),
            ("y", .array [Wire.ofNat 2]) ]),
      ("b", Wire.ofNat 3) ]

/- A null, a leaf and objects over all kinds of values. -/
def upperValue : Value :=
  .object
    [ ("a",
        .object
          [ ("x", .null), ("y", Wire.ofNat 4),
            ("z", .object [("n", .null)]) ]),
      ("b", .object [("c", Wire.ofNat 5)]) ]

theorem ordered_lowerValue : lowerValue.Ordered := by
  have hRead :
      value? "\x7b\"b\":3,\"a\":\x7b\"x\":1,\"y\":[2]\x7d\x7d" =
        some lowerValue := by
    decide +kernel
  exact ordered_of_value? hRead

theorem ordered_upperValue : upperValue.Ordered := by
  have hRead :
      value?
          ("\x7b\"a\":\x7b\"x\":null,\"y\":4,\"z\":" ++
            "\x7b\"n\":null\x7d\x7d,\"b\":\x7b\"c\":5\x7d\x7d") =
        some upperValue := by
    decide +kernel
  exact ordered_of_value? hRead

/- The leaf is there, and below the null is the old value. -/
theorem upperValue_overrides_leaves :
    lowerValue.Ordered ∧ upperValue.Ordered ∧
    upperValue.at? ["a", "y"] = some (Wire.ofNat 4) ∧
    (deepMerge lowerValue upperValue).at? ["a", "y"] =
      some (Wire.ofNat 4) ∧
    (∃ merged,
      (deepMerge lowerValue upperValue).at? ["a"] =
          some (.object merged) ∧
        Table.get? "x" merged = some (Wire.ofNat 1)) ∧
    deepMerge (deepMerge lowerValue upperValue) upperValue =
      deepMerge lowerValue upperValue := by
  have hLeaf :
      upperValue.at? ["a", "y"] = some (Wire.ofNat 4) := by
    decide +kernel
  have hTold :=
    merging_overrides_leaves lowerValue upperValue
      ordered_lowerValue ordered_upperValue
  exact
    ⟨ordered_lowerValue, ordered_upperValue, hLeaf,
      hTold.1 _ _ hLeaf nofun rfl,
      hTold.2.1 ["a"] _ _ "x" rfl rfl (.inr rfl), hTold.2.2⟩

end AnswerStream
