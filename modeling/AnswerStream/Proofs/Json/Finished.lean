import AnswerStream.Proofs.Json.Closing
import AnswerStream.Proofs.Json.Parts
import AnswerStream.Proofs.State.Members
import Mathlib.Data.List.Nodup

/-
  This file proves that the best reading of a text that was cut
  off is true of what the text has finished: if the text goes
  on to an object whose keys do not repeat, the reading is an
  object too, its keys are keys of the whole object, and each
  of its values but that of the last member begun is final.

  Key definitions include:
    * `Json.Ending`
    * `Json.Completes`
    * `Json.lastBegun?`

  Main statements:
    * `Json.exists_ending`
    * `Json.alike_of_completed`
    * `Json.Written.members?_mem_iff`
    * `finished_members_are_final`
-/

namespace AnswerStream

namespace Json

------------------------------------------------------------
-- What Completion Keeps
------------------------------------------------------------

/-
  What completion puts behind the part of a text that it keeps:
  the end of a string or a null, if one is due, and the brackets
  that are due.
-/
inductive Ending (r : Reader) : List Char → Prop where
| quote
    (hInside : r.inString = true) :
    Ending r ('"' :: r.closers)
| null
    (hOutside : r.inString = false)
    (hOpen : r.closers ≠ []) :
    Ending r (['n', 'u', 'l', 'l'] ++ r.closers)
| plain
    (hOutside : r.inString = false) :
    Ending r r.closers

/-
  Characters are completed behind the part of them that is
  kept, where a reader has come to; the end that is dropped
  holds no quote.
-/
structure Completes
    (cs kept dropped : List Char)
    (q : Reader)
    (added : List Char) : Prop where
  parts : cs = kept ++ dropped
  noQuote : '"' ∉ dropped
  run : Reader.start.run? kept = some q
  ending : Ending q added
  completed : completeChars cs = kept ++ added

open Reader

/- Nothing is dropped in most cases. -/
theorem completes_all
    {cs added : List Char}
    {r : Reader}
    (hRun : start.run? cs = some r)
    (hEnding : Ending r added)
    (hCompleted : completeChars cs = cs ++ added) :
    ∃ kept dropped q added, Completes cs kept dropped q added :=
  ⟨cs, [], r, added, (List.append_nil cs).symm, List.not_mem_nil,
    hRun, hEnding, hCompleted⟩

/- In a string all but an unfinished escape is kept. -/
theorem exists_ending_inside
    {cs : List Char}
    {r : Reader}
    (hRun : start.run? cs = some r)
    (hInside : r.inString = true) :
    ∃ kept dropped q added, Completes cs kept dropped q added := by
  have hComplete := completeChars_of_inside hRun hInside
  cases hEscaped : r.scan.escaped with
  | false =>
      refine completes_all hRun (.quote hInside) ?_
      simp [hComplete, hEscaped, completeString]
  | true =>
      rcases List.eq_nil_or_concat' cs with rfl | ⟨kept, c, rfl⟩
      · cases hRun
        cases hEscaped
      · rcases run?_concat_eq_some_iff.mp hRun with
          ⟨q, hBefore, hMove⟩
        have hScan : q.scan = ⟨true, false, r.closers⟩ := by
          have hLast := ofChars_of_run? hRun
          have hKept :=
            Scan.ofChars_dropLast_of_escaped (hLast ▸ hEscaped)
          rw [hLast, List.dropLast_concat] at hKept
          exact (ofChars_of_run? hBefore).symm.trans hKept
        have hClosers : q.closers = r.closers :=
          congrArg Scan.closers hScan
        refine
          ⟨kept, [c], q, _, rfl, ?_, hBefore,
            .quote (congrArg Scan.inString hScan), ?_⟩
        · -- a quote would have ended the string
          rw [List.mem_singleton]
          rintro rfl
          have hNext := hMove.scan (spelled_of_run? hBefore)
          rw [hScan] at hNext
          rw [← hNext] at hEscaped
          cases hEscaped
        · simp [hComplete, hEscaped, completeString, hClosers]

/- Outside of strings all but a comma is kept. -/
theorem exists_ending_outside
    {cs : List Char}
    {r : Reader}
    (hRun : start.run? cs = some r)
    (hOutside : r.inString = false)
    (hTrimmed : Text.dropBlankEnd cs = cs) :
    ∃ kept dropped q added, Completes cs kept dropped q added := by
  have hComplete := completeChars_of_outside hRun hOutside
  by_cases hColon : cs.getLast? = some ':'
  · by_cases hObject : r.closers.head? = some '\x7d'
    · refine completes_all hRun (.null hOutside ?_) ?_
      · intro hNil
        rw [hNil] at hObject
        cases hObject
      · rw [hComplete,
          completeOuter_of_colon (by rwa [hTrimmed]) hObject,
          hTrimmed, List.append_assoc]
    · refine completes_all hRun (.plain hOutside) ?_
      rw [hComplete,
        completeOuter_of_lone_colon (by rwa [hTrimmed]) hObject,
        hTrimmed]
  · by_cases hComma : cs.getLast? = some ','
    · rcases List.getLast?_eq_some_iff.mp hComma with ⟨kept, rfl⟩
      rcases run?_concat_eq_some_iff.mp hRun with ⟨q, hBefore, _⟩
      have hScan : q.scan = r.scan :=
        scan_of_concat_plain hBefore hRun (by decide) hOutside
      have hClosers : q.closers = r.closers :=
        congrArg Scan.closers hScan
      have hInString : q.inString = r.inString :=
        congrArg Scan.inString hScan
      refine
        ⟨kept, [','], q, _, rfl, by decide, hBefore,
          .plain (hInString.trans hOutside), ?_⟩
      rw [hComplete, completeOuter_of_comma (by rwa [hTrimmed]),
        hTrimmed, List.dropLast_concat, hClosers]
    · refine completes_all hRun (.plain hOutside) ?_
      rw [hComplete,
        completeOuter_of_other (by rwa [hTrimmed])
          (by rwa [hTrimmed]), hTrimmed]

/- Completion keeps the text but for an unfinished end. -/
theorem exists_ending
    {cs : List Char}
    {r : Reader}
    (hRun : start.run? cs = some r)
    (hTrimmed : Text.dropBlankEnd cs = cs) :
    ∃ kept dropped q added, Completes cs kept dropped q added := by
  cases hInside : r.inString with
  | true => exact exists_ending_inside hRun hInside
  | false => exact exists_ending_outside hRun hInside hTrimmed

------------------------------------------------------------
-- What Completion Adds
------------------------------------------------------------

theorem eq_of_mem_closers
    {r : Reader}
    {c : Char}
    (hMember : c ∈ r.closers) :
    c = '\x7d' ∨ c = ']' := by
  rcases List.mem_append.mp hMember with hMode | hStack
  · cases hCase : r.mode <;> simp_all [Mode.closers]
  · rcases List.mem_map.mp hStack with ⟨frame, -, rfl⟩
    cases frame
    · exact .inr rfl
    · exact .inl rfl

theorem not_mem_closers
    {c : Char}
    (hOther : c ≠ '\x7d' ∧ c ≠ ']')
    (r : Reader) :
    c ∉ r.closers := fun hMember =>
  (eq_of_mem_closers hMember).elim hOther.1 hOther.2

/- Completion adds no colon, -/
theorem Ending.colon_not_mem
    {r : Reader}
    {added : List Char}
    (hEnding : Ending r added) :
    ':' ∉ added := by
  have hClosers : ':' ∉ r.closers := not_mem_closers (by decide) r
  cases hEnding <;> simp [hClosers]

/- and it begins no member. -/
theorem Ending.begun_eq
    {r last : Reader}
    {added : List Char}
    (hEnding : Ending r added)
    (hRun : r.run? added = some last) :
    last.begun = r.begun := by
  have hClosers : '"' ∉ r.closers := not_mem_closers (by decide) r
  cases hEnding with
  | quote hInside =>
      rcases run?_cons_eq_some_iff.mp hRun with ⟨next, hMove, hRest⟩
      have hNone : r.opensMember '"' = false := by
        unfold opensMember
        split
        · next hMode _ => simp [inString, hMode, Mode.quote?] at hInside
        · next hMode _ => simp [inString, hMode, Mode.quote?] at hInside
        · rfl
      rw [begun_of_run? hClosers hRest, hMove.begun_eq, hNone]
      rfl
  | null => exact begun_of_run? (by simp [hClosers]) hRun
  | plain => exact begun_of_run? hClosers hRun

/- It does not make a value of nothing. -/
theorem Ending.ne_start
    {r last : Reader}
    {added : List Char}
    {t : Written}
    (hEnding : Ending r added)
    (hRun : r.run? added = some last)
    (hFinish : last.finish? = some t) :
    r ≠ start := by
  rintro rfl
  cases hEnding with
  | quote hInside => cases hInside
  | null _ hOpen => exact hOpen rfl
  | plain =>
      cases hRun
      cases hFinish

/- Nor of a member without a colon. -/
theorem Ending.isLabel_eq_false
    {r last : Reader}
    {added : List Char}
    {t : Written}
    (hEnding : Ending r added)
    (hRun : r.run? added = some last)
    (hFinish : last.finish? = some t) :
    r.mode.isLabel = false := by
  by_contra hLabel
  rw [Bool.not_eq_false] at hLabel
  have hLast := isLabel_of_run? hEnding.colon_not_mem hRun hLabel
  rcases eq_of_finish? hFinish with rfl | ⟨_, _, _, rfl, _⟩ <;>
    cases hLast

------------------------------------------------------------
-- Trees of Completed Texts
------------------------------------------------------------

/-
  The tree of a completed text is alike to that of the whole
  text in the members that were begun, and has no other ones.
-/
theorem alike_of_completed
    {p rest : String}
    {whole found : Written}
    (hWhole : written? (p ++ rest) = some whole)
    (hFound : written? (complete (Text.trim p)) = some found) :
    ∃ r,
      start.run? p.toList = some r ∧
        Written.Alike r.begun whole found ∧
        found.memberCount = r.begun := by
  rcases Option.bind_eq_some_iff.mp hWhole with
    ⟨last, hRun, hLast⟩
  rcases Option.bind_eq_some_iff.mp hFound with
    ⟨done, hCompleted, hDone⟩
  rw [String.toList_append] at hRun
  rcases run?_append_eq_some_iff.mp hRun with ⟨cut, hCut, hRest⟩
  refine ⟨cut, hCut, ?_⟩
  -- the text in front of the cut without white space around it
  have hInner := run?_dropBlank hCut
  rcases Text.exists_blank_behind (Text.dropBlank p.toList) with
    ⟨blanks, hParts, hBlank⟩
  rw [hParts, ← Text.toList_trim] at hInner
  rcases run?_append_eq_some_iff.mp hInner with
    ⟨r, hTrim, hBlanks⟩
  have hTrimmed :
      Text.dropBlankEnd (Text.trim p).toList =
        (Text.trim p).toList := by
    have hSame := congrArg String.toList (Text.trimEnd_trim p)
    rwa [Text.trimEnd, String.toList_ofList] at hSame
  rcases exists_ending hTrim hTrimmed with
    ⟨kept, dropped, q, added, hKept⟩
  rw [complete, String.toList_ofList, hKept.completed, run?_append,
    hKept.run] at hCompleted
  -- from what is kept both texts go on
  have hDropped : q.run? dropped = some r := by
    rw [hKept.parts, run?_append, hKept.run] at hTrim
    exact hTrim
  have hToCut : q.run? (dropped ++ blanks) = some cut :=
    run?_append_eq_some_iff.mpr ⟨r, hDropped, hBlanks⟩
  have hBegun : cut.begun = q.begun := by
    refine begun_of_run? ?_ hToCut
    rw [List.mem_append, not_or]
    refine ⟨hKept.noQuote, fun hMember => ?_⟩
    exact absurd (hBlank _ hMember) (by decide)
  have hFirst : q.Begins whole :=
    begins_of_run? hToCut
      (begins_of_run? hRest (begins_of_finish? hLast))
  have hSecond : q.Begins found :=
    begins_of_run? hCompleted (begins_of_finish? hDone)
  have hEnding := hKept.ending
  rw [hBegun]
  constructor
  · exact
      alike_of_begins hFirst hSecond
        (hEnding.isLabel_eq_false hCompleted hDone)
        (hEnding.ne_start hCompleted hDone)
  · rw [← begun_of_finish? hDone, hEnding.begun_eq hCompleted]

------------------------------------------------------------
-- Values of Members
------------------------------------------------------------

namespace Written

/- Members that have values have keys, and values one by one. -/
theorem exists_of_members?_cons
    {depth : Nat}
    {label : Option String}
    {t : Written}
    {rest : List (Option String × Written)}
    {ms : Members}
    (hValues : members? depth ((label, t) :: rest) = some ms) :
    ∃ key v others,
      label = some key ∧ value? depth t = some v ∧
        members? depth rest = some others ∧
        ms = (key, v) :: others := by
  cases label with
  | none =>
      rw [members?] at hValues
      · cases hValues
      · intro _ _ hKey _
        cases hKey
  | some key =>
      cases hTree : value? depth t with
      | none => simp [members?, hTree] at hValues
      | some v =>
          simp only [members?, hTree] at hValues
          rcases Option.map_eq_some_iff.mp hValues with
            ⟨others, hRest, hAll⟩
          exact ⟨key, v, others, rfl, rfl, hRest, hAll.symm⟩

/- The values of members are those of their trees. -/
theorem members?_mem_iff
    {depth : Nat}
    {members : List (Option String × Written)}
    {ms : Members}
    (hValues : members? depth members = some ms)
    (key : String)
    (v : Value) :
    (key, v) ∈ ms ↔
      ∃ t, (some key, t) ∈ members ∧ value? depth t = some v := by
  induction members generalizing ms with
  | nil =>
      cases hValues
      simp
  | cons m rest ih =>
      rcases m with ⟨label, t⟩
      rcases exists_of_members?_cons hValues with
        ⟨k, x, others, rfl, hTree, hRest, rfl⟩
      rw [List.mem_cons, ih hRest]
      constructor
      · rintro (hHere | ⟨u, hMember, hValue⟩)
        · cases hHere
          exact ⟨t, List.mem_cons_self, hTree⟩
        · exact ⟨u, List.mem_cons_of_mem _ hMember, hValue⟩
      · rintro ⟨u, hMember, hValue⟩
        rcases List.mem_cons.mp hMember with hHere | hLater
        · cases hHere
          rw [hTree] at hValue
          cases hValue
          exact .inl rfl
        · exact .inr ⟨u, hLater, hValue⟩

/- Their keys are those of the members. -/
theorem map_fst_of_members?
    {depth : Nat}
    {members : List (Option String × Written)}
    {ms : Members}
    (hValues : members? depth members = some ms) :
    members.map Prod.fst = (ms.map Prod.fst).map some := by
  induction members generalizing ms with
  | nil =>
      cases hValues
      rfl
  | cons m rest ih =>
      rcases m with ⟨label, t⟩
      rcases exists_of_members?_cons hValues with
        ⟨k, x, others, rfl, -, hRest, rfl⟩
      rw [List.map_cons, ih hRest]
      rfl

/- Where no key repeats, each tree has the value of its key. -/
theorem exists_get?_of_mem
    {depth : Nat}
    {members : List (Option String × Written)}
    {ms : Members}
    {key : String}
    {t : Written}
    (hValues : members? depth members = some ms)
    (hKeys : (members.map Prod.fst).Nodup)
    (hMember : (some key, t) ∈ members) :
    ∃ v,
      value? depth t = some v ∧
        Table.get? key (Members.ofList ms) = some v := by
  have hAll : (members? depth members).isSome = true := by
    rw [hValues]
    rfl
  have hTree := ((isSome_members? depth members).mp hAll _ hMember).2
  rcases Option.isSome_iff_exists.mp hTree with ⟨v, hTree⟩
  have hDistinct : (ms.map Prod.fst).Nodup := by
    rw [map_fst_of_members? hValues] at hKeys
    exact List.Nodup.of_map some hKeys
  refine ⟨v, hTree, ?_⟩
  rw [Members.get?_ofList]
  exact
    Members.last?_of_mem hDistinct
      ((members?_mem_iff hValues key v).mpr ⟨t, hMember, hTree⟩)

/- The value of an object is one of its members. -/
theorem exists_of_value?_object
    {members : List (Option String × Written)}
    {v : Value}
    (hValue : value? depthLimit (.object members) = some v) :
    ∃ ms,
      members? (depthLimit - 1) members = some ms ∧
        v = .object (Members.ofList ms) := by
  rcases Option.map_eq_some_iff.mp hValue with ⟨ms, hMembers, hObject⟩
  exact ⟨ms, hMembers, hObject.symm⟩

end Written

/-
  The key of the member of the outermost object that was begun
  last where a text is cut, if these are its members in the end.
-/
def lastBegun?
    (members : List (Option String × Written))
    (p : String) : Option String :=
  (Reader.start.run? p.toList).bind fun r =>
    (members.take r.begun).getLast?.bind Prod.fst

namespace Written

/-
  Of members that are alike to the first ones of others, each
  is one of them, or else the last and only its key is.
-/
theorem mem_of_alike
    {members others : List (Option String × Written)}
    {m : Option String × Written}
    (hKeys :
      (others.take others.length).map Prod.fst =
        (members.take others.length).map Prod.fst)
    (hSame :
      others.take (others.length - 1) =
        members.take (others.length - 1))
    (hMember : m ∈ others) :
    m ∈ members ∨
      (members.take others.length).getLast?.map Prod.fst =
        some m.1 := by
  rcases List.eq_nil_or_concat' others with rfl | ⟨front, x, rfl⟩
  · cases hMember
  · rcases List.mem_append.mp hMember with hFront | hLast
    · rw [List.length_append, List.length_singleton,
        Nat.add_sub_cancel, List.take_left'] at hSame
      · exact .inl (List.mem_of_mem_take (hSame ▸ hFront))
      · rfl
    · cases List.mem_singleton.mp hLast
      right
      rw [← List.getLast?_map, ← hKeys, List.take_length,
        List.map_append, List.map_singleton, List.getLast?_concat]

end Written

end Json

/-
  Let a text go on to an object whose keys do not repeat. If
  the text has a best reading where it is cut, then that is an
  object, whose keys are keys of the whole one; and except for
  the member that was begun last, it has their values.
-/
theorem finished_members_are_final
    (p rest : String)
    (members : List (Option String × Json.Written))
    (v w : Json.Value)
    (hTree : Json.written? (p ++ rest) = some (.object members))
    (hKeys : (members.map Prod.fst).Nodup)
    (hValue : Json.value? (p ++ rest) = some v)
    (hPartial : Json.partialValue? p = some w) :
    ∃ found,
      w = .object found ∧
        ∀ key u,
          Table.get? key found = some u →
          ∃ x,
            v.get? key = some x ∧
              (x = u ∨ Json.lastBegun? members p = some key) := by
  rw [Json.partialValue?_eq] at hPartial
  rcases Option.bind_eq_some_iff.mp hPartial with
    ⟨tree, hFound, hTreeValue⟩
  rcases Json.alike_of_completed hTree hFound with
    ⟨cut, hCut, hAlike, hCount⟩
  rcases hAlike members rfl with ⟨others, rfl, hKeysSame, hSame⟩
  rw [← hCount] at hKeysSame hSame
  rw [Json.value?, hTree] at hValue
  rcases Json.Written.exists_of_value?_object hValue with
    ⟨ms, hMembers, rfl⟩
  rcases Json.Written.exists_of_value?_object hTreeValue with
    ⟨ns, hOthers, rfl⟩
  refine ⟨_, rfl, ?_⟩
  intro key u hGet
  rw [Json.Members.get?_ofList] at hGet
  rcases (Json.Written.members?_mem_iff hOthers key u).mp
      (Json.Members.mem_of_last? hGet) with
    ⟨t, hMember, hRead⟩
  rcases Json.Written.mem_of_alike hKeysSame hSame hMember with
    hFinished | hLast
  · rcases Json.Written.exists_get?_of_mem hMembers hKeys hFinished
      with ⟨x, hFinal, hGetFinal⟩
    rw [hRead] at hFinal
    cases hFinal
    exact ⟨u, hGetFinal, .inl rfl⟩
  · rcases Option.map_eq_some_iff.mp hLast with
      ⟨⟨_, s⟩, hBegun, rfl⟩
    have hInWhole :=
      List.mem_of_mem_take (List.mem_of_getLast? hBegun)
    rcases Json.Written.exists_get?_of_mem hMembers hKeys hInWhole
      with ⟨x, -, hGetFinal⟩
    refine ⟨x, hGetFinal, .inr ?_⟩
    rw [Json.lastBegun?, hCut, Option.bind_some, ← hCount]
    exact Option.bind_eq_some_iff.mpr ⟨_, hBegun, rfl⟩

/-
  A text that is cut inside of the second of three members: the
  first one has its value.
-/
theorem cut_object_has_finished_member :
    ∃ found,
      Json.partialValue? "\x7b\"a\": [true], \"b\": \"x" =
          some (.object found) ∧
        ∀ key u,
          Table.get? key found = some u →
          ∃ x,
            Json.Value.get? key
                (.object
                  [ ("a", .array [.bool true]), ("b", .string "xy"),
                    ("c", .null) ]) =
              some x ∧
              (x = u ∨ key = "b") := by
  have hTree :
      Json.written?
          ("\x7b\"a\": [true], \"b\": \"x" ++
            "y\", \"c\": null\x7d") =
        some
          (.object
            [ (some "a", .array [.bool true]),
              (some "b", .string (some "xy")), (some "c", .null) ]) :=
    rfl
  have hValue :
      Json.value?
          ("\x7b\"a\": [true], \"b\": \"x" ++
            "y\", \"c\": null\x7d") =
        some
          (.object
            [ ("a", .array [.bool true]), ("b", .string "xy"),
              ("c", .null) ]) := by
    decide +kernel
  have hPartial :
      Json.partialValue? "\x7b\"a\": [true], \"b\": \"x" =
        some
          (.object
            [("a", .array [.bool true]), ("b", .string "x")]) := by
    decide +kernel
  rcases finished_members_are_final _ _ _ _ _ hTree (by decide)
      hValue hPartial with
    ⟨found, hFound, hMembers⟩
  refine ⟨found, hFound ▸ hPartial, ?_⟩
  intro key u hGet
  rcases hMembers key u hGet with ⟨x, hFinal, hSame | hLast⟩
  · exact ⟨x, hFinal, .inl hSame⟩
  · exact ⟨x, hFinal, .inr (Option.some.inj hLast).symm⟩

end AnswerStream
