import AnswerStream.Proofs.Processor.Turns

/-
  This file proves that the records of the tool calls and the
  order of the calls agree. A view keeps them apart: each call
  has a record under its identity, and the identities come in
  the order in which the calls started. Every turn of an event
  keeps the two in agreement, whether a call starts for the
  first time or again, goes on, or cannot start.

  Key definitions include:
    * `View.Listed`

  Main statements:
    * `View.Listed.turn`
    * `View.Listed.replay`
-/

namespace AnswerStream

namespace View

variable {v w : View} {c : Content} {b : Block}
  {r old : ToolRecord} {id : String}

/-
  The tool calls of a view are listed: their order names each of
  them once, and those that have a record and no others; and
  each record is that of the identity under which it is kept.
-/
structure Listed (v : View) : Prop where
  distinct : v.toolOrder.Nodup
  found : ∀ id, id ∈ v.toolOrder ↔ (v.tool? id).isSome = true
  named : ∀ id r, v.tool? id = some r → r.id = id

theorem listed_empty : Listed empty where
  distinct := List.nodup_nil
  found := by simp [empty, tool?, Table.get?]
  named := fun _ _ hTool => nomatch hTool

namespace Listed

/- What is about other parts of a view leaves the calls listed. -/
theorem of_same_tools
    (hListed : v.Listed)
    (hTools : w.tools = v.tools)
    (hOrder : w.toolOrder = v.toolOrder) :
    w.Listed := by
  have hFound : w.tool? = v.tool? := by
    funext id
    rw [tool?, hTools, tool?]
  refine ⟨?_, ?_, ?_⟩
  · rw [hOrder]
    exact hListed.distinct
  · rw [hOrder, hFound]
    exact hListed.found
  · rw [hFound]
    exact hListed.named

/- A record that is put is that of its own identity. -/
theorem named_put
    (hListed : v.Listed)
    (r : ToolRecord) :
    ∀ id s, Table.get? id (Table.put r.id r v.tools) = some s →
      s.id = id := by
  intro id s hTool
  rw [Table.get?_put] at hTool
  split at hTool
  · next hId =>
    cases hTool
    exact hId
  · exact hListed.named id s hTool

/-
  A call that starts comes last in the order if it has no record
  yet, and stays where it is if it has one.
-/
theorem withStarted
    (hListed : v.Listed)
    (r : ToolRecord) :
    (v.withStarted r.id r).Listed := by
  by_cases hThere : Table.has r.id v.tools = true
  · have hOrder : (v.withStarted r.id r).toolOrder = v.toolOrder :=
      if_pos hThere
    have hMember := (hListed.found r.id).mpr hThere
    refine ⟨hOrder ▸ hListed.distinct, ?_, ?_⟩
    · intro other
      rw [hOrder, tool?_withStarted]
      split
      · next hId => simpa [hId] using hMember
      · exact hListed.found other
    · exact hListed.named_put r
  · have hOrder :
        (v.withStarted r.id r).toolOrder = v.toolOrder ++ [r.id] :=
      if_neg hThere
    have hNew : r.id ∉ v.toolOrder :=
      mt (hListed.found r.id).mp hThere
    refine ⟨?_, ?_, ?_⟩
    · rw [hOrder, ← List.concat_eq_append]
      exact hListed.distinct.concat hNew
    · intro other
      rw [hOrder, tool?_withStarted, List.mem_append,
        hListed.found other, List.mem_singleton]
      split
      · next hId => simp [hId]
      · next hOther => simp [Ne.symm hOther]
    · exact hListed.named_put r

/- A call that goes on has a record, and keeps its place. -/
theorem withTool
    (hListed : v.Listed)
    (hTool : v.tool? id = some old)
    (hId : r.id = id) :
    (v.withTool id r).Listed := by
  subst hId
  refine ⟨hListed.distinct, ?_, ?_⟩
  · intro other
    have hOrder : (v.withTool r.id r).toolOrder = v.toolOrder :=
      rfl
    rw [hOrder, tool?_withTool, hListed.found]
    split
    · next hId => simp [← hId, hTool]
    · rfl
  · exact hListed.named_put r

/- The record with which a call goes on is that of the call. -/
theorem id_of_goesOn
    {merge : ToolRecord → ToolRecord}
    (hListed : v.Listed)
    (hProgress : c.progress? = some (id, merge))
    (hTool : v.tool? id = some old) :
    (merge old).id = id :=
  (Content.id_of_progress hProgress old).trans
    (hListed.named id old hTool)

/- Each turn of an event leaves the calls listed. -/
theorem turn
    (hListed : v.Listed)
    (hTurn : v.Turn c w) :
    w.Listed := by
  cases hTurn with
  | still hSame =>
      exact hListed.of_same_tools hSame.tools hSame.toolOrder
  | shows hShown hNamed hRoom =>
      exact hListed.of_same_tools rfl rfl
  | @starts r hStarted hNamed hRoom =>
      have hPut : (v.withBlock (v.toolBlock r)).Listed :=
        hListed.of_same_tools rfl rfl
      exact hPut.withStarted r
  | goesOn hProgress hTool =>
      exact
        hListed.withTool hTool
          (hListed.id_of_goesOn hProgress hTool)

/- So do events in a row. -/
theorem replay
    (hListed : v.Listed)
    (es : List Event) :
    (v.replay es).Listed := by
  refine replay_induction hListed ?_
  intro u e _ hBefore
  exact hBefore.turn (u.turn_after e)

end Listed

end View

end AnswerStream
