import AnswerStream.Proofs.Processor.Feed
import AnswerStream.Proofs.Processor.Keys

/-
  This file proves that state keys stay final until a processor
  is reset. A key is final just if a final value of it was
  applied, and it has the last of these; values that come behind
  change nothing, while those before are all taken.

  Key definitions include:
    * `Content.IsFinalOf`
    * `Processor.KeepsFinal`

  Main statements:
    * `View.isFinalized_replay_iff`
    * `View.get?_replay_of_last`
    * `keys_stay_final`
-/

namespace AnswerStream

open Json

------------------------------------------------------------
-- Final Values Among Contents
------------------------------------------------------------

/- A content is a final value of a key. -/
def Content.IsFinalOf
    (key : String)
    (c : Content) : Prop :=
  ∃ v, c = .stateFinal key v

namespace Entry

variable {key : String} {x : Entry} {cs : List Content}

/- A key that is final only takes further final values. -/
theorem foldl_of_final
    (hFinal : x.isFinal = true)
    (hNone : ∀ c ∈ cs, ¬ c.IsFinalOf key) :
    cs.foldl (Entry.after key) x = x := by
  induction cs with
  | nil => rfl
  | cons c cs ih =>
      have hHere : x.after key c = x := by
        cases c with
        | stateStreaming k v =>
            exact after_streaming_of_final hFinal k v
        | stateFinal k v =>
            refine after_of_other ?_ x
            rintro ⟨⟩
            exact hNone _ List.mem_cons_self ⟨v, rfl⟩
        | _ => rfl
      rw [List.foldl_cons, hHere]
      exact
        ih fun d hMember =>
          hNone d (List.mem_cons_of_mem c hMember)

/- A key becomes final by a final value of it. -/
theorem isFinal_foldl_iff :
    (cs.foldl (Entry.after key) x).isFinal = true ↔
      x.isFinal = true ∨ ∃ c ∈ cs, c.IsFinalOf key := by
  induction cs generalizing x with
  | nil => simp
  | cons c cs ih =>
      have hHere :
          (x.after key c).isFinal = true ↔
            x.isFinal = true ∨ c.IsFinalOf key := by
        cases c with
        | stateStreaming k v =>
            simp [isFinal_after_streaming, Content.IsFinalOf]
        | stateFinal k v =>
            by_cases hKey : k = key <;>
              simp [Entry.after, Content.IsFinalOf, hKey]
        | _ => simp [Entry.after, Content.IsFinalOf]
      rw [List.foldl_cons, ih, hHere]
      simp [or_assoc]

end Entry

------------------------------------------------------------
-- Replays
------------------------------------------------------------

namespace View

variable {v : View} {e : Event} {key : String} {value : Value}

/- A key is final if it was, or by a final value of it. -/
theorem isFinalized_replay_iff
    (v : View)
    (es : List Event)
    (hNamed : key ≠ "") :
    (v.replay es).isFinalized key = true ↔
      v.isFinalized key = true ∨
        ∃ e ∈ es, e.content.IsFinalOf key := by
  have hEntry := congrArg Entry.isFinal (v.entry_replay es hNamed)
  have hFinal : (v.replay es).isFinalized key = _ := hEntry
  rw [hFinal, Entry.isFinal_foldl_iff]
  refine or_congr Iff.rfl ⟨?_, ?_⟩
  · rintro ⟨c, hMember, hKey⟩
    rcases List.mem_map.mp hMember with ⟨e, hEvent, rfl⟩
    exact ⟨e, hEvent, hKey⟩
  · rintro ⟨e, hEvent, hKey⟩
    exact ⟨e.content, List.mem_map_of_mem hEvent, hKey⟩

/- A key has the last final value of it. -/
theorem get?_replay_of_last
    (v : View)
    {before after : List Event}
    (hNamed : key ≠ "")
    (hContent : e.content = .stateFinal key value)
    (hLast : ∀ f ∈ after, ¬ f.content.IsFinalOf key) :
    Table.get? key (v.replay (before ++ e :: after)).state =
      some value := by
  have hEntry :=
    congrArg Entry.value
      (v.entry_replay (before ++ e :: after) hNamed)
  have hNone :
      ∀ c ∈ after.map Event.content, ¬ c.IsFinalOf key := by
    intro c hMember
    rcases List.mem_map.mp hMember with ⟨f, hEvent, rfl⟩
    exact hLast f hEvent
  have hHere :
      ∀ x : Entry, x.after key e.content = ⟨true, some value⟩ := by
    intro x
    rw [hContent]
    exact if_pos rfl
  rw [List.map_append, List.map_cons, List.foldl_append,
    List.foldl_cons, hHere, Entry.foldl_of_final rfl hNone]
    at hEntry
  exact hEntry

end View

------------------------------------------------------------
-- Runs
------------------------------------------------------------

/-
  A run keeps a state key final, given the events that were
  applied, in their order. The key is final just if a final
  value of it is among them, and has the last of these. A value
  behind a final one changes nothing and is not reported, one
  before is taken and reported.
-/
structure Processor.KeepsFinal
    (key : String)
    (applied : List Event)
    (done : Processor × Output) : Prop where
  view : done.1.view = View.empty.replay applied
  updates : done.2.updates = View.empty.changes applied
  finalized :
    done.1.view.isFinalized key = true ↔
      ∃ e ∈ applied, e.content.IsFinalOf key
  last :
    ∀ before e after v,
      applied = before ++ e :: after →
      e.content = .stateFinal key v →
      (∀ f ∈ after, ¬ f.content.IsFinalOf key) →
      Table.get? key done.1.view.state = some v
  late :
    ∀ before e after v,
      applied = before ++ e :: after →
      e.content = .stateStreaming key v →
      (∃ f ∈ before, f.content.IsFinalOf key) →
      (View.empty.replay before).after e =
          View.empty.replay before ∧
        (View.empty.replay before).changesOf e = []
  early :
    ∀ before e after v,
      applied = before ++ e :: after →
      e.content = .stateStreaming key v →
      (¬ ∃ f ∈ before, f.content.IsFinalOf key) →
      Table.get? key
          ((View.empty.replay before).after e).state = some v ∧
        (View.empty.replay before).changesOf e =
          [.state key v false e.path]
  stays :
    done.1.view.isFinalized key = true →
      ∀ es, (done.1.processAll es).1.view.isFinalized key = true

namespace Processor.Beginning

variable {p : Processor} {key : String}

/- From the beginning of a stream a named key stays final. -/
theorem keepsFinal
    (hBeginning : p.Beginning)
    (hNamed : key ≠ "")
    (es : List Event) :
    KeepsFinal key (Move.applied (p.journal es))
      (p.processAll es) := by
  have hFinal :
      ∀ before,
        (View.empty.replay before).isFinalized key = true ↔
          ∃ f ∈ before, f.content.IsFinalOf key := by
    intro before
    rw [View.isFinalized_replay_iff _ _ hNamed, or_iff_right]
    simp [View.isFinalized, View.empty]
  have hView := hBeginning.processAll_view es
  refine
    { view := hView
      updates := hBeginning.processAll_updates es
      finalized := by rw [hView, hFinal]
      last := ?_
      late := ?_
      early := ?_
      stays := ?_ }
  · intro before e after v hApplied hContent hLast
    rw [hView, hApplied]
    exact View.get?_replay_of_last _ hNamed hContent hLast
  · intro before e after v _ hContent hBefore
    have hClosed := (hFinal before).mpr hBefore
    rcases View.taken_streaming _ hNamed hContent with
      ⟨hAfter, hChanges, _⟩
    rw [hAfter, hChanges, if_pos hClosed, if_pos hClosed]
    exact ⟨rfl, rfl⟩
  · intro before e after v _ hContent hBefore
    have hOpen := mt (hFinal before).mp hBefore
    rcases View.taken_streaming _ hNamed hContent with
      ⟨hAfter, hChanges, _⟩
    rw [hAfter, hChanges, if_neg hOpen, if_neg hOpen,
      Members.get?_insert, if_pos rfl]
    exact ⟨rfl, rfl⟩
  · intro hClosed later
    rw [Processor.processAll_view,
      View.isFinalized_replay_iff _ _ hNamed]
    exact .inl hClosed

/- The first event of a stream is applied at once. -/
theorem process_first
    (hBeginning : p.Beginning)
    {e : Event}
    (hFirst : e.seq = 1) :
    (p.process e).1.view = View.empty.after e ∧
      (p.process e).2.updates = View.empty.changesOf e := by
  rcases hBeginning.blank with
    ⟨hView, hPending, hExpected, hGoing⟩
  have hCourse : p.course e = ⟨[.apply e], []⟩ := by
    unfold course
    rw [hGoing, hExpected, hPending,
      due_cons_of_eq hFirst (by decide),
      later_cons_of_eq hFirst (by decide), hFirst]
    rfl
  have hTally :=
    congrArg Tally.changes (process_tally p e)
  rw [hCourse] at hTally
  simp only [tally, hView, Move.applied_cons_apply,
    View.changes] at hTally
  rw [process_fst, hCourse]
  refine ⟨?_, hTally.trans (List.append_nil _)⟩
  simp only [follow, hView]
  rfl

end Processor.Beginning

/-
  Whatever arrives in whatever order, a key that has a name
  stays final until the processor is reset. Behind a reset, by
  itself or for another stream, it takes values again that are
  not final.
-/
theorem keys_stay_final
    (p : Processor)
    (key : String)
    (es : List Event)
    (hBeginning : p.Beginning)
    (hNamed : key ≠ "") :
    let done := p.processAll es
    Processor.KeepsFinal key (Move.applied (p.journal es)) done ∧
      ∀ q,
        q = done.1.reset ∨
          (∃ id, done.1.streamId ≠ some id ∧
            q = (done.1.switchStream id).value) →
        q.view.isFinalized key = false ∧
          ∀ e v, e.seq = 1 →
            e.content = .stateStreaming key v →
            Table.get? key (q.process e).1.view.state = some v ∧
              (q.process e).2.updates =
                [.state key v false e.path] := by
  intro done
  refine ⟨hBeginning.keepsFinal hNamed es, ?_⟩
  intro q hRestart
  have hAgain : q.Beginning := by
    rcases hRestart with rfl | ⟨id, hOther, rfl⟩
    · exact .reset done.1
    · exact .switchStream done.1 hOther
  have hOpen : View.empty.isFinalized key = false := by
    simp [View.isFinalized, View.empty]
  refine ⟨by rw [hAgain.blank.1, hOpen], ?_⟩
  intro e v hFirst hContent
  rcases hAgain.process_first hFirst with ⟨hView, hUpdates⟩
  rcases View.empty.taken_streaming hNamed hContent with
    ⟨hAfter, hChanges, _⟩
  rw [hView, hUpdates, hAfter, hChanges, hOpen]
  exact ⟨by simp [Members.get?_insert], rfl⟩

/- A final value of a key among others, which come too early. -/
def keyEvents : List Event :=
  [ (4, .stateStreaming "k" (.string "late")),
    (3, .stateFinal "k" (.string "last")),
    (3, .stateFinal "k" (.string "first")),
    (1, .stateStreaming "k" (.string "early")),
    (6, .stateStreaming "k" (.string "behind a gap")),
    (7, .stateStreaming "k" (.string "behind all")) ].map
    fun (seq, content) =>
      { id := "", seq := seq, timestamp := "", path := none
        content := content }

/-
  Behind a buffer for two events the second place is given up.
  The final value that came last for its place counts, and the
  next one comes too late.
-/
theorem keyEvents_stay_final :
    (Processor.start (some 2) true).Beginning ∧ "k" ≠ "" ∧
      (let p := Processor.start (some 2) true
      (Move.applied (p.journal keyEvents)).map Event.seq =
          [1, 3, 4] ∧
        Table.get? "k" (p.processAll keyEvents).1.view.state =
          some (.string "first") ∧
        Processor.KeepsFinal "k"
          (Move.applied (p.journal keyEvents))
          (p.processAll keyEvents)) :=
  ⟨.start (some 2) true, by decide, by decide, by decide,
    (keys_stay_final (Processor.start (some 2) true) "k"
      keyEvents (.start (some 2) true) (by decide)).1⟩

end AnswerStream
