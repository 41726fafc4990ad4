import AnswerStream.Event
import AnswerStream.Proofs.Wire.Records

/-
  This file proves that an event survives its wire form: all of
  it is read back, except that a payload that may be absent is
  read as absent if it is null. So an event that was read once
  is read back as it is.

  Key definitions include:
    * `Content.payload?`
    * `Content.withoutNull`
    * `Event.withoutNull`

  Main statements:
    * `Content.ofFields?_fields`
    * `Event.ofValue?_toValue`
    * `Event.read_back`
-/

namespace AnswerStream

open Json

namespace Content

------------------------------------------------------------
-- Payloads
------------------------------------------------------------

/- The payload of a content that may also be without one. -/
def payload? : Content → Option Value
  | .structured _ _ data _ _ => data
  | .toolStart _ _ input => input
  | _ => none

/- The content, in which a null is no payload. -/
def withoutNull : Content → Content
  | .structured blockId index data sourceText isFinal =>
      .structured blockId index (Wire.withoutNull data)
        sourceText isFinal
  | .toolStart toolId name input =>
      .toolStart toolId name (Wire.withoutNull input)
  | c => c

/- This concerns just the contents whose payload is a null. -/
theorem withoutNull_eq_self_iff (c : Content) :
    c.withoutNull = c ↔ c.payload? ≠ some .null := by
  cases c <;>
    simp [withoutNull, payload?, Wire.withoutNull_eq_self_iff]

------------------------------------------------------------
-- Fields of a Content
------------------------------------------------------------

/- The fields of a content are read back by its type. -/
theorem ofFields?_fields
    (c : Content)
    {field : String → Option Value}
    (hFields : ∀ f ∈ c.fields, field f.1 = f.2) :
    ofFields? c.typeName field = some c.withoutNull := by
  cases c <;>
    simp_all [ofFields?, typeName, fields, finalMark, withoutNull,
      Wire.required, Wire.orDefault, Wire.optional_any,
      Wire.optional_write Wire.reads_string, Wire.string,
      Wire.any, Wire.bool, Wire.reads_word32 _]

/- The payload of a content that was read is no null. -/
theorem payload?_of_ofFields?
    {typeName : String}
    {field : String → Option Value}
    {c : Content}
    (hRead : ofFields? typeName field = some c) :
    c.payload? ≠ some .null := by
  cases c with
  | structured blockId index data sourceText isFinal =>
      have hData :
          Wire.optional Wire.any (field "data") = some data := by
        unfold ofFields? at hRead
        split at hRead <;>
          simp only [Option.bind_eq_bind, Option.pure_def,
            Option.bind_eq_some_iff, Option.some.injEq,
            reduceCtorEq] at hRead <;>
          grind
      rw [Wire.optional_any] at hData
      exact Option.some.inj hData ▸ Wire.withoutNull_ne_null _
  | toolStart toolId name input =>
      have hInput :
          Wire.optional Wire.any (field "input") = some input := by
        unfold ofFields? at hRead
        split at hRead <;>
          simp only [Option.bind_eq_bind, Option.pure_def,
            Option.bind_eq_some_iff, Option.some.injEq,
            reduceCtorEq] at hRead <;>
          grind
      rw [Wire.optional_any] at hInput
      exact Option.some.inj hInput ▸ Wire.withoutNull_ne_null _
  | _ => simp [payload?]

end Content

------------------------------------------------------------
-- Events
------------------------------------------------------------

namespace Event

/- The event, in whose content a null is no payload. -/
def withoutNull (e : Event) : Event :=
  { e with content := e.content.withoutNull }

/- This concerns just the events whose payload is a null. -/
theorem withoutNull_eq_self_iff (e : Event) :
    e.withoutNull = e ↔ e.content.payload? ≠ some .null := by
  rw [← Content.withoutNull_eq_self_iff]
  exact ⟨congrArg content, fun hSame => by rw [withoutNull, hSame]⟩

/- No two fields of an event have the same key. -/
theorem nodup_fields (e : Event) :
    (([ ("id", some (.string e.id)),
        ("timestamp", some (.string e.timestamp)) ]
      ++ e.placedFields : List (String × Option Value)).map
        Prod.fst).Nodup := by
  rcases e with ⟨id, seq, timestamp, path, content⟩
  cases content <;> simp [placedFields, Content.fields]

/-
  The wire form of an event has under each key what the event
  has there, and nothing for what it lacks.
-/
theorem toValue_eq (e : Event) :
    ∃ members,
      e.toValue = .object members ∧
      Table.get? "id" members = some (.string e.id) ∧
      Table.get? "timestamp" members =
        some (.string e.timestamp) ∧
      Table.get? "seq" members = some (Wire.ofWord64 e.seq) ∧
      Table.get? "namespace" members = e.path.map .string ∧
      Table.get? "type" members =
        some (.string e.content.typeName) ∧
      ∀ f ∈ e.content.fields, Table.get? f.1 members = f.2 := by
  rcases Wire.record_eq e.nodup_fields with
    ⟨members, hRecord, hFields⟩
  refine ⟨members, hRecord, ?_⟩
  simpa [placedFields] using hFields

/- An event is read back from its wire form, without a null. -/
theorem ofValue?_toValue (e : Event) :
    ofValue? e.toValue = some e.withoutNull := by
  rcases e.toValue_eq with
    ⟨members, hValue, hId, hTime, hSeq, hPath, hType, hFields⟩
  have hContent :
      Content.ofFields? e.content.typeName
          (fun key => Table.get? key members) =
        some e.content.withoutNull :=
    Content.ofFields?_fields e.content hFields
  simp [ofValue?, hValue, Value.members?, hId, hTime, hSeq, hPath,
    hType, hContent, Wire.required, typeName?, Wire.string,
    Wire.reads_word64 _, Wire.optional_write Wire.reads_string,
    withoutNull]

/- The payload of an event that was read is no null. -/
theorem payload?_of_ofValue?
    {v : Value}
    {e : Event}
    (hRead : ofValue? v = some e) :
    e.content.payload? ≠ some .null := by
  simp only [ofValue?, Option.bind_eq_bind, Option.pure_def,
    Option.bind_eq_some_iff, Option.some.injEq] at hRead
  rcases hRead with
    ⟨_, _, _, _, _, _, _, _, _, _, _, _, _, hContent, rfl⟩
  exact Content.payload?_of_ofFields? hContent

/-
  An event is read back from its wire form just if no payload
  of it is a null, and every event that was read, from any
  value, is read back.
-/
theorem read_back :
    (∀ e : Event,
      ofValue? e.toValue = some e ↔
        e.content.payload? ≠ some .null) ∧
    ∀ (v : Value) (e : Event),
      ofValue? v = some e →
      ofValue? e.toValue = some e := by
  have hIff :
      ∀ e : Event,
        ofValue? e.toValue = some e ↔
          e.content.payload? ≠ some .null := by
    intro e
    rw [ofValue?_toValue, Option.some.injEq,
      withoutNull_eq_self_iff]
  refine ⟨hIff, ?_⟩
  intro v e hRead
  exact (hIff e).mpr (payload?_of_ofValue? hRead)

/-
  A tool call whose input is a null was read, beside a field
  that no event has, and is read back; so is a fence of a list
  with a null.
-/
theorem call_read_back :
    ofValue?
        (.object
          [ ("color", .string "red"),
            ("id", .string "e1"),
            ("input", .null),
            ("name", .string "search"),
            ("seq", .number (.integer 18446744073709551615)),
            ("timestamp", .string "noon"),
            ("toolId", .string "t1"),
            ("type", .string "tool:start") ]) =
        some ⟨"e1", 18446744073709551615, "noon", none,
          .toolStart "t1" "search" none⟩ ∧
      ofValue?
          (toValue
            ⟨"e1", 18446744073709551615, "noon", none,
              .toolStart "t1" "search" none⟩) =
        some ⟨"e1", 18446744073709551615, "noon", none,
          .toolStart "t1" "search" none⟩ ∧
      ofValue?
          (toValue
            ⟨"e2", 2, "noon", some "a/b",
              .structured "m:structured:0" 0
                (some (.array [.null])) none true⟩) =
        some
          ⟨"e2", 2, "noon", some "a/b",
            .structured "m:structured:0" 0
              (some (.array [.null])) none true⟩ := by
  refine
    ⟨?hRead, read_back.2 _ _ ?hRead,
      (read_back.1 _).mpr (by decide)⟩
  decide +kernel

end Event

end AnswerStream
