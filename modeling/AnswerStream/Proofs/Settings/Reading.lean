import AnswerStream.Proofs.Settings.Merging

/-
  This file proves which settings are read from a file that is
  merged over the defaults. Each known setting is read from what
  the file gives to it, or is the default, and the file can be
  read unless it gives one of them a value that cannot be.

  Key definitions include:
    * `Settings.given?`
    * `Settings.known`
    * `Settings.Spoilt`
    * `Settings.Parted`
    * `Settings.ReadFrom`

  Main statements:
    * `Settings.exists_merged_part`
    * `Settings.ofValue?_merged_eq_some_iff`
    * `Settings.exists_readFrom_iff`
-/

namespace AnswerStream

open Json

------------------------------------------------------------
-- Values of a File
------------------------------------------------------------

namespace Settings

/- The value that a file gives to a setting, if it is no null. -/
def given?
    (file : Members)
    (part key : String) : Option Value :=
  Wire.withoutNull ((Table.get? part file).bind (Value.get? key))

/-
  A setting that is known: the part of a file and the key under
  which it stands, and which values it can be read from.
-/
structure Known where
  part : String
  key : String
  reads : Value → Bool

/- The settings that are known. -/
def known : List Known :=
  [ ⟨"parser", "textBufferLimit", fun v => (Wire.size v).isSome⟩,
    ⟨"parser", "structuredBufferLimit",
      fun v => (Wire.size v).isSome⟩,
    ⟨"processor", "maxPendingEvents",
      fun v => (Wire.size v).isSome⟩,
    ⟨"stream", "defaultTarget",
      fun v => (Target.ofValue? v).isSome⟩,
    ⟨"logging", "level", fun v => (Wire.string v).isSome⟩,
    ⟨"logging", "json", fun v => (Wire.bool v).isSome⟩ ]

/- A file gives a known setting a value that cannot be read. -/
def Spoilt (file : Members) : Prop :=
  ∃ k ∈ known, ∃ v,
    given? file k.part k.key = some v ∧ k.reads v = false

/- The parts of a file are objects, as far as they are given. -/
def Parted (file : Members) : Prop :=
  ∀ part ∈ keys,
    Table.get? part file = none ∨
      Table.get? part file = some .null ∨
        ∃ members, Table.get? part file = some (.object members)

end Settings

------------------------------------------------------------
-- Reading Merged Parts
------------------------------------------------------------

namespace Wire

variable {α : Type} {read : Value → Option α} {default : α}

/- A field is not read if and only if its value is not. -/
theorem orDefault_eq_none_iff
    (o : Option Value) :
    orDefault default read o = none ↔
      ∃ v, o = some v ∧ (read v).isSome = false := by
  cases o with
  | none => simp [orDefault]
  | some v => simp [orDefault]

/- A default that is written out is as good as an absent field. -/
theorem orDefault_getD
    {leaf : Value}
    (hLeaf : read leaf = some default)
    (o : Option Value) :
    orDefault default read (some (o.getD leaf)) =
      orDefault default read o := by
  cases o with
  | none => exact hLeaf
  | some v => rfl

end Wire

namespace Settings

section Parts

variable {file below leaves : Members} {part : String}

/-
  A part of the defaults with the file over it: under the key of
  a leaf is what the file gives, or else this leaf.
-/
theorem exists_merged_part
    (hFile : (Value.object file).Ordered)
    (hParted : Parted file)
    (hPart : part ∈ keys)
    (hBelow : Table.get? part below = some (.object leaves)) :
    ∃ members,
      Table.get? part (mergeMembers below file) =
          some (.object members) ∧
        ∀ key leaf,
          Table.get? key leaves = some leaf →
          leaf.members? = none →
          Table.get? key members =
            some ((given? file part key).getD leaf) := by
  have hMerged :=
    get?_mergeMembers below hFile.sorted.nodup part
  rw [hBelow] at hMerged
  unfold given?
  -- Only an object changes the part, any other one is skipped.
  rcases hParted part hPart with hNone | hNull | ⟨above, hThere⟩
  · rw [hNone] at hMerged ⊢
    exact ⟨leaves, hMerged, fun key leaf hLeaf _ => hLeaf⟩
  · rw [hNull] at hMerged ⊢
    exact ⟨leaves, hMerged, fun key leaf hLeaf _ => hLeaf⟩
  · rw [hThere] at hMerged ⊢
    refine ⟨mergeMembers leaves above, ?_, ?_⟩
    · rw [hMerged]
      exact congrArg some (deepMerge_object leaves above)
    · intro key leaf hLeaf hPlain
      have hAbove := (hFile.ordered_of_get? hThere).sorted
      rw [get?_mergeMembers _ hAbove.nodup, hLeaf]
      change _ =
        some ((Wire.withoutNull (Table.get? key above)).getD leaf)
      cases Wire.withoutNull (Table.get? key above) with
      | none => rfl
      | some v =>
          rw [Option.map_some, Option.some_or, mergeOver,
            deepMerge_of_old hPlain]
          rfl

/-
  A field of a merged part is read off the file, if the leaf
  below it is its default.
-/
theorem exists_read_part
    (hFile : (Value.object file).Ordered)
    (hParted : Parted file)
    (hPart : part ∈ keys)
    (hBelow : Table.get? part below = some (.object leaves)) :
    ∃ members,
      Table.get? part (mergeMembers below file) =
          some (.object members) ∧
        ∀ {α : Type} (key : String)
          (read : Value → Option α) (default : α) {leaf : Value},
          Table.get? key leaves = some leaf →
          leaf.members? = none →
          read leaf = some default →
          Wire.orDefault default read (Table.get? key members) =
            Wire.orDefault default read
              (given? file part key) := by
  rcases exists_merged_part hFile hParted hPart hBelow with
    ⟨members, hMerged, hLeaves⟩
  refine ⟨members, hMerged, ?_⟩
  intro α key read default leaf hLeaf hPlain hRead
  rw [hLeaves key leaf hLeaf hPlain, Wire.orDefault_getD hRead]

end Parts

/-
  The settings are read from a file: each of them is read from
  what the file gives to it, or is the default.
-/
structure ReadFrom
    (file : Members)
    (s : Settings) : Prop where
  textLimit :
    Wire.orDefault defaultBufferLimit Wire.size
        (given? file "parser" "textBufferLimit") =
      some s.parser.textLimit
  structuredLimit :
    Wire.orDefault defaultBufferLimit Wire.size
        (given? file "parser" "structuredBufferLimit") =
      some s.parser.structuredLimit
  maxPendingEvents :
    Wire.orDefault defaultMaxPending Wire.size
        (given? file "processor" "maxPendingEvents") =
      some s.processor.maxPendingEvents
  defaultTarget :
    Wire.orDefault .messages Target.ofValue?
        (given? file "stream" "defaultTarget") =
      some s.stream.defaultTarget
  level :
    Wire.orDefault "warn" Wire.string
        (given? file "logging" "level") =
      some s.logging.level
  json :
    Wire.orDefault false Wire.bool
        (given? file "logging" "json") =
      some s.logging.json

section Merged

variable {file below : Members}

theorem merged_parser_iff
    (hFile : (Value.object file).Ordered)
    (hParted : Parted file)
    (hBelow :
      Table.get? "parser" below = some (BufferSettings.toValue {}))
    (s : BufferSettings) :
    Wire.orDefault {} BufferSettings.ofValue?
          (Table.get? "parser" (mergeMembers below file)) =
        some s ↔
      Wire.orDefault defaultBufferLimit Wire.size
            (given? file "parser" "textBufferLimit") =
          some s.textLimit ∧
        Wire.orDefault defaultBufferLimit Wire.size
            (given? file "parser" "structuredBufferLimit") =
          some s.structuredLimit := by
  rcases exists_read_part hFile hParted (by decide) hBelow with
    ⟨members, hPart, hFields⟩
  rw [hPart,
    ← hFields "textBufferLimit" Wire.size defaultBufferLimit
      rfl rfl rfl,
    ← hFields "structuredBufferLimit" Wire.size
      defaultBufferLimit rfl rfl rfl]
  cases s
  simp [Wire.orDefault, BufferSettings.ofValue?, Wire.fields?,
    Option.bind_eq_some_iff]

theorem merged_processor_iff
    (hFile : (Value.object file).Ordered)
    (hParted : Parted file)
    (hBelow :
      Table.get? "processor" below =
        some (ProcessorSettings.toValue {}))
    (s : ProcessorSettings) :
    Wire.orDefault {} ProcessorSettings.ofValue?
          (Table.get? "processor" (mergeMembers below file)) =
        some s ↔
      Wire.orDefault defaultMaxPending Wire.size
          (given? file "processor" "maxPendingEvents") =
        some s.maxPendingEvents := by
  rcases exists_read_part hFile hParted (by decide) hBelow with
    ⟨members, hPart, hFields⟩
  rw [hPart,
    ← hFields "maxPendingEvents" Wire.size defaultMaxPending
      rfl rfl rfl]
  cases s
  simp [Wire.orDefault, ProcessorSettings.ofValue?, Wire.fields?,
    Option.bind_eq_some_iff]

theorem merged_stream_iff
    (hFile : (Value.object file).Ordered)
    (hParted : Parted file)
    (hBelow :
      Table.get? "stream" below = some (StreamSettings.toValue {}))
    (s : StreamSettings) :
    Wire.orDefault {} StreamSettings.ofValue?
          (Table.get? "stream" (mergeMembers below file)) =
        some s ↔
      Wire.orDefault .messages Target.ofValue?
          (given? file "stream" "defaultTarget") =
        some s.defaultTarget := by
  rcases exists_read_part hFile hParted (by decide) hBelow with
    ⟨members, hPart, hFields⟩
  rw [hPart,
    ← hFields "defaultTarget" Target.ofValue? .messages
      rfl rfl rfl]
  cases s
  simp [Wire.orDefault, StreamSettings.ofValue?, Wire.fields?,
    Option.bind_eq_some_iff]

theorem merged_logging_iff
    (hFile : (Value.object file).Ordered)
    (hParted : Parted file)
    (hBelow :
      Table.get? "logging" below =
        some (LoggingSettings.toValue {}))
    (s : LoggingSettings) :
    Wire.orDefault {} LoggingSettings.ofValue?
          (Table.get? "logging" (mergeMembers below file)) =
        some s ↔
      Wire.orDefault "warn" Wire.string
            (given? file "logging" "level") =
          some s.level ∧
        Wire.orDefault false Wire.bool
            (given? file "logging" "json") =
          some s.json := by
  rcases exists_read_part hFile hParted (by decide) hBelow with
    ⟨members, hPart, hFields⟩
  rw [hPart,
    ← hFields "level" Wire.string "warn" rfl rfl rfl,
    ← hFields "json" Wire.bool false rfl rfl rfl]
  cases s
  simp [Wire.orDefault, LoggingSettings.ofValue?, Wire.fields?,
    Option.bind_eq_some_iff]

/- What is read of the defaults with a file over them. -/
theorem ofValue?_merged_eq_some_iff
    (hFile : (Value.object file).Ordered)
    (hParted : Parted file)
    (s : Settings) :
    ofValue? (deepMerge (toValue {}) (.object file)) = some s ↔
      ReadFrom file s := by
  have hDefaults :
      ∃ below : Members,
        toValue {} = .object below ∧
          Table.get? "parser" below =
            some (BufferSettings.toValue {}) ∧
          Table.get? "processor" below =
            some (ProcessorSettings.toValue {}) ∧
          Table.get? "stream" below =
            some (StreamSettings.toValue {}) ∧
          Table.get? "logging" below =
            some (LoggingSettings.toValue {}) :=
    ⟨_, rfl, rfl, rfl, rfl, rfl⟩
  rcases hDefaults with
    ⟨below, hBelow, hParser, hProcessor, hStream, hLogging⟩
  have hParts :
      ofValue? (.object (mergeMembers below file)) = some s ↔
        Wire.orDefault {} BufferSettings.ofValue?
              (Table.get? "parser" (mergeMembers below file)) =
            some s.parser ∧
          Wire.orDefault {} ProcessorSettings.ofValue?
              (Table.get? "processor" (mergeMembers below file)) =
            some s.processor ∧
          Wire.orDefault {} StreamSettings.ofValue?
              (Table.get? "stream" (mergeMembers below file)) =
            some s.stream ∧
          Wire.orDefault {} LoggingSettings.ofValue?
              (Table.get? "logging" (mergeMembers below file)) =
            some s.logging := by
    cases s
    simp [ofValue?, Wire.fields?, Option.bind_eq_some_iff]
  rw [hBelow, deepMerge_object, hParts,
    merged_parser_iff hFile hParted hParser,
    merged_processor_iff hFile hParted hProcessor,
    merged_stream_iff hFile hParted hStream,
    merged_logging_iff hFile hParted hLogging]
  constructor
  · rintro ⟨⟨hText, hStructured⟩, hPending, hTarget, hLevel, hJson⟩
    exact ⟨hText, hStructured, hPending, hTarget, hLevel, hJson⟩
  · intro hRead
    exact
      ⟨⟨hRead.textLimit, hRead.structuredLimit⟩,
        hRead.maxPendingEvents, hRead.defaultTarget, hRead.level,
        hRead.json⟩

/- A known setting that is not spoilt can be read. -/
theorem exists_read
    {α : Type}
    (part key : String)
    (read : Value → Option α)
    (default : α)
    (hGood : ¬ Spoilt file)
    (hKnown : ⟨part, key, fun v => (read v).isSome⟩ ∈ known) :
    ∃ a,
      Wire.orDefault default read (given? file part key) =
        some a := by
  refine Option.ne_none_iff_exists'.mp fun hNone => hGood ?_
  rcases (Wire.orDefault_eq_none_iff _).mp hNone with
    ⟨v, hGiven, hBad⟩
  exact ⟨_, hKnown, v, hGiven, hBad⟩

/- A setting that was read is not spoilt. -/
theorem isSome_of_read
    {α : Type}
    {read : Value → Option α}
    {default a : α}
    {part key : String}
    {v : Value}
    (hRead :
      Wire.orDefault default read (given? file part key) = some a)
    (hGiven : given? file part key = some v) :
    (read v).isSome = true := by
  rw [hGiven] at hRead
  exact Option.isSome_of_eq_some hRead

/- No setting is spoilt in a file that was read. -/
theorem ReadFrom.not_spoilt
    {s : Settings}
    (hRead : ReadFrom file s) :
    ¬ Spoilt file := by
  rintro ⟨k, hKnown, v, hGiven, hBad⟩
  refine Bool.eq_false_iff.mp hBad ?_
  simp only [known, List.mem_cons, List.not_mem_nil, or_false]
    at hKnown
  rcases hKnown with rfl | rfl | rfl | rfl | rfl | rfl
  · exact isSome_of_read hRead.textLimit hGiven
  · exact isSome_of_read hRead.structuredLimit hGiven
  · exact isSome_of_read hRead.maxPendingEvents hGiven
  · exact isSome_of_read hRead.defaultTarget hGiven
  · exact isSome_of_read hRead.level hGiven
  · exact isSome_of_read hRead.json hGiven

/- A file can be read if and only if no known setting is spoilt. -/
theorem exists_readFrom_iff (file : Members) :
    (∃ s, ReadFrom file s) ↔ ¬ Spoilt file := by
  refine ⟨fun ⟨s, hRead⟩ => hRead.not_spoilt, fun hGood => ?_⟩
  rcases exists_read "parser" "textBufferLimit" Wire.size
      defaultBufferLimit hGood (by simp [known]) with
    ⟨textLimit, hText⟩
  rcases exists_read "parser" "structuredBufferLimit" Wire.size
      defaultBufferLimit hGood (by simp [known]) with
    ⟨structuredLimit, hStructured⟩
  rcases exists_read "processor" "maxPendingEvents" Wire.size
      defaultMaxPending hGood (by simp [known]) with
    ⟨maxPending, hPending⟩
  rcases exists_read "stream" "defaultTarget" Target.ofValue?
      .messages hGood (by simp [known]) with
    ⟨target, hTarget⟩
  rcases exists_read "logging" "level" Wire.string "warn"
      hGood (by simp [known]) with
    ⟨level, hLevel⟩
  rcases exists_read "logging" "json" Wire.bool false
      hGood (by simp [known]) with
    ⟨json, hJson⟩
  exact
    ⟨⟨⟨textLimit, structuredLimit⟩, ⟨maxPending⟩, ⟨target⟩,
        ⟨level, json⟩⟩,
      hText, hStructured, hPending, hTarget, hLevel, hJson⟩

end Merged

end Settings

end AnswerStream
