import AnswerStream.Proofs.Settings.Reading
import AnswerStream.Proofs.Settings.Sizes

/-
  This file proves where each setting comes from: from the
  environment if it gives a valid value, else from the file if
  it gives one that is no null, else from the defaults. A file
  with a known setting that cannot be read is refused, even
  where the environment overrides this setting.

  Key definitions include:
    * `Layered`
    * `Environment.GivesSize`
    * `Settings.FromLayers`

  Main statements:
    * `layered_iff`
    * `Settings.fromLayers_iff`
    * `settings_follow_layers`
-/

namespace AnswerStream

open Json

------------------------------------------------------------
-- Layers
------------------------------------------------------------

/-
  The value of a setting from three layers: what the environment
  gives, else what is read from the value that the file gives,
  else the default.
-/
inductive Layered
    {α : Type}
    (Gives : α → Prop)
    (read : Value → Option α)
    (given : Option Value)
    (default : α) :
    α → Prop where
| environment
    {a : α}
    (hGives : Gives a) :
    Layered Gives read given default a
| file
    {a : α}
    {v : Value}
    (hSilent : ∀ b, ¬ Gives b)
    (hGiven : given = some v)
    (hRead : read v = some a) :
    Layered Gives read given default a
| default
    (hSilent : ∀ b, ¬ Gives b)
    (hGiven : given = none) :
    Layered Gives read given default default

section Layers

variable {α : Type}
variable {Gives : α → Prop} {o : Option α}
variable {read : Value → Option α} {given : Option Value}
variable {default below : α}

/- An environment without a value gives nothing. -/
theorem forall_not_gives_iff
    (hGives : ∀ a, Gives a ↔ o = some a) :
    (∀ a, ¬ Gives a) ↔ o = none := by
  simp only [hGives, Option.eq_none_iff_forall_ne_some, ne_eq]

/-
  What the environment gives, if anything, in place of what is
  read from the file, is the one value that the layers have.
-/
theorem layered_iff
    (hGives : ∀ a, Gives a ↔ o = some a)
    (hRead : Wire.orDefault default read given = some below)
    (a : α) :
    Layered Gives read given default a ↔ a = o.getD below := by
  constructor
  · intro hLayered
    cases hLayered with
    | environment hThere =>
        rw [(hGives a).mp hThere, Option.getD_some]
    | file hSilent hGiven hValue =>
        rw [hGiven, Wire.orDefault, hValue] at hRead
        rw [(forall_not_gives_iff hGives).mp hSilent]
        exact Option.some.inj hRead
    | default hSilent hGiven =>
        rw [hGiven] at hRead
        rw [(forall_not_gives_iff hGives).mp hSilent]
        exact Option.some.inj hRead
  · rintro rfl
    cases o with
    | some b => exact .environment ((hGives b).mpr rfl)
    | none =>
        have hSilent := (forall_not_gives_iff hGives).mpr rfl
        cases given with
        | some v => exact .file hSilent rfl hRead
        | none =>
            cases hRead
            exact .default hSilent rfl

end Layers

------------------------------------------------------------
-- Valid Values of the Environment
------------------------------------------------------------

namespace Target

/- Just the name of a target is read as the target. -/
theorem ofName?_eq_some_iff
    (s : String)
    (target : Target) :
    ofName? s = some target ↔ s = target.name := by
  constructor
  · intro hRead
    unfold ofName? at hRead
    split at hRead
    · cases hRead
      rfl
    · cases hRead
      rfl
    · cases hRead
  · rintro rfl
    cases target <;> rfl

/- A target is parsed if it is named in any case. -/
theorem toOption_parse (s : String) :
    (parse s).toOption = ofName? (Text.lower (Text.trim s)) := by
  unfold parse
  cases hName : ofName? (Text.lower (Text.trim s)) <;>
    simp [hName, Except.toOption]

end Target

namespace Environment

/- A value spells a size that lies between the bounds. -/
def GivesSize
    (env : Environment)
    (name : String)
    (least greatest n : Nat) : Prop :=
  ∃ text, env name = some text ∧
    Spells n text ∧ least ≤ n ∧ n ≤ greatest

/-
  A value is the name of a target, in any case and with any
  white space around it.
-/
def GivesTarget
    (env : Environment)
    (name : String)
    (target : Target) : Prop :=
  ∃ text, env name = some text ∧
    Text.lower (Text.trim text) = target.name

/- A value is a text that is not empty. -/
def GivesText
    (env : Environment)
    (name text : String) : Prop :=
  env name = some text ∧ text ≠ ""

/- A text that is not empty is a positive answer, or is none. -/
def GivesAnswer
    (env : Environment)
    (name : String)
    (yes : Bool) : Prop :=
  ∃ text, env.GivesText name text ∧ isYes text = yes

variable (env : Environment) (name : String)

theorem givesText_iff
    (text : String) :
    env.GivesText name text ↔ env.text? name = some text := by
  simp [GivesText, text?, Option.filter_eq_some_iff]

theorem givesAnswer_iff
    (yes : Bool) :
    env.GivesAnswer name yes ↔
      (env.text? name).map isYes = some yes := by
  simp only [GivesAnswer, givesText_iff, Option.map_eq_some_iff]

/- The size that a value spells, within the bounds. -/
def size?
    (least greatest : Nat) : Option Nat :=
  (env name).bind fun text => parseInRange? text least greatest

theorem givesSize_iff
    {least greatest : Nat}
    (hGreatest : greatest < UInt64.size)
    (n : Nat) :
    env.GivesSize name least greatest n ↔
      env.size? name least greatest = some n := by
  simp only [GivesSize, size?, Option.bind_eq_some_iff,
    parseInRange?_eq_some_iff hGreatest]

theorem value_sizeOr
    (least greatest present : Nat) :
    (env.sizeOr name least greatest present).value =
      (env.size? name least greatest).getD present := by
  unfold sizeOr size?
  cases env name with
  | none => rfl
  | some text =>
      rw [Option.bind_some]
      cases hRead : parseInRange? text least greatest <;>
        simp [hRead]

/- The target that a value names. -/
def target? : Option Target :=
  (env.text? name).bind fun text => (Target.parse text).toOption

theorem givesTarget_iff
    (target : Target) :
    env.GivesTarget name target ↔
      env.target? name = some target := by
  have hParse :
      ∀ text,
        (Target.parse text).toOption = some target ↔
          Text.lower (Text.trim text) = target.name := by
    intro text
    rw [Target.toOption_parse, Target.ofName?_eq_some_iff]
  have hSome :
      ∀ text,
        Text.lower (Text.trim text) = target.name → text ≠ "" := by
    rintro text hName rfl
    cases target <;> revert hName <;> decide
  simp only [target?, Option.bind_eq_some_iff, hParse,
    ← givesText_iff, GivesText, GivesTarget]
  constructor
  · rintro ⟨text, hText, hName⟩
    exact ⟨text, ⟨hText, hSome text hName⟩, hName⟩
  · rintro ⟨text, ⟨hText, -⟩, hName⟩
    exact ⟨text, hText, hName⟩

theorem value_targetOr
    (present : Target) :
    (env.targetOr name present).value =
      (env.target? name).getD present := by
  unfold targetOr target?
  cases env.text? name with
  | none => rfl
  | some text =>
      rw [Option.bind_some]
      cases hRead : Target.parse text <;>
        simp [hRead, Except.toOption]

end Environment

------------------------------------------------------------
-- Settings from Layers
------------------------------------------------------------

namespace Settings

/- Each of the settings comes from its layers. -/
structure FromLayers
    (file : Members)
    (env : Environment)
    (s : Settings) : Prop where
  textLimit :
    Layered
      (env.GivesSize "STRAND_TEXT_BUFFER_LIMIT"
        1 Environment.greatestBufferLimit)
      Wire.size (given? file "parser" "textBufferLimit")
      defaultBufferLimit s.parser.textLimit
  structuredLimit :
    Layered
      (env.GivesSize "STRAND_STRUCTURED_BUFFER_LIMIT"
        1 Environment.greatestBufferLimit)
      Wire.size (given? file "parser" "structuredBufferLimit")
      defaultBufferLimit s.parser.structuredLimit
  maxPendingEvents :
    Layered
      (env.GivesSize "STRAND_MAX_PENDING_EVENTS"
        0 Environment.greatestMaxPending)
      Wire.size (given? file "processor" "maxPendingEvents")
      defaultMaxPending s.processor.maxPendingEvents
  defaultTarget :
    Layered
      (env.GivesTarget "STRAND_DEFAULT_TARGET")
      Target.ofValue? (given? file "stream" "defaultTarget")
      .messages s.stream.defaultTarget
  level :
    Layered
      (env.GivesText "STRAND_LOG_LEVEL")
      Wire.string (given? file "logging" "level")
      "warn" s.logging.level
  json :
    Layered
      (env.GivesAnswer "STRAND_LOG_JSON")
      Wire.bool (given? file "logging" "json")
      false s.logging.json

variable {file : Members} {s : Settings}
variable (env : Environment)

/- What the environment makes of settings, one by one. -/
theorem value_override (s : Settings) :
    (s.override env).value =
      { parser :=
          ⟨(env.size? "STRAND_TEXT_BUFFER_LIMIT"
              1 Environment.greatestBufferLimit).getD
              s.parser.textLimit,
            (env.size? "STRAND_STRUCTURED_BUFFER_LIMIT"
              1 Environment.greatestBufferLimit).getD
              s.parser.structuredLimit⟩
        processor :=
          ⟨(env.size? "STRAND_MAX_PENDING_EVENTS"
              0 Environment.greatestMaxPending).getD
              s.processor.maxPendingEvents⟩
        stream :=
          ⟨(env.target? "STRAND_DEFAULT_TARGET").getD
              s.stream.defaultTarget⟩
        logging :=
          ⟨(env.text? "STRAND_LOG_LEVEL").getD s.logging.level,
            ((env.text? "STRAND_LOG_JSON").map
              Environment.isYes).getD s.logging.json⟩ } := by
  simp only [override, Noted.value_bind, Noted.value_pure,
    Environment.value_sizeOr, Environment.value_targetOr]
  cases env.text? "STRAND_LOG_JSON" <;> rfl

/-
  The settings of a file with the environment over them are the
  ones that come from the layers.
-/
theorem fromLayers_iff
    (hRead : ReadFrom file s)
    (t : Settings) :
    FromLayers file env t ↔ t = (s.override env).value := by
  have hBuffer :
      Environment.greatestBufferLimit < UInt64.size := by decide
  have hPending :
      Environment.greatestMaxPending < UInt64.size := by decide
  rw [value_override]
  constructor
  · intro hLayers
    rcases t with
      ⟨⟨textLimit, structuredLimit⟩, ⟨maxPending⟩, ⟨target⟩,
        ⟨level, json⟩⟩
    obtain rfl : textLimit = _ :=
      (layered_iff (env.givesSize_iff _ hBuffer)
        hRead.textLimit _).mp hLayers.textLimit
    obtain rfl : structuredLimit = _ :=
      (layered_iff (env.givesSize_iff _ hBuffer)
        hRead.structuredLimit _).mp hLayers.structuredLimit
    obtain rfl : maxPending = _ :=
      (layered_iff (env.givesSize_iff _ hPending)
        hRead.maxPendingEvents _).mp hLayers.maxPendingEvents
    obtain rfl : target = _ :=
      (layered_iff (env.givesTarget_iff _)
        hRead.defaultTarget _).mp hLayers.defaultTarget
    obtain rfl : level = _ :=
      (layered_iff (env.givesText_iff _)
        hRead.level _).mp hLayers.level
    obtain rfl : json = _ :=
      (layered_iff (env.givesAnswer_iff _)
        hRead.json _).mp hLayers.json
    rfl
  · rintro rfl
    exact
      { textLimit :=
          (layered_iff (env.givesSize_iff _ hBuffer)
            hRead.textLimit _).mpr rfl
        structuredLimit :=
          (layered_iff (env.givesSize_iff _ hBuffer)
            hRead.structuredLimit _).mpr rfl
        maxPendingEvents :=
          (layered_iff (env.givesSize_iff _ hPending)
            hRead.maxPendingEvents _).mpr rfl
        defaultTarget :=
          (layered_iff (env.givesTarget_iff _)
            hRead.defaultTarget _).mpr rfl
        level :=
          (layered_iff (env.givesText_iff _)
            hRead.level _).mpr rfl
        json :=
          (layered_iff (env.givesAnswer_iff _)
            hRead.json _).mpr rfl }

------------------------------------------------------------
-- Loading
------------------------------------------------------------

/- Settings are valid unless a buffer has no room. -/
theorem validate_cases (s : Settings) :
    ((s.parser.textLimit = 0 ∨ s.parser.structuredLimit = 0) ∧
      ∃ reason,
        (s.validate.map fun _ => s) =
          .error (.invalidValue reason)) ∨
    ((s.parser.textLimit ≠ 0 ∧ s.parser.structuredLimit ≠ 0) ∧
      (s.validate.map fun _ => s) = .ok s) := by
  unfold validate
  split
  · next hText => exact .inl ⟨.inl hText, _, rfl⟩
  · next hText =>
    split
    · next hStructured => exact .inl ⟨.inr hStructured, _, rfl⟩
    · next hStructured => exact .inr ⟨⟨hText, hStructured⟩, rfl⟩

/- The settings of a file, overridden and found valid. -/
theorem value_load
    (bytes : ByteArray)
    (env : Environment) :
    (load (some bytes) env).value =
      (ofFile bytes).bind fun s =>
        (s.override env).value.validate.map fun _ =>
          (s.override env).value := by
  simp only [load, Noted.value_bind, Noted.value_pure]
  cases ofFile bytes <;> rfl

section File

variable {bytes : ByteArray} {text : String}

/- The settings of a file that holds a value. -/
theorem ofFile_of_value?
    {v : Value}
    (hText : String.fromUTF8? bytes = some text)
    (hFile : value? text = some v) :
    ofFile bytes =
      (ofValue? (deepMerge (toValue {}) v)).elim
        (.error .undecodable) .ok := by
  simp only [ofFile, ofFileText?, hText, hFile, Option.bind_some]
  cases ofValue? (deepMerge (toValue {}) v) <;> rfl

/- A file with a spoilt setting is refused. -/
theorem load_of_spoilt
    (hText : String.fromUTF8? bytes = some text)
    (hFile : value? text = some (.object file))
    (hParted : Parted file)
    (hSpoilt : Spoilt file) :
    (load (some bytes) env).value = .error .undecodable := by
  have hNone :
      ofValue? (deepMerge (toValue {}) (.object file)) = none := by
    refine Option.eq_none_iff_forall_ne_some.mpr ?_
    intro s hRead
    exact
      ((ofValue?_merged_eq_some_iff
        (ordered_of_value? hFile) hParted s).mp hRead).not_spoilt
          hSpoilt
  rw [value_load, ofFile_of_value? hText hFile, hNone]
  rfl

/-
  The settings that come from the layers are loaded from any
  other file, if they are valid.
-/
theorem exists_load_of_not_spoilt
    (hText : String.fromUTF8? bytes = some text)
    (hFile : value? text = some (.object file))
    (hParted : Parted file)
    (hGood : ¬ Spoilt file) :
    ∃ s,
      (∀ t, FromLayers file env t ↔ t = s) ∧
        (load (some bytes) env).value =
          s.validate.map fun _ => s := by
  rcases (exists_readFrom_iff file).mpr hGood with ⟨s, hRead⟩
  have hMerged :=
    (ofValue?_merged_eq_some_iff
      (ordered_of_value? hFile) hParted s).mpr hRead
  refine
    ⟨(s.override env).value, fromLayers_iff env hRead, ?_⟩
  rw [value_load, ofFile_of_value? hText hFile, hMerged]
  rfl

end File

end Settings

/-
  Settings follow their layers. A file is refused as one that
  cannot be decoded if and only if it gives a known setting a
  value that cannot be read, whatever the environment says. If
  it gives none, there are settings that come from the layers,
  and these are loaded, unless one of their limits is zero;
  they are then invalid.
-/
theorem settings_follow_layers
    (bytes : ByteArray)
    (text : String)
    (file : Members)
    (env : Environment)
    (hText : String.fromUTF8? bytes = some text)
    (hFile : value? text = some (.object file))
    (hParted : Settings.Parted file) :
    ((Settings.load (some bytes) env).value =
        .error .undecodable ↔
      Settings.Spoilt file) ∧
    (¬ Settings.Spoilt file →
      (∃ s, Settings.FromLayers file env s) ∧
      ∀ s, Settings.FromLayers file env s →
        ((∃ reason,
            (Settings.load (some bytes) env).value =
              .error (.invalidValue reason)) ↔
          s.parser.textLimit = 0 ∨
            s.parser.structuredLimit = 0) ∧
        ((Settings.load (some bytes) env).value = .ok s ↔
          s.parser.textLimit ≠ 0 ∧
            s.parser.structuredLimit ≠ 0)) := by
  by_cases hSpoilt : Settings.Spoilt file
  · have hRefused :=
      Settings.load_of_spoilt env hText hFile hParted hSpoilt
    exact
      ⟨⟨fun _ => hSpoilt, fun _ => hRefused⟩, (absurd hSpoilt ·)⟩
  · rcases
        Settings.exists_load_of_not_spoilt env hText hFile hParted
          hSpoilt with
      ⟨t, hOnly, hLoad⟩
    rw [hLoad]
    refine ⟨⟨?_, (absurd · hSpoilt)⟩, fun _ => ⟨⟨t, ?_⟩, ?_⟩⟩
    · intro hRefused
      rcases t.validate_cases with
        ⟨-, reason, hInvalid⟩ | ⟨-, hValid⟩
      · rw [hInvalid] at hRefused
        cases hRefused
      · rw [hValid] at hRefused
        cases hRefused
    · exact (hOnly t).mpr rfl
    · intro s hLayers
      obtain rfl := (hOnly s).mp hLayers
      rcases s.validate_cases with
        ⟨hZero, reason, hInvalid⟩ | ⟨hRoom, hValid⟩
      · rw [hInvalid]
        refine
          ⟨⟨fun _ => hZero, fun _ => ⟨reason, rfl⟩⟩, nofun, ?_⟩
        exact fun hRoom => absurd hZero (not_or.mpr hRoom)
      · rw [hValid]
        refine ⟨⟨nofun, ?_⟩, fun _ => hRoom, fun _ => rfl⟩
        exact fun hZero => absurd hZero (not_or.mpr hRoom)

/- A limit of zero beside members that are null or not known. -/
def maskedText : String :=
  "\x7b\"x\":1,\"parser\":\x7b\"textBufferLimit\":0," ++
    "\"structuredBufferLimit\":null,\"extra\":[1]\x7d," ++
    "\"stream\":\x7b\"defaultTarget\":\"state\"\x7d," ++
    "\"logging\":null\x7d"

/- The members of this file. -/
def maskedFile : Members :=
  [ ("logging", .null),
    ("parser",
      .object
        [ ("extra", .array [Wire.ofNat 1]),
          ("structuredBufferLimit", .null),
          ("textBufferLimit", Wire.ofNat 0) ]),
    ("stream", .object [("defaultTarget", .string "state")]),
    ("x", Wire.ofNat 1) ]

/- A limit that is valid, a bound that is not, an empty level. -/
def maskingEnvironment : Environment
| "STRAND_TEXT_BUFFER_LIMIT" => some " +007 "
| "STRAND_MAX_PENDING_EVENTS" => some "-1"
| "STRAND_LOG_LEVEL" => some ""
| _ => none

/- The settings from this environment, this file and defaults. -/
def maskedSettings : Settings :=
  { parser := ⟨7, defaultBufferLimit⟩
    stream := ⟨.state⟩ }

theorem parted_maskedFile : Settings.Parted maskedFile := by
  intro part hPart
  simp only [Settings.keys, List.mem_cons, List.not_mem_nil,
    or_false] at hPart
  rcases hPart with rfl | rfl | rfl | rfl
  · exact .inr (.inr ⟨_, rfl⟩)
  · exact .inl rfl
  · exact .inr (.inr ⟨_, rfl⟩)
  · exact .inr (.inl rfl)

/- The file is read with the limit of zero. -/
theorem readFrom_maskedFile :
    Settings.ReadFrom maskedFile
      { parser := ⟨0, defaultBufferLimit⟩
        stream := ⟨.state⟩ } :=
  ⟨rfl, rfl, rfl, rfl, rfl, rfl⟩

/- The limit of the environment stands over the limit of zero. -/
theorem maskedFile_follows_layers :
    String.fromUTF8? maskedText.toUTF8 = some maskedText ∧
    value? maskedText = some (.object maskedFile) ∧
    Settings.Parted maskedFile ∧ ¬ Settings.Spoilt maskedFile ∧
    Settings.FromLayers maskedFile maskingEnvironment
      maskedSettings ∧
    (Settings.load (some maskedText.toUTF8)
      maskingEnvironment).value = .ok maskedSettings := by
  have hText :
      String.fromUTF8? maskedText.toUTF8 = some maskedText :=
    dif_pos maskedText.isValidUTF8
  have hFile : value? maskedText = some (.object maskedFile) := by
    decide +kernel
  have hGood := readFrom_maskedFile.not_spoilt
  have hLayers :
      Settings.FromLayers maskedFile maskingEnvironment
        maskedSettings :=
    (Settings.fromLayers_iff maskingEnvironment
      readFrom_maskedFile maskedSettings).mpr (by decide +kernel)
  have hTold :=
    settings_follow_layers maskedText.toUTF8 maskedText maskedFile
      maskingEnvironment hText hFile parted_maskedFile
  exact
    ⟨hText, hFile, parted_maskedFile, hGood, hLayers,
      ((hTold.2 hGood).2 maskedSettings hLayers).2.mpr
        ⟨by decide, by decide⟩⟩

end AnswerStream
