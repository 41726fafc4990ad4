import AnswerStream.Target

/-
  This file defines the settings, their defaults, their wire
  form and their validity. Every part of the wire form may be
  missing and then has its default.

  Key definitions include:
    * `BufferSettings`
    * `ProcessorSettings`
    * `StreamSettings`
    * `LoggingSettings`
    * `Settings`
    * `SettingsError`
    * `Settings.validate`
-/

namespace AnswerStream

open Json

------------------------------------------------------------
-- Parts of the Settings
------------------------------------------------------------

/- The default size of a buffer in bytes. -/
def defaultBufferLimit : Nat := 64 * 1024

/- The default bound of the reorder buffer. -/
def defaultMaxPending : Nat := 1024

/-
  The sizes of the buffers in bytes: prose beyond its size is
  shortened from the front, a fence beyond its size is an
  error.
-/
structure BufferSettings where
  textLimit : Nat := defaultBufferLimit
  structuredLimit : Nat := defaultBufferLimit
deriving DecidableEq, Repr

/-
  The number of early events that are held, zero for any.
-/
structure ProcessorSettings where
  maxPendingEvents : Nat := defaultMaxPending
deriving DecidableEq, Repr

/- The target of a stream that names none. -/
structure StreamSettings where
  defaultTarget : Target := .messages
deriving DecidableEq, Repr

/- The level of the log, and whether its lines are JSON. -/
structure LoggingSettings where
  level : String := "warn"
  json : Bool := false
deriving DecidableEq, Repr

/- All settings. -/
structure Settings where
  parser : BufferSettings := {}
  processor : ProcessorSettings := {}
  stream : StreamSettings := {}
  logging : LoggingSettings := {}
deriving DecidableEq, Repr

/- The bound of the reorder buffer, if there is one. -/
def ProcessorSettings.maxPending
    (s : ProcessorSettings) : Option Nat :=
  if 0 < s.maxPendingEvents then some s.maxPendingEvents
  else none

------------------------------------------------------------
-- Wire Form
------------------------------------------------------------

namespace BufferSettings

/- The keys of buffer settings, in order. -/
def keys : List String :=
  ["textBufferLimit", "structuredBufferLimit"]

/- The wire form of buffer settings. -/
def toValue (s : BufferSettings) : Value :=
  Wire.record
    [ ("textBufferLimit", some (Wire.ofNat s.textLimit)),
      ("structuredBufferLimit",
        some (Wire.ofNat s.structuredLimit)) ]

/- The buffer settings of a wire form. -/
def ofValue? (v : Value) : Option BufferSettings := do
  let field ← Wire.fields? keys v
  return {
    textLimit :=
      ← Wire.orDefault defaultBufferLimit Wire.size
        (field "textBufferLimit")
    structuredLimit :=
      ← Wire.orDefault defaultBufferLimit Wire.size
        (field "structuredBufferLimit") }

end BufferSettings

namespace ProcessorSettings

/- The keys of processor settings, in order. -/
def keys : List String :=
  ["maxPendingEvents"]

/- The wire form of processor settings. -/
def toValue (s : ProcessorSettings) : Value :=
  Wire.record
    [("maxPendingEvents", some (Wire.ofNat s.maxPendingEvents))]

/- The processor settings of a wire form. -/
def ofValue? (v : Value) : Option ProcessorSettings := do
  let field ← Wire.fields? keys v
  return {
    maxPendingEvents :=
      ← Wire.orDefault defaultMaxPending Wire.size
        (field "maxPendingEvents") }

end ProcessorSettings

namespace StreamSettings

/- The keys of stream settings, in order. -/
def keys : List String :=
  ["defaultTarget"]

/- The wire form of stream settings. -/
def toValue (s : StreamSettings) : Value :=
  Wire.record [("defaultTarget", some s.defaultTarget.toValue)]

/- The stream settings of a wire form. -/
def ofValue? (v : Value) : Option StreamSettings := do
  let field ← Wire.fields? keys v
  return {
    defaultTarget :=
      ← Wire.orDefault .messages Target.ofValue?
        (field "defaultTarget") }

end StreamSettings

namespace LoggingSettings

/- The keys of logging settings, in order. -/
def keys : List String :=
  ["level", "json"]

/- The wire form of logging settings. -/
def toValue (s : LoggingSettings) : Value :=
  Wire.record
    [ ("level", some (.string s.level)),
      ("json", some (.bool s.json)) ]

/- The logging settings of a wire form. -/
def ofValue? (v : Value) : Option LoggingSettings := do
  let field ← Wire.fields? keys v
  return {
    level := ← Wire.orDefault "warn" Wire.string (field "level")
    json := ← Wire.orDefault false Wire.bool (field "json") }

end LoggingSettings

namespace Settings

/- The keys of the settings, in order. -/
def keys : List String :=
  ["parser", "processor", "stream", "logging"]

/- The wire form of the settings. -/
def toValue (s : Settings) : Value :=
  Wire.record
    [ ("parser", some s.parser.toValue),
      ("processor", some s.processor.toValue),
      ("stream", some s.stream.toValue),
      ("logging", some s.logging.toValue) ]

/- The settings of a wire form. -/
def ofValue? (v : Value) : Option Settings := do
  let field ← Wire.fields? keys v
  return {
    parser :=
      ← Wire.orDefault {} BufferSettings.ofValue? (field "parser")
    processor :=
      ← Wire.orDefault {} ProcessorSettings.ofValue?
        (field "processor")
    stream :=
      ← Wire.orDefault {} StreamSettings.ofValue? (field "stream")
    logging :=
      ← Wire.orDefault {} LoggingSettings.ofValue?
        (field "logging") }

end Settings

------------------------------------------------------------
-- Validity
------------------------------------------------------------

/-
  Why settings are refused: the file cannot be read as text,
  it does not hold settings, or a value cannot be used.
-/
inductive SettingsError where
| unreadable
| undecodable
| invalidValue (reason : String)
deriving DecidableEq, Repr

/- The wording of a refusal. -/
def SettingsError.message : SettingsError → String
  | .unreadable => "failed to read settings file"
  | .undecodable => "failed to parse settings JSON"
  | .invalidValue reason => "invalid settings value: " ++ reason

/- A limit of zero bytes leaves no room for any text. -/
def SettingsError.zeroLimit (key : String) : SettingsError :=
  .invalidValue ("parser." ++ key ++ " must be > 0")

/- The settings, unless a buffer has no room. -/
def Settings.validate
    (s : Settings) : Except SettingsError Unit :=
  if s.parser.textLimit = 0 then
    .error (.zeroLimit "textBufferLimit")
  else if s.parser.structuredLimit = 0 then
    .error (.zeroLimit "structuredBufferLimit")
  else
    .ok ()

end AnswerStream
