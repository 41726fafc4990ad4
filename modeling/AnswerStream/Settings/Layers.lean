import AnswerStream.Note
import AnswerStream.Settings.Basic

/-
  This file defines how the settings are put together from
  three layers: the defaults, the settings file over them, and
  the environment over both.

  Key definitions include:
    * `deepMerge`
    * `parseInRange?`
    * `Settings.override`
    * `Settings.filePath`
    * `Settings.load`
-/

namespace AnswerStream

open Json

------------------------------------------------------------
-- Merging Values
------------------------------------------------------------

mutual

/-
  One value over another: objects are merged key by key, and
  any other value replaces what is below it.
-/
def deepMerge (target source : Value) : Value :=
  match target, source with
  | .object below, .object above =>
      .object (mergeMembers below above)
  | _, source => source

/- Members over others; a null leaves what is below it. -/
def mergeMembers
    (below : Members) : List (String × Value) → Members
  | [] => below
  | (key, v) :: rest =>
      if v = .null then mergeMembers below rest
      else
        let merged :=
          match Table.get? key below with
          | some old => deepMerge old v
          | none => v
        mergeMembers (Members.insert key merged below) rest

end

------------------------------------------------------------
-- Reading Sizes
------------------------------------------------------------

/- The number of decimal digits, none if there are others. -/
def decimal?
    (cs : List Char) : Option Nat :=
  if cs.isEmpty || !cs.all Char.isDigit then none
  else
    some (cs.foldl
      (fun n c => n * 10 + (c.toNat - '0'.toNat)) 0)

/-
  The 64-bit size of a text, with white space around it and
  perhaps a plus sign in front.
-/
def parseSize? (s : String) : Option Nat := do
  let digits :=
    match (Text.trim s).toList with
    | '+' :: rest => rest
    | cs => cs
  let n ← decimal? digits
  if n < UInt64.size then some n else none

/- The size of a text if it lies between the bounds. -/
def parseInRange?
    (s : String)
    (least greatest : Nat) : Option Nat := do
  let n ← parseSize? s
  if least ≤ n ∧ n ≤ greatest then some n else none

------------------------------------------------------------
-- The Environment
------------------------------------------------------------

/- An environment gives names their values. -/
abbrev Environment :=
  String → Option String

namespace Environment

/- The greatest limit of a buffer. -/
def greatestBufferLimit : Nat := 64 * 1024 * 1024

/- The greatest bound of the reorder buffer. -/
def greatestMaxPending : Nat := 1000000

/- A value that is not empty. -/
def text?
    (env : Environment)
    (name : String) : Option String :=
  (env name).filter fun v => !v.isEmpty

/-
  A size in place of the given one; a value that is none is
  noted and passed over.
-/
def sizeOr
    (env : Environment)
    (name : String)
    (least greatest : Nat)
    (present : Nat) : Noted Nat :=
  match env name with
  | none => pure present
  | some v =>
      match parseInRange? v least greatest with
      | some n => pure n
      | none => do
          Noted.say <| Note.warn
            "invalid usize env var, ignoring"
            [("key", name), ("value", v)]
          return present

/-
  A target in place of the given one; a value that is none is
  noted and passed over.
-/
def targetOr
    (env : Environment)
    (name : String)
    (present : Target) : Noted Target :=
  match env.text? name with
  | none => pure present
  | some v =>
      match Target.parse v with
      | .ok target => pure target
      | .error e => do
          Noted.say <| Note.warn
            "invalid env var, ignoring"
            [("key", name), ("error", e.message)]
          return present

/- The names of a positive answer. -/
def isYes (s : String) : Bool :=
  Text.trim s == "1" || Text.trim s == "true"

end Environment

namespace Settings

/- The settings with what the environment overrides. -/
def override
    (s : Settings)
    (env : Environment) : Noted Settings := do
  let textLimit ←
    env.sizeOr "STRAND_TEXT_BUFFER_LIMIT"
      1 Environment.greatestBufferLimit s.parser.textLimit
  let structuredLimit ←
    env.sizeOr "STRAND_STRUCTURED_BUFFER_LIMIT"
      1 Environment.greatestBufferLimit s.parser.structuredLimit
  let maxPendingEvents ←
    env.sizeOr "STRAND_MAX_PENDING_EVENTS"
      0 Environment.greatestMaxPending
      s.processor.maxPendingEvents
  let defaultTarget ←
    env.targetOr "STRAND_DEFAULT_TARGET" s.stream.defaultTarget
  return {
    parser := ⟨textLimit, structuredLimit⟩
    processor := ⟨maxPendingEvents⟩
    stream := ⟨defaultTarget⟩
    logging := {
      level :=
        (env.text? "STRAND_LOG_LEVEL").getD s.logging.level
      json :=
        match env.text? "STRAND_LOG_JSON" with
        | some v => Environment.isYes v
        | none => s.logging.json } }

------------------------------------------------------------
-- The Settings File
------------------------------------------------------------

/- One more segment behind a path. -/
def joinPath
    (path segment : String) : String :=
  if path.isEmpty || path.toList.getLast? == some '/' then
    path ++ segment
  else
    path ++ "/" ++ segment

/- The path of the settings file below the home directory. -/
def filePath (home : Option String) : String :=
  joinPath
    (joinPath (home.getD "/tmp") ".strand") "settings.json"

/- The settings of the text of a file, over the defaults. -/
def ofFileText? (s : String) : Option Settings :=
  (value? s).bind fun user =>
    ofValue? (deepMerge (toValue {}) user)

/- The settings of the bytes of a file. -/
def ofFile
    (bytes : ByteArray) : Except SettingsError Settings :=
  match String.fromUTF8? bytes with
  | none => .error .unreadable
  | some s =>
      match ofFileText? s with
      | none => .error .undecodable
      | some settings => .ok settings

/-
  The settings of the file, if there is one, and the
  environment.
-/
def load
    (file : Option ByteArray)
    (env : Environment) :
    Noted (Except SettingsError Settings) := do
  let below ←
    match file with
    | some bytes => do
        Noted.say (Note.debug "loading settings from file" [])
        pure (ofFile bytes)
    | none => do
        Noted.say <|
          Note.debug "settings file not found, using defaults" []
        pure (.ok {})
  match below with
  | .error e => return .error e
  | .ok settings => do
      let settings ← settings.override env
      return settings.validate.map fun _ => settings

end Settings

end AnswerStream
