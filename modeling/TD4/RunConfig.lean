/-
Settings of a run.

A `RunConfig` holds the wait between two steps, a limit on the steps, and the
nibble on the input port.  It is read from JSON (`ofText`, and `load` for a
file), where a missing setting takes its default, and written as JSON
(`toJson`).

The input must fit in a nibble.  This is checked after the text was found to be
well formed, so a text with both faults is reported as malformed.
-/
import TD4.FileView
import TD4.Json.Layout
import TD4.Json.Record

namespace TD4

/-- Settings of a run. -/
structure RunConfig where
  /-- The wait between two steps in milliseconds. -/
  tickMs : UInt64
  /-- The most successful steps to take; without it a run goes on until a step
  fails or it is stopped. -/
  maxSteps : Option UInt64
  /-- The nibble on the input port. -/
  input : UInt8
  deriving DecidableEq, Repr

/-- Why settings cannot be read. -/
inductive RunConfig.Error
  | file (e : FileError)
  /-- The text is not the JSON of settings. -/
  | malformed
  /-- The input does not fit in a nibble. -/
  | wideInput (input : UInt8)
  deriving DecidableEq, Repr

/-- The wording of an error. -/
def RunConfig.Error.message : RunConfig.Error → String
  | file e => "I/O error: " ++ e.message
  | malformed => "invalid config"
  | wideInput input => "input value " ++ toString input.toNat ++ " does not fit in 4 bits"

namespace RunConfig

/-- A millisecond between steps, no limit, input zero. -/
def default : RunConfig := ⟨1, none, 0⟩

/-- The settings with a limit, unless they have one already. -/
def orMaxSteps (config : RunConfig) (limit : UInt64) : RunConfig :=
  { config with maxSteps := some (config.maxSteps.getD limit) }

/-- The whole seconds of the wait between two steps. -/
def tickSeconds (config : RunConfig) : Nat := config.tickMs.toNat / 1000

/-- The nanoseconds of the wait between two steps beside its whole seconds. -/
def tickNanoseconds (config : RunConfig) : Nat := config.tickMs.toNat % 1000 * 1000000

/-! ### JSON -/

/-- The names of the settings in JSON. -/
def fieldNames : List (List Char) := ["tick_ms".toList, "max_steps".toList, "input".toList]

/-- A limit, where null stands for none. -/
def limit? : Json → Option (Option UInt64)
  | .null => some none
  | value => value.word?.map some

def limitToJson : Option UInt64 → Json
  | some n => .ofWord n
  | none => .null

def toFields (config : RunConfig) : List Json :=
  [.ofWord config.tickMs, limitToJson config.maxSteps, .ofByte config.input]

/-- A field that is read if it is there, and takes a default otherwise. -/
def fieldOr {α : Type} (default : α) (read : Json → Option α) : Option Json → Option α
  | some value => read value
  | none => some default

def ofFields? : List (Option Json) → Option RunConfig
  | [tick, limit, input] => do
    some ⟨← fieldOr default.tickMs Json.word? tick, ← fieldOr default.maxSteps limit? limit,
      ← fieldOr default.input Json.byte? input⟩
  | _ => none

def toJson (config : RunConfig) : Json :=
  .object (List.zipWith Json.member fieldNames config.toFields)

/-- Settings from JSON, the input not yet looked at. -/
def ofJson? (value : Json) : Option RunConfig := (value.fields? fieldNames).bind ofFields?

/-- Settings from a JSON text. -/
def ofText (text : List Char) : Except Error RunConfig :=
  match (Json.parse? text).bind ofJson? with
  | some config => if 0x0F < config.input then .error (.wideInput config.input) else .ok config
  | none => .error .malformed

/-- Settings from a file. -/
def load (files : FileView) (path : List Char) : Except Error RunConfig :=
  match files.readText path with
  | .ok text => ofText text
  | .error e => .error (.file e)

end RunConfig
end TD4
