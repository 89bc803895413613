import JvmDebug.Config
import JvmDebug.Toml.Parse

/-!
Settings read from a document. A key that is missing leaves the default; a key that is no setting
is noted and changes nothing; a value of the wrong type refuses the whole document.
-/
namespace JvmDebug

namespace Toml.Item

def string? : Item → Option String
  | string s => some s
  | _ => none

def boolean? : Item → Option Bool
  | boolean b => some b
  | _ => none

def count? : Item → Option UInt64
  | integer n => if 0 ≤ n then some (UInt64.ofInt n) else none
  | _ => none

end Toml.Item

structure Setting (σ : Type) where
  key : String
  put : Toml.Item → σ → Option σ

namespace Setting
variable {σ α : Type}

def of (key : String) (read : Toml.Item → Option α) (put : σ → α → σ) : Setting σ :=
  ⟨key, fun item s => (read item).map (put s)⟩

/-- Put one entry into a section; the key is noted if it is no setting. -/
def enter (settings : List (Setting σ)) (state : σ × List String) (entry : String × Toml.Item) :
    Option (σ × List String) :=
  match settings.find? fun s => s.key == entry.1 with
  | some s => (s.put entry.2 state.1).map fun section_ => (section_, state.2)
  | none => some (state.1, state.2 ++ [entry.1])

/-- Settings given without keys, in their order; the rest keep their defaults. -/
def enterAll : List (Setting σ) → List Toml.Item → σ → Option σ
  | s :: settings, item :: items, section_ => (s.put item section_).bind (enterAll settings items)
  | _, _, section_ => some section_

end Setting

def dateKey : String := "$__toml_private_datetime"

/-- A section over its defaults, and its keys that are no settings. Besides a table, a list of
values in the order of the settings will do; a date is a table with a single key. -/
def readSection {σ : Type} (settings : List (Setting σ)) (defaults : σ) :
    Toml.Item → Option (σ × List String)
  | .table _ entries => entries.foldlM (Setting.enter settings) (defaults, [])
  | .array items => (Setting.enterAll settings items defaults).map fun s => (s, [])
  | .tables items =>
    (Setting.enterAll settings (items.map (.table .header)) defaults).map fun s => (s, [])
  | .date _ => some (defaults, [dateKey])
  | _ => none

namespace LoggingConfig

def settings : List (Setting LoggingConfig) :=
  [.of "level" Toml.Item.string? fun c level => { c with level },
    .of "json" Toml.Item.boolean? fun c json => { c with json },
    .of "stderr" Toml.Item.boolean? fun c stderr => { c with stderr },
    .of "file" Toml.Item.string? fun c file => { c with file := some file }]

/-- What stands for the keys that the section does not give. A section that is missing has the
defaults of its type instead. -/
def keyDefaults : LoggingConfig := { level := "info", json := false, stderr := true, file := none }

end LoggingConfig

namespace SessionConfig

def settings : List (Setting SessionConfig) :=
  [.of "event_buffer_capacity" Toml.Item.count? fun c bufferCapacity => { c with bufferCapacity },
    .of "event_poll_interval_ms" Toml.Item.count? fun c pollInterval => { c with pollInterval },
    .of "default_wait_timeout_ms" Toml.Item.count? fun c waitTimeout => { c with waitTimeout },
    .of "track_thread_lifecycle" Toml.Item.boolean? fun c trackThreads => { c with trackThreads }]

def keyDefaults : SessionConfig :=
  { bufferCapacity := 1000, pollInterval := 1000, waitTimeout := 30000, trackThreads := true }

end SessionConfig

namespace WireConfig

def settings : List (Setting WireConfig) :=
  [.of "handshake_timeout_ms" Toml.Item.count? fun c handshakeTimeout => { c with handshakeTimeout },
    .of "reply_timeout_ms" Toml.Item.count? fun c replyTimeout => { c with replyTimeout },
    .of "event_channel_size" Toml.Item.count? fun c eventBacklog => { c with eventBacklog },
    .of "java" Toml.Item.string? fun c java => { c with java }]

def keyDefaults : WireConfig :=
  { handshakeTimeout := 5000, replyTimeout := 10000, eventBacklog := 256, java := "java" }

end WireConfig

namespace Config

def enter (state : Config × List String) (entry : String × Toml.Item) :
    Option (Config × List String) :=
  let (c, unknown) := state
  let (name, item) := entry
  let known {σ : Type} (settings : List (Setting σ)) (defaults : σ) (put : σ → Config) :
      Option (Config × List String) :=
    (readSection settings defaults item).map fun (s, keys) =>
      (put s, unknown ++ keys.map fun key => name ++ "." ++ key)
  if name = "logging" then
    known LoggingConfig.settings LoggingConfig.keyDefaults fun logging => { c with logging }
  else if name = "session" then
    known SessionConfig.settings SessionConfig.keyDefaults fun session => { c with session }
  else if name = "jdwp" then
    known WireConfig.settings WireConfig.keyDefaults fun wire => { c with wire }
  else some (c, unknown ++ [name])

def sorted (keys : List String) : List String :=
  (keys.mergeSort fun a b => !decide (b < a)).eraseReps

def reported (path : String) : String := String.ofList (path.toList.dropWhile (· == '.'))

def ofEntries? (entries : Toml.Entries) : Option (Config × List String) :=
  (entries.foldlM enter ({}, [])).map fun (c, unknown) => (c, sorted (unknown.map reported))

def parse? (text : String) : Option (Config × List String) := (Toml.parse? text).bind ofEntries?

end Config

end JvmDebug
