import JvmDebug.Json

/-!
Settings with their defaults.
-/
namespace JvmDebug

/-- Where log lines go, and which. `level` is a level's name or a list of filter directives. -/
structure LoggingConfig where
  level : String := "info"
  json : Bool := false
  stderr : Bool := true
  file : Option String := none
  deriving DecidableEq, Repr, Inhabited

structure SessionConfig where
  bufferCapacity : UInt64 := 1000
  pollInterval : UInt64 := 1000
  waitTimeout : UInt64 := 30000
  trackThreads : Bool := true
  deriving DecidableEq, Repr, Inhabited

/-- Settings of the connection to a target; times are in milliseconds. -/
structure WireConfig where
  handshakeTimeout : UInt64 := 5000
  replyTimeout : UInt64 := 10000
  eventBacklog : UInt64 := 256
  java : String := "java"
  deriving DecidableEq, Repr, Inhabited

structure Config where
  logging : LoggingConfig := {}
  session : SessionConfig := {}
  wire : WireConfig := {}
  deriving DecidableEq, Repr, Inhabited

/-- How long an event loop waits for events at a time, never zero. -/
def SessionConfig.pollTime (c : SessionConfig) : Nat := max 1 c.pollInterval.toNat

def LoggingConfig.toJson (c : LoggingConfig) : Json :=
  .object [("level", .string c.level), ("json", .bool c.json), ("stderr", .bool c.stderr),
    ("file", .ofOption .string c.file)]

def SessionConfig.toJson (c : SessionConfig) : Json :=
  .object [("event_buffer_capacity", .ofNat c.bufferCapacity.toNat),
    ("event_poll_interval_ms", .ofNat c.pollInterval.toNat),
    ("default_wait_timeout_ms", .ofNat c.waitTimeout.toNat),
    ("track_thread_lifecycle", .bool c.trackThreads)]

def WireConfig.toJson (c : WireConfig) : Json :=
  .object [("handshake_timeout_ms", .ofNat c.handshakeTimeout.toNat),
    ("reply_timeout_ms", .ofNat c.replyTimeout.toNat),
    ("event_channel_size", .ofNat c.eventBacklog.toNat), ("java", .string c.java)]

def Config.toJson (c : Config) : Json :=
  .object [("logging", c.logging.toJson), ("session", c.session.toJson), ("jdwp", c.wire.toJson)]

end JvmDebug
