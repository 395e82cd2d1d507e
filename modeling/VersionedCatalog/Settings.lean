import VersionedCatalog.Frame
import VersionedCatalog.Millis
import VersionedCatalog.OrderedMap
import VersionedCatalog.Span
import VersionedCatalog.Text.Blank

/-! # Settings

How a store is opened: its backend, the format of new payloads, its times and how ids are chosen.
Settings may be given as properties, of which missing ones keep their defaults. Superseded versions
are kept for as long as a reader may still need them, and for the skew of the clock besides, so the
first of these times must not be shorter than the second.
-/

namespace VersionedCatalog

inductive IdStrategy
  | random
  | sequential
  deriving DecidableEq

structure Settings where
  backend : String
  path : Option String
  format : Format
  skew : Span
  deleteAfter : Span
  sweepInterval : Option Span
  lockTimeout : Span
  syncOnCommit : Bool
  idStrategy : IdStrategy
  deriving DecidableEq

inductive SettingsError
  | formatName (error : FrameError)
  | notMillis (key value : String)
  | strategy (name : String)
  | notFlag
  | emptyBackend
  | pathMissing (backend : String)
  | shortRetention (deleteAfter skew : Span)
  | zeroInterval
  deriving DecidableEq

namespace Settings

def backendKey : String := "lakemeta.entity.store.kv"

def pathKey : String := "lakemeta.entity.store.kv.path"

def formatKey : String := "lakemeta.entity.serde"

def skewKey : String := "lakemeta.entity.store.maxTransactionSkewTimeMs"

def deleteAfterKey : String := "lakemeta.entity.store.deleteAfterTimeMs"

def sweepIntervalKey : String := "lakemeta.entity.store.gcIntervalMs"

def lockTimeoutKey : String := "lakemeta.entity.store.lockTimeoutMs"

def idStrategyKey : String := "lakemeta.entity.store.idGenerator"

def syncKey : String := "lakemeta.entity.store.syncOnCommit"

end Settings

def SettingsError.message : SettingsError → String
  | .formatName error => s!"{Settings.formatKey}: {error.message}"
  | .notMillis key value => s!"{key}: '{value}' is not a number of milliseconds"
  | .strategy name => s!"{Settings.idStrategyKey}: unknown strategy '{name}'"
  | .notFlag => s!"{Settings.syncKey}: expected true or false"
  | .emptyBackend => "backend name cannot be empty"
  | .pathMissing backend => s!"backend '{backend}' requires a path"
  | .shortRetention deleteAfter skew =>
    s!"delete_after ({deleteAfter.text}) must be at least max_skew_time ({skew.text})"
  | .zeroInterval => "gc_interval must be positive"

namespace Settings

def default : Settings where
  backend := "log"
  path := none
  format := .cbor
  skew := .ofSeconds 1
  deleteAfter := .ofSeconds 1200
  sweepInterval := some (.ofSeconds 600)
  lockTimeout := .ofSeconds 10
  syncOnCommit := true
  idStrategy := .random

def inMemory : Settings := { default with backend := "memory", sweepInterval := none }

/-- How long a version is kept once it is superseded. -/
def retention (settings : Settings) : Span := settings.deleteAfter.add settings.skew

def retentionMillis (settings : Settings) : Millis := settings.retention.millisWord

def skewMillis (settings : Settings) : Millis := settings.skew.millisWord

def validateTimes (settings : Settings) : Except SettingsError Unit := do
  if settings.deleteAfter < settings.skew then
    throw (.shortRetention settings.deleteAfter settings.skew)
  if settings.sweepInterval = some .zero then throw .zeroInterval

def validate (settings : Settings) : Except SettingsError Unit := do
  if settings.backend.isEmpty then throw .emptyBackend
  if settings.backend = "log" ∧ settings.path = none then throw (.pathMissing settings.backend)
  settings.validateTimes

/-- The value of a property, read, if it is there. -/
def readProperty? (properties : OrderedMap String String) (key : String)
    (read : String → Except SettingsError α) : Except SettingsError (Option α) :=
  match properties.get? key with
  | none => .ok none
  | some value => (read value).map some

def readMillis (key value : String) : Except SettingsError Span :=
  match Text.readWord? (Text.trim value) with
  | some word => .ok (.ofMillis word.toNat)
  | none => .error (.notMillis key value)

def lowered (value : String) : String := (Text.trim value).map Char.toLower

def readStrategy (value : String) : Except SettingsError IdStrategy :=
  let name := lowered value
  if name = "random" then .ok .random
  else if name = "sequential" then .ok .sequential
  else .error (.strategy name)

def readFlag (value : String) : Except SettingsError Bool :=
  let name := Text.trim value
  if name = "true" then .ok true
  else if name = "false" then .ok false
  else .error .notFlag

/-- An interval of zero turns background sweeps off. -/
def intervalOf (span : Span) : Option Span := if span = .zero then none else some span

def ofProperties (properties : OrderedMap String String) : Except SettingsError Settings := do
  let millis := fun key => readProperty? properties key (readMillis key)
  let format ← readProperty? properties formatKey fun value =>
    (Format.ofName value).mapError .formatName
  let skew ← millis skewKey
  let deleteAfter ← millis deleteAfterKey
  let sweepInterval ← millis sweepIntervalKey
  let lockTimeout ← millis lockTimeoutKey
  let idStrategy ← readProperty? properties idStrategyKey readStrategy
  let sync ← readProperty? properties syncKey readFlag
  let settings : Settings := {
    backend := ((properties.get? backendKey).map Text.trim).getD default.backend
    path := (properties.get? pathKey).map Text.trim
    format := format.getD default.format
    skew := skew.getD default.skew
    deleteAfter := deleteAfter.getD default.deleteAfter
    sweepInterval := (sweepInterval.map intervalOf).getD default.sweepInterval
    lockTimeout := lockTimeout.getD default.lockTimeout
    syncOnCommit := sync.getD default.syncOnCommit
    idStrategy := idStrategy.getD default.idStrategy }
  settings.validate
  return settings

end Settings

end VersionedCatalog
