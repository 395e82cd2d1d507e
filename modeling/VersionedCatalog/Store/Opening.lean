import VersionedCatalog.Storage.Provider
import VersionedCatalog.Store.State

/-! # Opening and closing

A store is opened over a backend that a provider opens. A sequential source of ids starts behind the
greatest id the rows ever knew: the one that is written down or the greatest one in the index.
Closing comes first and fails later, so a store whose backend does not close is closed nevertheless.
-/

namespace VersionedCatalog

namespace Store

def idOfBytes (bytes : Bytes) : UInt64 := ((EntityId.ofBytes? bytes).map EntityId.word).getD 0

/-- The greatest id that was ever given. -/
def highestId (backend : Storage.Backend) : Except StoreError UInt64 := do
  let written ← (backend.get Key.watermark).mapError StoreError.backend
  let indexed ← (backend.last [Key.idStem]).mapError StoreError.backend
  let greatest := (indexed.map fun row => idOfBytes (row.1.drop 1)).getD 0
  return max ((written.map idOfBytes).getD 0) greatest

/-- The source of ids for a strategy; `seed` starts the random ones. -/
def idSource (strategy : IdStrategy) (seed : UInt64) (backend : Storage.Backend) :
    Except StoreError IdSource :=
  match strategy with
  | .random => .ok (.random seed)
  | .sequential => do return .startingAfter (← highestId backend)

/-- A store over a backend that is already open. -/
def ofBackend (backend : Storage.Backend) (settings : Settings) (ids : IdSource)
    (clock : Millis) : Except StoreError Store := do
  settings.validateTimes.mapError .settings
  return fresh backend settings ids clock (← highestId backend)

/-- Opens the backend that the settings name, and a store over it. -/
def openFrom (providers : Storage.Providers) (settings : Settings) (seed : UInt64)
    (clock : Millis) (folder : Storage.Folder) : Except StoreError Store × Storage.Folder :=
  match settings.validate with
  | .error error => (.error (.settings error), folder)
  | .ok () =>
    let (opened, folder) := providers.openBackend settings.backend ⟨settings.path, none⟩ folder
    match opened with
    | .error fault => (.error (.backend fault), folder)
    | .ok backend =>
      let store := do
        let ids ← idSource settings.idStrategy seed backend
        ofBackend backend settings ids clock
      match store with
      | .ok store => (.ok store, folder)
      | .error error => (.error error, folder.release)

def close : Action Unit := do
  let store ← get
  if store.closed then return
  set { store with closed := true }
  match store.backend.flush with
  | .error fault => throw (.backend fault)
  | .ok () =>
    match store.backend.close with
    | .error fault => throw (.backend fault)
    | .ok backend => set { store with closed := true, backend }

end Store

end VersionedCatalog
