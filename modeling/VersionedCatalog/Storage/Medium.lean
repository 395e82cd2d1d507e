import VersionedCatalog.Storage.Disk
import VersionedCatalog.Storage.Provider

/-! # Media

A medium is what backends are opened over and what they leave behind when they are closed or lost:
rows that somebody keeps in memory, and a disk for the folders of logs. Each kind of backend goes on
where the last one of its kind ended. Opening a log may change its files even when it fails.
-/

namespace VersionedCatalog.Storage

structure Medium where
  rows : Rows
  disk : Disk
  deriving DecidableEq

namespace Medium

def ofRows (rows : Rows) : Medium := ⟨rows, .empty⟩

/-- Opens a backend of one kind. A log is opened in the folder at a path; a threshold is its own. -/
def openBackend (medium : Medium) (provider : Provider) (path : String) (threshold : Nat) :
    Except Fault Backend × Medium :=
  match provider with
  | .memory => (.ok (.inMemory medium.rows), medium)
  | .log =>
    let (opened, folder) := Journal.openIn path threshold (medium.disk.folderAt path)
    (opened.map fun journal => .ofEngine (.journal journal),
      { medium with disk := medium.disk.withFolder path folder })

/-- The medium with what a backend over it has made of it up to now. -/
def under (medium : Medium) (backend : Backend) : Medium :=
  match backend.engine with
  | .memory rows _ => { medium with rows }
  | .journal state => { medium with disk := medium.disk.withFolder state.path state.folder }

/-- The medium after a backend over it is gone; nobody owns its folder any more. -/
def after (medium : Medium) (backend : Backend) : Medium :=
  match backend.engine with
  | .memory rows _ => { medium with rows }
  | .journal state => { medium with disk := medium.disk.withFolder state.path state.abandon }

end Medium

/-- The backend with the files of a journal as they are on a disk. -/
def Backend.onDisk (backend : Backend) (disk : Disk) : Backend :=
  match backend.engine with
  | .memory _ _ => backend
  | .journal state =>
    { backend with engine := .journal { state with folder := disk.folderAt state.path } }

end VersionedCatalog.Storage
