import VersionedCatalog.Storage.Journal

/-! # Backends

A backend answers reads from its rows and takes batches, all or nothing. It is a journal, or rows
in memory that are gone with it. After closing, calls fail; closing again succeeds, and so does
upkeep of rows in memory, which need none. The calls listed in `faults` fail as if the stored data
were damaged; tests of error paths fill the list.
-/

namespace VersionedCatalog.Storage

inductive Engine
  | memory (rows : Rows) (closed : Bool)
  | journal (state : Journal)
  deriving DecidableEq

namespace Engine

def rows : Engine → Rows
  | .memory rows _ => rows
  | .journal state => state.rows

def isClosed : Engine → Bool
  | .memory _ closed => closed
  | .journal state => state.closed

def name : Engine → String
  | .memory _ _ => "memory"
  | .journal _ => "log"

def write (batch : Batch) : Engine → Except Fault Engine
  | .memory rows closed => .ok (.memory (rows.apply batch) closed)
  | .journal state => do return .journal (← state.write batch)

def maintain : Engine → Except Fault Engine
  | .memory rows closed => .ok (.memory rows closed)
  | .journal state =>
    if state.closed then .error .closed
    else do return .journal (← state.compactIfOvergrown)

def close : Engine → Engine
  | .memory rows _ => .memory rows true
  | .journal state => .journal state.close

end Engine

structure Backend where
  engine : Engine
  faults : List Call
  deriving DecidableEq

namespace Backend

def ofEngine (engine : Engine) : Backend := ⟨engine, []⟩

def inMemory (rows : Rows) : Backend := ofEngine (.memory rows false)

def rows (backend : Backend) : Rows := backend.engine.rows

def name (backend : Backend) : String := backend.engine.name

def isClosed (backend : Backend) : Bool := backend.engine.isClosed

def ensureOpen (backend : Backend) : Except Fault Unit :=
  if backend.isClosed then .error .closed else .ok ()

def ensureSound (backend : Backend) (call : Call) : Except Fault Unit :=
  if call ∈ backend.faults then .error (.corrupted (.injected call)) else .ok ()

/-- Whether a call may go ahead. -/
def permit (backend : Backend) (call : Call) : Except Fault Unit := do
  backend.ensureSound call
  backend.ensureOpen

def get (backend : Backend) (key : Bytes) : Except Fault (Option Bytes) := do
  backend.permit .get
  return backend.rows.get? key

def scan (backend : Backend) (stem : Bytes) : Except Fault (List Row) := do
  backend.permit .scan
  return backend.rows.below stem

def last (backend : Backend) (stem : Bytes) : Except Fault (Option Row) := do
  backend.permit .last
  return backend.rows.lastBelow? stem

def write (backend : Backend) (batch : Batch) : Except Fault Backend := do
  backend.permit .write
  return { backend with engine := ← backend.engine.write batch }

def put (backend : Backend) (key value : Bytes) : Except Fault Backend :=
  backend.write [.put key value]

def delete (backend : Backend) (key : Bytes) : Except Fault Backend :=
  backend.write [.delete key]

def size (backend : Backend) : Except Fault Nat := do
  backend.ensureOpen
  return backend.rows.size

def flush (backend : Backend) : Except Fault Unit := backend.permit .flush

def maintain (backend : Backend) : Except Fault Backend := do
  backend.ensureSound .maintain
  return { backend with engine := ← backend.engine.maintain }

/-- Rewrites the log of a journal; rows in memory have none. -/
def compact (backend : Backend) : Except Fault Backend := do
  backend.ensureOpen
  match backend.engine with
  | .memory _ _ => return backend
  | .journal state => return { backend with engine := .journal (← state.compact) }

/-- Closing twice is closing once. -/
def close (backend : Backend) : Except Fault Backend := do
  backend.ensureSound .close
  return { backend with engine := backend.engine.close }

/-- The length of the log of a journal. -/
def logLength (backend : Backend) : Nat :=
  match backend.engine with
  | .memory _ _ => 0
  | .journal state => state.length

def withFaults (backend : Backend) (faults : List Call) : Backend := { backend with faults }

end Backend

end VersionedCatalog.Storage
