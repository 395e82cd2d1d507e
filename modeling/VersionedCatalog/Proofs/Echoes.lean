import VersionedCatalog.Proofs.ExactRecords
import VersionedCatalog.Proofs.Twins

/-! # Preparing with other stamps

Over one backend a mutation that draws no id is prepared in the same way whatever stamps were given
out before, as long as nobody holds locks: it fails with the same error, has nothing to write and the
same answer, or has the same to write, but for the stamps (`Mutation.accord`). One thing more may
differ: a new id is written as the greatest one only if it is greater than the one that the store
remembers. So batches that echo each other (`Storage.Batch.Echoes`) have records of the same size,
unless one of them raises the greatest id and the other one does not, and a backend that refuses one
of them refuses the other (`Storage.Backend.agree_write`).
-/

namespace VersionedCatalog

open Storage (Rows Backend Batch Op)
open Outcome (Agree)
open VersionedCatalog.Action

/-! ### Batches -/

namespace Storage

/-- Two operations that are the same but for the stamp of a version. -/
inductive OpEcho : Op → Op → Prop
  | same (op : Op) : OpEcho op op
  | version (stem value : Bytes) (stamp other : Stamp) :
      OpEcho (.put (Key.version stem stamp) value) (.put (Key.version stem other) value)

/-- Two batches that are the same but for stamps. Unless they are marked alike, what raises the
greatest id may be missing in the second one. -/
inductive Batch.Echoes (marked : Prop) : Batch → Batch → Prop
  | intro {front others raise otherRaise : Batch} (ops : List.Forall₂ OpEcho front others)
      (raises : ∀ op ∈ raise, op.key = Key.watermark)
      (same : otherRaise = raise ∨ ¬ marked ∧ otherRaise = []) :
      Batch.Echoes marked (front ++ raise) (others ++ otherRaise)

theorem OpEcho.symm {op other : Op} (hEcho : OpEcho op other) : OpEcho other op := by
  cases hEcho with
  | same => exact .same op
  | version stem value stamp other => exact .version stem value other stamp

/-- Keys of versions have the same length whatever the stamps. -/
theorem OpEcho.length_key {op other : Op} (hEcho : OpEcho op other) :
    op.key.length = other.key.length := by
  cases hEcho with
  | same => rfl
  | version stem value stamp other =>
    simp only [Op.key, Key.version, List.length_append, Stamp.length_bytes]

/-- What one operation writes in a slot the other one writes there too. -/
theorem OpEcho.exists_put {slot : Slot} {stamp : Stamp} {value : Bytes} {other : Op}
    (hEcho : OpEcho (.put (slot.key stamp) value) other) :
    ∃ otherStamp, other = .put (slot.key otherStamp) value := by
  generalize hOp : Op.put (slot.key stamp) value = op at hEcho
  cases hEcho with
  | same => exact ⟨stamp, hOp.symm⟩
  | version stem found foundStamp otherStamp =>
    obtain ⟨hKey, rfl⟩ := Op.put.inj hOp
    obtain ⟨rfl, _⟩ := Key.version_injective hKey
    exact ⟨otherStamp, rfl⟩

theorem forall₂_opEcho_refl (batch : Batch) : List.Forall₂ OpEcho batch batch :=
  List.forall₂_same.mpr fun op _ => .same op

theorem exists_of_mem_forall₂ {α β : Type} {R : α → β → Prop} {l : List α} {m : List β}
    (hRel : List.Forall₂ R l m) {a : α} (hMem : a ∈ l) : ∃ b ∈ m, R a b := by
  induction hRel with
  | nil => cases hMem
  | cons hFirst _ ih =>
    rcases List.mem_cons.mp hMem with rfl | hMem
    · exact ⟨_, List.mem_cons_self, hFirst⟩
    · obtain ⟨b, hB, hRelated⟩ := ih hMem
      exact ⟨b, List.mem_cons_of_mem _ hB, hRelated⟩

/-- What is written in a slot in one of two lists is written there in the other one. -/
theorem Batch.puts_of_forall₂ {batch other : Batch} (hOps : List.Forall₂ OpEcho batch other)
    {slot : Slot} {value : Bytes} (hPuts : batch.Puts slot value) : other.Puts slot value := by
  obtain ⟨stamp, hPut⟩ := hPuts
  obtain ⟨op, hMem, hEcho⟩ := exists_of_mem_forall₂ hOps hPut
  obtain ⟨otherStamp, rfl⟩ := hEcho.exists_put
  exact ⟨otherStamp, hMem⟩

/-- What raises the greatest id writes no version. -/
theorem Batch.puts_append_iff {front raise : Batch} (hRaises : ∀ op ∈ raise, op.key = Key.watermark)
    {slot : Slot} {value : Bytes} :
    Batch.Puts (front ++ raise) slot value ↔ front.Puts slot value := by
  refine exists_congr fun stamp => List.mem_append.trans (or_iff_left fun hPut => ?_)
  exact slot.key_ne_watermark stamp (hRaises _ hPut)

namespace Batch.Echoes

variable {marked : Prop} {batch other : Batch}

theorem of_forall₂ (hOps : List.Forall₂ OpEcho batch other) : Batch.Echoes marked batch other := by
  have hEchoes : Batch.Echoes marked (batch ++ []) (other ++ []) := .intro hOps nofun (.inl rfl)
  rwa [List.append_nil, List.append_nil] at hEchoes

variable (hEchoes : Batch.Echoes marked batch other)
include hEchoes

theorem mono {less : Prop} (hLess : less → marked) : Batch.Echoes less batch other := by
  cases hEchoes with
  | intro ops raises same => exact .intro ops raises (same.imp_right (And.imp_left (mt hLess)))

theorem forall₂ (hMarked : marked) : List.Forall₂ OpEcho batch other := by
  cases hEchoes with
  | intro ops raises same =>
    rw [same.resolve_right fun hNot => hNot.1 hMarked]
    exact List.rel_append ops (forall₂_opEcho_refl _)

/-- Both batches write the same values in the same slots. -/
theorem puts_iff {slot : Slot} {value : Bytes} : other.Puts slot value ↔ batch.Puts slot value := by
  cases hEchoes with
  | @intro front others raise otherRaise ops raises same =>
    have hOtherRaises : ∀ op ∈ otherRaise, op.key = Key.watermark := by
      rcases same with rfl | ⟨_, rfl⟩
      · exact raises
      · exact nofun
    rw [puts_append_iff raises, puts_append_iff hOtherRaises]
    exact ⟨puts_of_forall₂ (List.Forall₂.flip (ops.imp fun _ _ hEcho => hEcho.symm)),
      puts_of_forall₂ ops⟩

end Batch.Echoes

/-! ### Records of the same size -/

namespace Record

/-- Whether two parts have the same length. -/
def SameLength (a b : Bytes) : Prop := a.length = b.length

theorem agree_sized {a b : Bytes} (hLength : a.length = b.length) :
    Agree SameLength (sized a) (sized b) := by
  rw [sized, sized, hLength]
  refine Agree.refl.bind fun word _ hSame => ?_
  cases hSame
  exact .ok (by simp only [SameLength, List.length_append, hLength])

theorem agree_encodeOp {op other : Op} (hEcho : OpEcho op other) :
    Agree SameLength (encodeOp op) (encodeOp other) := by
  have hKey := hEcho.length_key
  cases hEcho with
  | same =>
    cases encodeOp op with
    | ok bytes => exact .ok rfl
    | error fault => exact .error fault
  | version stem value stamp other =>
    refine (agree_sized hKey).bind fun first second hFirst => ?_
    refine (agree_sized (a := value) rfl).bind fun one two hValue => .ok ?_
    simp only [SameLength, List.length_cons, List.length_append] at hFirst hValue ⊢
    omega

theorem agree_encodeOps {batch other : Batch} (hOps : List.Forall₂ OpEcho batch other) :
    Agree SameLength (encodeOps batch) (encodeOps other) := by
  induction hOps with
  | nil => exact .ok rfl
  | cons hFirst _ ih =>
    refine (agree_encodeOp hFirst).bind fun first second hOp => ?_
    refine ih.bind fun rest more hRest => .ok ?_
    simp only [SameLength, List.length_append] at hOp hRest ⊢
    omega

/-- Batches that are the same but for stamps have records, or are too large, alike. -/
theorem agree_encode {batch other : Batch} (hOps : List.Forall₂ OpEcho batch other) :
    Agree (fun _ _ => True) (encode batch) (encode other) := by
  rw [encode, encode, hOps.length_eq]
  refine Agree.refl.bind fun count _ hSame => ?_
  cases hSame
  refine (agree_encodeOps hOps).bind fun ops others hLength => ?_
  have hBody : (count ++ ops).length = (count ++ others).length := by
    simp only [SameLength, List.length_append] at hLength ⊢
    omega
  exact (agree_sized hBody).bind fun _ _ _ => .ok trivial

end Record

theorem Record.opsSize_append (front rest : Batch) :
    opsSize (front ++ rest) = opsSize front + opsSize rest := by
  simp only [opsSize, List.map_append, List.sum_append]

theorem Record.opsSize_eq {batch other : Batch} (hOps : List.Forall₂ OpEcho batch other) :
    opsSize other = opsSize batch := by
  induction hOps with
  | nil => rfl
  | @cons op otherOp _ _ hFirst _ ih =>
    have hSize : opSize otherOp = opSize op := by
      have hKey := hFirst.length_key
      cases hFirst with
      | same => rfl
      | version stem value stamp other =>
        simp only [Op.key] at hKey
        simp only [opSize, hKey]
    rw [opsSize_cons, opsSize_cons, hSize, ih]

/-- If one batch fits into a record, another one fits in which no more may be missing than what raises
the greatest id. -/
theorem Batch.Echoes.fits {marked : Prop} {batch other : Batch}
    (hEchoes : Batch.Echoes marked batch other) (hFits : Record.Fits batch) : Record.Fits other := by
  cases hEchoes with
  | @intro front others raise otherRaise ops raises same =>
    have hRaise : Record.opsSize otherRaise ≤ Record.opsSize raise := by
      rcases same with rfl | ⟨_, rfl⟩
      · exact Nat.le_refl _
      · exact Nat.zero_le _
    rw [Record.Fits, Record.opsSize_append] at hFits ⊢
    rw [Record.opsSize_eq ops]
    omega

/-- What a journal takes fits into a record. -/
theorem Journal.fits_of_write {journal written : Journal} {batch : Batch}
    (hOk : journal.write batch = .ok written) : Record.Fits batch := by
  unfold Journal.write at hOk
  split at hOk
  next hEmpty =>
    rw [List.isEmpty_iff.mp hEmpty]
    decide
  next =>
    obtain ⟨record, hRecord, _⟩ := Outcome.bind_eq_ok hOk
    exact Record.exists_encode_iff.mp ⟨record, hRecord⟩

theorem Journal.agree_write (journal another : Journal) {batch other : Batch}
    (hOps : List.Forall₂ OpEcho batch other) :
    Agree (fun _ _ => True) (journal.write batch) (another.write other) := by
  have hRecords := Record.agree_encode hOps
  generalize hRecord : Record.encode batch = record, hOther : Record.encode other = otherRecord
    at hRecords
  cases hRecords with
  | ok =>
    obtain ⟨written, hWrite⟩ := journal.exists_write (Record.exists_encode_iff.mp ⟨_, hRecord⟩)
    obtain ⟨otherWritten, hOtherWrite⟩ :=
      another.exists_write (Record.exists_encode_iff.mp ⟨_, hOther⟩)
    rw [hWrite, hOtherWrite]
    exact .ok trivial
  | error fault =>
    cases hOps with
    | nil => cases hRecord
    | cons =>
      simp only [Journal.write, List.isEmpty_cons, Bool.false_eq_true, if_false, hRecord, hOther]
      exact .error fault

namespace Backend

/-- Whether batches are written to a log. -/
def isLogged (backend : Backend) : Bool :=
  match backend.engine with
  | .memory _ _ => false
  | .journal _ => true

theorem isLogged_write {backend written : Backend} {batch : Batch}
    (hOk : backend.write batch = .ok written) : written.isLogged = backend.isLogged := by
  obtain ⟨_, _, hRest⟩ := Outcome.bind_eq_ok hOk
  obtain ⟨engine, hEngine, hLast⟩ := Outcome.bind_eq_ok hRest
  cases hLast
  obtain ⟨before, faults⟩ := backend
  cases before with
  | memory rows closed => cases hEngine; rfl
  | journal state =>
    obtain ⟨journal, _, hJournal⟩ := Outcome.bind_eq_ok hEngine
    cases hJournal
    rfl

theorem isLogged_maintain {backend maintained : Backend} (hOk : backend.maintain = .ok maintained) :
    maintained.isLogged = backend.isLogged := by
  obtain ⟨_, _, hRest⟩ := Outcome.bind_eq_ok hOk
  obtain ⟨engine, hEngine, hLast⟩ := Outcome.bind_eq_ok hRest
  cases hLast
  obtain ⟨before, faults⟩ := backend
  cases before with
  | memory rows closed => cases hEngine; rfl
  | journal state =>
    simp only [Engine.maintain] at hEngine
    split at hEngine
    next => cases hEngine
    next =>
      obtain ⟨_, _, hJournal⟩ := Outcome.bind_eq_ok hEngine
      cases hJournal
      rfl

section
variable {backend another : Backend} (hPermit : another.permit .write = backend.permit .write)
  (hLogged : another.isLogged = backend.isLogged)
include hPermit hLogged

/-- Two backends of one kind take, or refuse, batches that are the same but for stamps alike. -/
theorem agree_write_of_forall₂ {batch other : Batch} (hOps : List.Forall₂ OpEcho batch other) :
    Agree (fun _ _ => True) (backend.write batch) (another.write other) := by
  rw [write, write, hPermit]
  refine Agree.refl.bind fun _ _ _ => ?_
  have hEngines : Agree (fun _ _ => True) (backend.engine.write batch)
      (another.engine.write other) := by
    unfold isLogged at hLogged
    cases hEngine : backend.engine with
    | memory rows closed =>
      cases hOther : another.engine with
      | memory => exact .ok trivial
      | journal => rw [hEngine, hOther] at hLogged; cases hLogged
    | journal state =>
      cases hOther : another.engine with
      | memory => rw [hEngine, hOther] at hLogged; cases hLogged
      | journal other => exact (Journal.agree_write _ _ hOps).map fun _ _ _ => trivial
  exact hEngines.map fun _ _ _ => trivial

variable {marked : Prop} {batch other : Batch} (hEchoes : Batch.Echoes marked batch other)
include hEchoes

/-- What is taken is taken without what raises the greatest id. -/
theorem exists_write_of_echoes {written : Backend} (hOk : backend.write batch = .ok written) :
    ∃ otherWritten, another.write other = .ok otherWritten := by
  obtain ⟨_, hPermitted, hRest⟩ := Outcome.bind_eq_ok hOk
  obtain ⟨engine, hEngine, _⟩ := Outcome.bind_eq_ok hRest
  have hTaken : ∃ taken, another.engine.write other = .ok taken := by
    unfold isLogged at hLogged
    cases hState : another.engine with
    | memory rows closed => exact ⟨_, rfl⟩
    | journal state =>
      cases hBefore : backend.engine with
      | memory => rw [hState, hBefore] at hLogged; cases hLogged
      | journal before =>
        rw [hBefore] at hEngine
        obtain ⟨_, hWrite, _⟩ := Outcome.bind_eq_ok hEngine
        obtain ⟨taken, hTaken⟩ := state.exists_write (hEchoes.fits (Journal.fits_of_write hWrite))
        exact ⟨.journal taken, by rw [Engine.write, hTaken]; rfl⟩
  obtain ⟨taken, hTaken⟩ := hTaken
  exact ⟨{ another with engine := taken }, by rw [write, hPermit.trans hPermitted, hTaken]; rfl⟩

/-- Two backends of one kind take, or refuse, batches that echo each other alike, unless one of them
is too large and the other one raises no greatest id. -/
theorem agree_write (hRoom : ¬ marked → ∀ size, backend.write batch ≠ .error (.oversized size)) :
    Agree (fun _ _ => True) (backend.write batch) (another.write other) := by
  by_cases hMarked : marked
  · exact agree_write_of_forall₂ hPermit hLogged (hEchoes.forall₂ hMarked)
  cases hPermitted : backend.permit .write with
  | error fault =>
    rw [write, write, hPermit, hPermitted]
    exact .error fault
  | ok _ =>
    rcases write_cases hPermitted batch with ⟨_, hWrite, size, rfl⟩ | ⟨written, hWrite⟩
    · exact absurd hWrite (hRoom hMarked size)
    · obtain ⟨otherWritten, hOther⟩ := exists_write_of_echoes hPermit hLogged hEchoes hWrite
      rw [hWrite, hOther]
      exact .ok trivial

end

end Backend

end Storage

/-! ### Stores that differ in stamps -/

namespace Store

/-- A store with other ids, stamps and locks and another greatest id. -/
def anew (store : Store) (ids : IdSource) (lastStamp : Stamp) (locks : Locks)
    (watermark : UInt64) : Store := { store with ids, lastStamp, locks, watermark }

section
variable (store : Store) (ids : IdSource) (lastStamp : Stamp) (locks : Locks) (watermark : UInt64)

@[simp] theorem anew_settings :
    (store.anew ids lastStamp locks watermark).settings = store.settings := rfl

@[simp] theorem anew_clock : (store.anew ids lastStamp locks watermark).clock = store.clock := rfl

@[simp] theorem anew_lastStamp :
    (store.anew ids lastStamp locks watermark).lastStamp = lastStamp := rfl

end

/-- Two states of a store that differ in ids, stamps and locks at most. Unless they are marked alike,
the second one may remember a greater id. -/
def Peers (marked : Prop) (store other : Store) : Prop :=
  ∃ ids lastStamp locks watermark, other = store.anew ids lastStamp locks watermark ∧
    (watermark = store.watermark ∨ ¬ marked ∧ store.watermark ≤ watermark)

variable {marked : Prop} {store other : Store}

theorem Peers.withLocks (hPeers : Peers marked store other) (locks otherLocks : Locks) :
    Peers marked { store with locks } { other with locks := otherLocks } := by
  obtain ⟨ids, lastStamp, _, watermark, rfl, hMarked⟩ := hPeers
  exact ⟨ids, lastStamp, otherLocks, watermark, rfl, hMarked⟩

theorem Peers.withStamps (hPeers : Peers marked store other) (stamp otherStamp : Stamp) :
    Peers marked { store with lastStamp := stamp } { other with lastStamp := otherStamp } := by
  obtain ⟨ids, _, locks, watermark, rfl, hMarked⟩ := hPeers
  exact ⟨ids, otherStamp, locks, watermark, rfl, hMarked⟩

end Store

open Store (Peers)

namespace Action

variable {α β γ δ : Type} {marked : Prop} {R : α → β → Prop} {S : γ → δ → Prop}

/-- Two actions, each in a store of its own, that come to outcomes which agree and leave stores that
still differ in no more. -/
def Accord (marked : Prop) (R : α → β → Prop) (x : Action α) (y : Action β)
    (store other : Store) : Prop :=
  Agree R (x.run store).1 (y.run other).1 ∧ Peers marked (x.run store).2 (y.run other).2

variable {store other : Store}

theorem Accord.bind {x : Action α} {y : Action β} {f : α → Action γ} {g : β → Action δ}
    (hFirst : Accord marked R x y store other)
    (hRest : ∀ a b after otherAfter, R a b → Peers marked after otherAfter →
      Accord marked S (f a) (g b) after otherAfter) :
    Accord marked S (x >>= f) (y >>= g) store other := by
  obtain ⟨hAgree, hPeers⟩ := hFirst
  rw [Accord, run_bind, run_bind]
  generalize x.run store = ran, y.run other = otherRan at hAgree hPeers
  obtain ⟨outcome, after⟩ := ran
  obtain ⟨otherOutcome, otherAfter⟩ := otherRan
  cases hAgree with
  | ok related => exact hRest _ _ _ _ related hPeers
  | error error => exact ⟨.error error, hPeers⟩

section
variable (hPeers : Peers marked store other)
include hPeers

theorem accord_pure {a : α} {b : β} (hRelated : R a b) :
    Accord marked R (pure a) (pure b) store other := ⟨.ok hRelated, hPeers⟩

/-- What follows an inspection goes on in the same stores. -/
theorem accord_inspect_bind {look : Store → Except StoreError α}
    {otherLook : Store → Except StoreError β} {f : α → Action γ} {g : β → Action δ}
    (hLook : Agree R (look store) (otherLook other))
    (hRest : ∀ a b, look store = .ok a → R a b → Accord marked S (f a) (g b) store other) :
    Accord marked S (inspect look >>= f) (inspect otherLook >>= g) store other := by
  rw [Accord, run_bind, run_bind, run_inspect, run_inspect]
  generalize hFound : look store = found, otherLook other = otherFound at hLook
  cases hLook with
  | ok related => exact hRest _ _ hFound related
  | error error => exact ⟨.error error, hPeers⟩

/-- An inspection that finds the same in both stores. -/
theorem accord_inspect_bind_eq {look otherLook : Store → Except StoreError α}
    {f : α → Action γ} {g : α → Action δ} (hSame : look store = otherLook other)
    (hRest : ∀ a, look store = .ok a → Accord marked S (f a) (g a) store other) :
    Accord marked S (inspect look >>= f) (inspect otherLook >>= g) store other :=
  accord_inspect_bind hPeers (Agree.of_eq hSame) fun a _ hFound hEq => hEq ▸ hRest a hFound

end

theorem accord_get_bind {f g : Store → Action γ} {S : γ → γ → Prop}
    (hRest : Accord marked S (f store) (g other) store other) :
    Accord marked S (get >>= f) (get >>= g) store other := by
  rw [Accord, run_bind, run_bind]
  exact hRest

end Action

/-- Whether a stamp is given out does not depend on those that were. -/
theorem Stamp.agree_next (limit now : Millis) (last other : Stamp) (latest : Option Stamp) :
    Agree (fun _ _ => True) (next limit now last latest) (next limit now other latest) := by
  cases latest with
  | none => exact .ok trivial
  | some floor =>
    simp only [next]
    split
    next => exact .error _
    next => exact .ok trivial

/-- Two changes that write the same but for stamps. -/
structure Pending.Echoes {α : Type} (marked : Prop) (change other : Pending α) : Prop where
  batch : Batch.Echoes marked change.batch other.batch
  answer : change.answer = other.answer

inductive Prepared.Echoes {α : Type} (marked : Prop) : Prepared α → Prepared α → Prop
  | settled (answer : α) : Prepared.Echoes marked (.settled answer) (.settled answer)
  | pending {change other : Pending α} (echoes : change.Echoes marked other) :
      Prepared.Echoes marked (.pending change) (.pending other)

theorem Prepared.Echoes.map {α β : Type} {marked : Prop} {prepared other : Prepared α}
    (hEchoes : prepared.Echoes marked other) (f : α → β) :
    (prepared.map f).Echoes marked (other.map f) := by
  cases hEchoes with
  | settled answer => exact .settled (f answer)
  | pending echoes => exact .pending ⟨echoes.batch, congrArg f echoes.answer⟩

namespace Store

open Storage (OpEcho forall₂_opEcho_refl)

variable {α : Type} {marked : Prop} {store other : Store}

theorem accord_issueStamp (hPeers : Peers marked store other) (latest : Option Stamp) :
    Accord marked (fun _ _ => True) (issueStamp latest) (issueStamp latest) store other := by
  have hStamps := hPeers.withStamps
  obtain ⟨ids, last, locks, watermark, rfl, hMarked⟩ := hPeers
  rw [Accord, run_issueStamp, run_issueStamp, anew_settings, anew_clock, anew_lastStamp]
  have hNext := Stamp.agree_next store.settings.skewMillis store.clock store.lastStamp last latest
  generalize Stamp.next store.settings.skewMillis store.clock store.lastStamp latest = found,
    Stamp.next store.settings.skewMillis store.clock last latest = another at hNext
  cases hNext with
  | ok => exact ⟨.ok trivial, hStamps _ _⟩
  | error skew => exact ⟨.error _, ids, last, locks, watermark, rfl, hMarked⟩

theorem accord_underLocks {exact : Prop} (hPeers : Peers marked store other) {paths : List Path}
    (hFree : store.locks.AreFree paths) (hOtherFree : other.locks.AreFree paths)
    {body otherBody : Nat → Action (Prepared α)}
    (hBody : ∀ ticket otherTicket store other, Peers marked store other →
      Accord marked (Prepared.Echoes exact) (body ticket) (otherBody otherTicket) store other) :
    Accord marked (Prepared.Echoes exact) (underLocks paths body) (underLocks paths otherBody)
      store other := by
  obtain ⟨ticket, locks, hRun⟩ := @exists_locked α _ _ hFree
  obtain ⟨otherTicket, otherLocks, hOtherRun⟩ := @exists_locked α _ _ hOtherFree
  rw [Accord, hRun, hOtherRun]
  obtain ⟨hAgree, hAfter⟩ := hBody ticket otherTicket _ _ (hPeers.withLocks locks otherLocks)
  generalize (body ticket).run { store with locks } = ran,
    (otherBody otherTicket).run { other with locks := otherLocks } = otherRan at hAgree hAfter
  obtain ⟨outcome, after⟩ := ran
  obtain ⟨otherOutcome, otherAfter⟩ := otherRan
  cases hAgree with
  | error error => exact ⟨.error error, hAfter.withLocks _ _⟩
  | ok related =>
    cases related with
    | settled answer => exact ⟨.ok (.settled answer), hAfter.withLocks _ _⟩
    | pending echoes => exact ⟨.ok (.pending echoes), hAfter⟩

/-! ### What is written -/

/-- What is written along with a new id if it is greater than the greatest one so far. -/
def raising (watermark : UInt64) (id : EntityId) : Batch :=
  if watermark < id.word then [.put Key.watermark id.bytes] else []

theorem key_of_mem_raising {watermark : UInt64} {id : EntityId} :
    ∀ op ∈ raising watermark id, op.key = Key.watermark := by
  intro op hMem
  rw [raising] at hMem
  split at hMem
  next => rw [List.mem_singleton.mp hMem]; rfl
  next => cases hMem

/-- The greater the greatest id, the less is written. -/
theorem raising_of_le {watermark later : UInt64} (hLe : watermark ≤ later) (id : EntityId) :
    raising later id = raising watermark id ∨ raising later id = [] := by
  by_cases hLater : later < id.word
  · exact .inl (by rw [raising, raising, if_pos hLater, if_pos (UInt64.lt_of_le_of_lt hLe hLater)])
  · exact .inr (if_neg hLater)

theorem creationBatch_eq (store : Store) (stem : Bytes) (stamp : Stamp) (entity : Entity) :
    store.creationBatch stem stamp entity = (do
      return [← store.putLive stem stamp entity, .put (Key.id entity.id) stem] ++
        raising store.watermark entity.id) := by
  rw [creationBatch]
  refine bind_congr fun version => ?_
  unfold raising
  split <;> rfl

section
variable (hPeers : Peers marked store other)
include hPeers

theorem agree_putLive (stem : Bytes) (stamp otherStamp : Stamp) (entity : Entity) :
    Agree OpEcho (store.putLive stem stamp entity) (other.putLive stem otherStamp entity) := by
  obtain ⟨ids, last, locks, watermark, rfl, _⟩ := hPeers
  have hEncode : (store.anew ids last locks watermark).encode entity = store.encode entity := rfl
  rw [putLive, putLive, hEncode]
  exact (Agree.refl).bind fun payload _ hSame => hSame ▸ .ok (.version _ _ _ _)

theorem agree_creationBatch (stem : Bytes) (stamp otherStamp : Stamp) (entity : Entity) :
    Agree (Batch.Echoes marked) (store.creationBatch stem stamp entity)
      (other.creationBatch stem otherStamp entity) := by
  rw [creationBatch_eq, creationBatch_eq]
  refine (agree_putLive hPeers stem stamp otherStamp entity).bind fun version another hVersion => ?_
  obtain ⟨ids, last, locks, watermark, rfl, hMarked⟩ := hPeers
  refine .ok (.intro (.cons hVersion (.cons (.same _) .nil)) key_of_mem_raising ?_)
  rcases hMarked with rfl | ⟨hNot, hLe⟩
  · exact .inl rfl
  · exact (raising_of_le hLe entity.id).imp_right fun hNone => ⟨hNot, hNone⟩

theorem agree_ops (stamp otherStamp : Stamp) (move : Relocation) :
    Agree (List.Forall₂ OpEcho) (move.ops store stamp) (move.ops other otherStamp) :=
  (agree_putLive hPeers move.target stamp otherStamp move.entity).bind fun _ _ hVersion =>
    .ok (.cons hVersion (.cons (.version _ _ _ _) (.cons (.same _) .nil)))

theorem agree_batch (stamp otherStamp : Stamp) (moves : List Relocation) :
    Agree (List.Forall₂ OpEcho) (Relocation.batch store stamp moves)
      (Relocation.batch other otherStamp moves) := by
  induction moves with
  | nil => exact .ok .nil
  | cons move rest ih =>
    exact (agree_ops hPeers stamp otherStamp move).bind fun _ _ hFirst => ih.bind fun _ _ hRest =>
      .ok (List.rel_append hFirst hRest)

end

theorem agree_tombstones (stamp otherStamp : Stamp) (doomed : List Doomed) :
    Agree (List.Forall₂ OpEcho) (Catalog.tombstones stamp doomed)
      (Catalog.tombstones otherStamp doomed) := by
  induction doomed with
  | nil => exact .ok .nil
  | cons first rest ih =>
    refine Agree.refl.bind fun entity _ hSame => ih.bind fun _ _ hRest => ?_
    cases hSame
    exact .ok (.cons (.version _ _ _ _) (.cons (.same _) hRest))

/-! ### Preparing -/

section
variable (hPeers : Peers marked store other) (hIdle : store.locks.grants = [])
  (hOtherIdle : other.locks.grants = [])
include hPeers hIdle hOtherIdle

/-- A request that carries an id draws none. -/
theorem accord_prepareCreate {exact : Prop} (hExact : exact → marked) (name : Name) {draft : Draft}
    (hCarries : requestedId draft ≠ .ok none) :
    Accord marked (Prepared.Echoes exact) (prepareCreate name draft) (prepareCreate name draft)
      store other := by
  have hChecks : (do store.ensureOpen; checkDepth draft.type name; requestedId draft) =
      (do other.ensureOpen; checkDepth draft.type name; requestedId draft) := by
    obtain ⟨_, _, _, _, rfl, _⟩ := hPeers
    rfl
  refine accord_inspect_bind_eq hPeers hChecks fun requested hChecked => ?_
  obtain ⟨_, _, hChecked⟩ := Outcome.bind_eq_ok hChecked
  obtain ⟨_, _, hRequested⟩ := Outcome.bind_eq_ok hChecked
  obtain ⟨id, rfl⟩ := Option.ne_none_iff_exists'.mp fun hNone => hCarries (hNone ▸ hRequested)
  refine accord_underLocks hPeers (Locks.areFree_of_idle hIdle _)
    (Locks.areFree_of_idle hOtherIdle _) fun ticket otherTicket store other hPeers => ?_
  have hSame := hPeers
  obtain ⟨ids, last, locks, watermark, rfl, _⟩ := hSame
  refine accord_inspect_bind_eq hPeers rfl fun parent _ => ?_
  refine accord_inspect_bind_eq hPeers rfl fun latest _ => ?_
  split
  next => exact accord_inspect_bind_eq hPeers rfl fun existing _ => accord_pure hPeers (.settled _)
  next =>
    refine accord_inspect_bind_eq hPeers rfl fun kind _ => ?_
    refine Accord.bind (R := Eq) (accord_inspect_bind_eq hPeers rfl fun _ _ => accord_pure hPeers rfl)
      fun id _ after otherAfter hSame hPeers => ?_
    cases hSame
    have hClock : after.clock = otherAfter.clock := by
      obtain ⟨_, _, _, _, rfl, _⟩ := hPeers
      rfl
    refine accord_get_bind ?_
    rw [hClock]
    refine (accord_issueStamp hPeers _).bind fun stamp otherStamp _ _ _ hPeers => ?_
    exact accord_inspect_bind hPeers (agree_creationBatch hPeers _ stamp otherStamp _)
      fun batch another _ hBatch => accord_pure hPeers (.pending ⟨hBatch.mono hExact, rfl⟩)

theorem accord_prepareAlter {exact : Prop} (type : EntityType) (name : Name) (modifier : String)
    (changes : List Change) : Accord marked (Prepared.Echoes exact)
      (prepareAlter type name modifier changes) (prepareAlter type name modifier changes)
      store other := by
  have hChecks : (do
      store.ensureOpen
      checkDepth type name
      (Change.validateAll type changes).mapError .change) = (do
      other.ensureOpen
      checkDepth type name
      (Change.validateAll type changes).mapError .change) := by
    obtain ⟨_, _, _, _, rfl, _⟩ := hPeers
    rfl
  refine accord_inspect_bind_eq hPeers hChecks fun _ _ => ?_
  refine accord_underLocks hPeers (Locks.areFree_of_idle hIdle _)
    (Locks.areFree_of_idle hOtherIdle _) fun ticket otherTicket store other hPeers => ?_
  have hSame := hPeers
  obtain ⟨ids, last, locks, watermark, rfl, _⟩ := hSame
  refine accord_inspect_bind_eq hPeers rfl fun found _ => ?_
  obtain ⟨stamp, current⟩ := found
  dsimp only
  split
  next => exact accord_pure hPeers (.settled current)
  next =>
    refine accord_inspect_bind_eq hPeers rfl fun updated _ => ?_
    split
    next =>
      refine (accord_issueStamp hPeers _).bind fun issued otherIssued _ _ _ hPeers => ?_
      refine accord_inspect_bind hPeers (agree_putLive hPeers _ issued otherIssued updated)
        fun version another _ hVersion => accord_pure hPeers (.pending ⟨?_, rfl⟩)
      exact .of_forall₂ (.cons hVersion .nil)
    next =>
      refine accord_inspect_bind_eq hPeers rfl fun moves _ => ?_
      refine (accord_issueStamp hPeers _).bind fun issued otherIssued _ _ _ hPeers => ?_
      exact accord_inspect_bind hPeers (agree_batch hPeers issued otherIssued moves)
        fun batch another _ hBatch => accord_pure hPeers
          (.pending ⟨.of_forall₂ hBatch, rfl⟩)

theorem accord_prepareDrop {exact : Prop} (type : EntityType) (name : Name) (cascade : Bool) :
    Accord marked (Prepared.Echoes exact) (prepareDrop type name cascade)
      (prepareDrop type name cascade) store other := by
  have hChecks : (do store.ensureOpen; checkDepth type name) =
      (do other.ensureOpen; checkDepth type name) := by
    obtain ⟨_, _, _, _, rfl, _⟩ := hPeers
    rfl
  refine accord_inspect_bind_eq hPeers hChecks fun _ _ => ?_
  refine accord_underLocks hPeers (Locks.areFree_of_idle hIdle _)
    (Locks.areFree_of_idle hOtherIdle _) fun ticket otherTicket store other hPeers => ?_
  have hSame := hPeers
  obtain ⟨ids, last, locks, watermark, rfl, _⟩ := hSame
  refine accord_inspect_bind_eq hPeers rfl fun live _ => ?_
  cases live with
  | none => exact accord_pure hPeers (.settled false)
  | some current =>
    refine accord_inspect_bind_eq hPeers rfl fun doomed _ => ?_
    refine (accord_issueStamp hPeers _).bind fun stamp otherStamp _ _ _ hPeers => ?_
    exact accord_inspect_bind hPeers (agree_tombstones stamp otherStamp doomed)
      fun batch another _ hBatch => accord_pure hPeers
        (.pending ⟨.of_forall₂ hBatch, rfl⟩)

end

end Store

namespace Mutation

/-- Whether a mutation makes a new entity. -/
def Creates : Mutation → Prop
  | create _ _ => True
  | alter _ _ _ _ => False
  | drop _ _ _ => False

/-- Whether a mutation draws no id: what is to be created carries one, be it well-formed or not. -/
def CarriesId : Mutation → Prop
  | create _ draft => Store.requestedId draft ≠ .ok none
  | alter _ _ _ _ => True
  | drop _ _ _ => True

instance (mutation : Mutation) : Decidable mutation.CarriesId := by
  cases mutation <;> simp only [CarriesId] <;> infer_instance

theorem accord_map {α : Type} {marked exact : Prop} {store other : Store}
    {x : Action (Prepared α)} (f : α → Reply)
    (hAccord : Accord marked (Prepared.Echoes exact) x x store other) :
    Accord marked (Prepared.Echoes exact) (do return (← x).map f) (do return (← x).map f)
      store other :=
  hAccord.bind fun _ _ _ _ hEchoes hPeers => accord_pure hPeers (hEchoes.map f)

/-- A mutation that draws no id is prepared in the same way whatever stamps were given out before. -/
theorem accord {mutation : Mutation} (hCarries : mutation.CarriesId) {marked : Prop}
    {store other : Store} (hPeers : Peers marked store other) (hIdle : store.locks.grants = [])
    (hOtherIdle : other.locks.grants = []) :
    Accord marked (Prepared.Echoes (mutation.Creates → marked)) mutation.prepare mutation.prepare
      store other := by
  cases mutation with
  | create name draft =>
    exact accord_map .entity (Store.accord_prepareCreate hPeers hIdle hOtherIdle
      (fun hMarked => hMarked trivial) name hCarries)
  | alter type name modifier changes =>
    exact accord_map .entity
      (Store.accord_prepareAlter hPeers hIdle hOtherIdle type name modifier changes)
  | drop type name cascade =>
    exact accord_map .dropped (Store.accord_prepareDrop hPeers hIdle hOtherIdle type name cascade)

end Mutation

end VersionedCatalog
