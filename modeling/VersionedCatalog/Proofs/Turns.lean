import Mathlib.Data.List.Nodup
import VersionedCatalog.Proofs.Locking
import VersionedCatalog.Proofs.Soundness

/-! # Turns

What a change does to the entities of the catalog is a list of turns, all with one stamp: an entity
appears in a slot, stays in its slot with other contents, moves to another slot or vanishes. The
batch of the change is made of the rows of its turns.

Turns that are ready for some rows (`Turn.AreReady`) may be carried out: the rows stay sound
(`Turn.AreReady.isSound`) and what the turns write is the newest of its slots
(`Turn.AreReady.newest?_written`). Whether they are ready depends on the newest versions of the
slots around the paths that are locked, and on nothing else but the index at an id that is given
out (`Turn.AreReady.of_agree`).
-/

namespace VersionedCatalog

inductive Turn
  | appear (slot : Slot) (entity : Entity) (payload : Bytes)
  | stay (slot : Slot) (before entity : Entity) (payload : Bytes)
  | move (source target : Slot) (before entity : Entity) (payload : Bytes)
  | vanish (slot : Slot) (before : Entity)

namespace Turn

/-- The id of the entity. -/
def id : Turn → EntityId
  | .appear _ entity _ => entity.id
  | .stay _ before _ _ => before.id
  | .move _ _ before _ _ => before.id
  | .vanish _ before => before.id

/-- The slot that holds the entity before the turn. -/
def source? : Turn → Option (Slot × Entity)
  | .appear _ _ _ => none
  | .stay slot before _ _ => some (slot, before)
  | .move source _ before _ _ => some (source, before)
  | .vanish slot before => some (slot, before)

/-- The slot that holds the entity after the turn. -/
def target? : Turn → Option (Slot × Entity)
  | .appear slot entity _ => some (slot, entity)
  | .stay slot _ entity _ => some (slot, entity)
  | .move _ target _ entity _ => some (target, entity)
  | .vanish _ _ => none

/-- The slot that no longer holds the entity. -/
def left? : Turn → Option Slot
  | .appear _ _ _ => none
  | .stay _ _ _ _ => none
  | .move source _ _ _ _ => some source
  | .vanish slot _ => some slot

/-- The versions of a turn. -/
def writes : Turn → List (Slot × Flag × Bytes)
  | .appear slot _ payload => [(slot, .live, payload)]
  | .stay slot _ _ payload => [(slot, .live, payload)]
  | .move source target _ _ payload =>
    [(target, .live, payload), (source, .renamed, Utf8.encode target.name.text)]
  | .vanish slot _ => [(slot, .tombstone, [])]

/-- What a turn does to the index. -/
def index : Turn → Storage.Batch
  | .appear slot entity _ => [.put (Key.id entity.id) slot.stem]
  | .stay _ _ _ _ => []
  | .move _ target _ entity _ => [.put (Key.id entity.id) target.stem]
  | .vanish _ before => [.delete (Key.id before.id)]

def ops (stamp : Stamp) (turn : Turn) : Storage.Batch :=
  (turn.writes.map fun write =>
    .put (write.1.key stamp) (Version.encodeValue write.2.1 write.2.2)) ++ turn.index

/-- The batch of some turns, and behind it what raises the watermark. -/
def batch (stamp : Stamp) (turns : List Turn) (raise : Option Bytes) : Storage.Batch :=
  turns.flatMap (ops stamp) ++ (raise.map fun bytes => .put Key.watermark bytes).toList

/-- The slots that some turns write versions in. -/
def written (turns : List Turn) : List Slot := (turns.flatMap writes).map (·.1)

/-- An entity as it is written in a slot. -/
structure IsWriting (slot : Slot) (entity : Entity) (payload : Bytes) : Prop where
  decoded : Entity.decode slot.type payload = .ok entity
  name : entity.name = slot.name
  tagged : entity.properties.get? EntityId.propertyKey = some entity.id.tag

/-- Whether a turn starts from what some rows hold. -/
def Fits (rows : Storage.Rows) : Turn → Prop
  | .appear slot entity payload =>
    ¬ rows.IsLive slot ∧ rows.get? (Key.id entity.id) = none ∧ IsWriting slot entity payload
  | .stay slot before entity payload =>
    rows.Holds slot before ∧ entity.id = before.id ∧ IsWriting slot entity payload
  | .move source target before entity payload =>
    rows.Holds source before ∧ ¬ rows.IsLive target ∧ entity.id = before.id ∧
      IsWriting target entity payload
  | .vanish slot before => rows.Holds slot before

/-- Turns that may be carried out together. -/
structure AreReady (rows : Storage.Rows) (stamp : Stamp) (turns : List Turn) : Prop where
  fits : ∀ turn ∈ turns, turn.Fits rows
  apart : (written turns).Nodup
  ids : (turns.map id).Nodup
  notLast : stamp ≠ .last
  later : ∀ slot ∈ written turns, ∀ version, rows.newest? slot = some version →
    version.stamp < stamp
  parents : ∀ turn ∈ turns, ∀ slot entity, turn.target? = some (slot, entity) →
    ∀ parent : Slot, parent.IsParentOf slot →
      (∃ other ∈ turns, ∃ above, other.target? = some (parent, above)) ∨
        (parent ∉ written turns ∧ rows.IsLive parent)
  children : ∀ turn ∈ turns, ∀ slot, turn.left? = some slot →
    ∀ child : Slot, slot.IsParentOf child → rows.IsLive child →
      ∃ other ∈ turns, other.left? = some child

end Turn

namespace Storage.Rows

/-- An operation decides what its key holds if no other one of the batch is about this key. -/
theorem get?_apply_of_mem (rows : Rows) {batch : Batch} {op : Op} (hMem : op ∈ batch)
    (hOnly : ∀ other ∈ batch, other.key = op.key → other = op) :
    (rows.apply batch).get? op.key = op.value? := by
  induction batch generalizing rows with
  | nil => cases hMem
  | cons first rest ih =>
    have hRestOnly : ∀ other ∈ rest, other.key = op.key → other = op := fun other hOther =>
      hOnly other (List.mem_cons_of_mem _ hOther)
    by_cases hRest : op ∈ rest
    · exact ih (rows.applyOp first) hRest hRestOnly
    · have hFirst : op = first := (List.mem_cons.mp hMem).resolve_right hRest
      subst hFirst
      have hAlone : ∀ other ∈ rest, op.key ≠ other.key := fun other hOther hKey =>
        hRest (hRestOnly other hOther hKey.symm ▸ hOther)
      exact (get?_apply_of_not_mem (rows.applyOp op) rest op.key hAlone).trans
        (by rw [get?_applyOp, if_pos rfl])

end Storage.Rows

namespace Turn

open Storage (Rows Batch Op)

theorem mem_written {turns : List Turn} {turn : Turn} (hTurn : turn ∈ turns) {slot : Slot}
    {flag : Flag} {payload : Bytes} (hWrite : (slot, flag, payload) ∈ turn.writes) :
    slot ∈ written turns :=
  List.mem_map.mpr ⟨(slot, flag, payload), List.mem_flatMap.mpr ⟨turn, hTurn, hWrite⟩, rfl⟩

theorem exists_of_mem_written {turns : List Turn} {slot : Slot} (hMem : slot ∈ written turns) :
    ∃ turn ∈ turns, ∃ flag payload, (slot, flag, payload) ∈ turn.writes := by
  obtain ⟨⟨found, flag, payload⟩, hWrite, rfl⟩ := List.mem_map.mp hMem
  obtain ⟨turn, hTurn, hIn⟩ := List.mem_flatMap.mp hWrite
  exact ⟨turn, hTurn, flag, payload, hIn⟩

theorem batch_cons (stamp : Stamp) (turn : Turn) (turns : List Turn) (raise : Option Bytes) :
    batch stamp (turn :: turns) raise = turn.ops stamp ++ batch stamp turns raise := by
  rw [batch, batch, List.flatMap_cons, List.append_assoc]

/-- Every operation of a batch of turns is a version, a part of the index or the watermark. -/
theorem mem_batch_iff {stamp : Stamp} {turns : List Turn} {raise : Option Bytes} {op : Op} :
    op ∈ batch stamp turns raise ↔
      (∃ turn ∈ turns, ∃ write ∈ turn.writes,
        op = .put (write.1.key stamp) (Version.encodeValue write.2.1 write.2.2)) ∨
      (∃ turn ∈ turns, op ∈ turn.index) ∨ (∃ bytes ∈ raise, op = .put Key.watermark bytes) := by
  simp only [batch, ops, List.mem_append, List.mem_flatMap, List.mem_map, Option.mem_toList,
    Option.map_eq_some_iff]
  constructor
  · rintro (⟨turn, hTurn, ⟨write, hWrite, hOp⟩ | hIndex⟩ | ⟨bytes, hBytes, hOp⟩)
    · exact Or.inl ⟨turn, hTurn, write, hWrite, hOp.symm⟩
    · exact Or.inr (Or.inl ⟨turn, hTurn, hIndex⟩)
    · exact Or.inr (Or.inr ⟨bytes, hBytes, hOp.symm⟩)
  · rintro (⟨turn, hTurn, write, hWrite, hOp⟩ | ⟨turn, hTurn, hIndex⟩ | ⟨bytes, hBytes, hOp⟩)
    · exact Or.inl ⟨turn, hTurn, Or.inl ⟨write, hWrite, hOp.symm⟩⟩
    · exact Or.inl ⟨turn, hTurn, Or.inr hIndex⟩
    · exact Or.inr ⟨bytes, hBytes, hOp.symm⟩

/-- The index part of a turn that fits is about the id of the turn. -/
theorem key_of_mem_index {rows : Rows} {turn : Turn} (hFits : turn.Fits rows) {op : Op}
    (hOp : op ∈ turn.index) : op.key = Key.id turn.id := by
  cases turn with
  | appear slot entity payload => rw [List.mem_singleton.mp hOp]; rfl
  | stay slot before entity payload => cases hOp
  | move source target before entity payload =>
    rw [List.mem_singleton.mp hOp, Op.key, hFits.2.2.1]
    rfl
  | vanish slot before => rw [List.mem_singleton.mp hOp]; rfl

/-- A turn has at most one operation on the index. -/
theorem eq_of_mem_index {turn : Turn} {a b : Op} (hA : a ∈ turn.index) (hB : b ∈ turn.index) :
    a = b := by
  cases turn with
  | stay slot before entity payload => cases hA
  | _ => exact (List.mem_singleton.mp hA).trans (List.mem_singleton.mp hB).symm

/-! ### What is written can be read -/

/-- Whether what a turn writes can be read, and has a known id. -/
def IsReadable (known : EntityId → Prop) : Turn → Prop
  | .appear slot entity payload => IsWriting slot entity payload ∧ known entity.id
  | .stay slot _ entity payload => IsWriting slot entity payload ∧ known entity.id
  | .move _ target _ entity payload => IsWriting target entity payload ∧ known entity.id
  | .vanish _ _ => True

theorem Fits.isReadable {rows : Rows} {turn : Turn} (hFits : turn.Fits rows) :
    turn.IsReadable fun _ => True := by
  cases turn with
  | appear slot entity payload => exact ⟨hFits.2.2, trivial⟩
  | stay slot before entity payload => exact ⟨hFits.2.2, trivial⟩
  | move source target before entity payload => exact ⟨hFits.2.2.2, trivial⟩
  | vanish slot before => trivial

section
variable {allowed : Stamp → Prop} {known : EntityId → Prop}

theorem IsWriting.says_live {slot : Slot} {entity : Entity} {payload : Bytes}
    (hWriting : IsWriting slot entity payload) (hKnown : known entity.id) :
    Says known slot .live payload :=
  .live hWriting.decoded hWriting.name hWriting.tagged hKnown

theorem IsReadable.says_of_mem {turn : Turn} (hReadable : turn.IsReadable known) {slot : Slot}
    {flag : Flag} {payload : Bytes} (hWrite : (slot, flag, payload) ∈ turn.writes) :
    Says known slot flag payload := by
  cases turn with
  | appear _ entity _ =>
    cases List.mem_singleton.mp hWrite
    exact hReadable.1.says_live hReadable.2
  | stay _ before entity _ =>
    cases List.mem_singleton.mp hWrite
    exact hReadable.1.says_live hReadable.2
  | move source target before entity _ =>
    rcases List.mem_cons.mp hWrite with hEq | hWrite
    · cases hEq
      exact hReadable.1.says_live hReadable.2
    · cases List.mem_singleton.mp hWrite
      exact .renamed target.valid
  | vanish _ before =>
    cases List.mem_singleton.mp hWrite
    exact .tombstone

theorem isFormed_apply {rows : Rows} (hFormed : rows.IsFormed allowed known) {stamp : Stamp}
    (hStamp : allowed stamp) {turns : List Turn}
    (hReadable : ∀ turn ∈ turns, turn.IsReadable known) (raise : Option Bytes) :
    (rows.apply (batch stamp turns raise)).IsFormed allowed known := by
  refine hFormed.apply fun key value hPut => ?_
  rcases mem_batch_iff.mp hPut with ⟨turn, hTurn, ⟨slot, flag, payload⟩, hWrite, hOp⟩ |
    ⟨turn, hTurn, hIndex⟩ | ⟨bytes, _, hOp⟩
  · cases hOp
    exact .version hStamp ((hReadable turn hTurn).says_of_mem hWrite)
  · have hTurnReads := hReadable turn hTurn
    cases turn with
    | appear slot entity payload =>
      cases List.mem_singleton.mp hIndex
      exact .index slot hTurnReads.2
    | stay slot before entity payload => cases hIndex
    | move source target before entity payload =>
      cases List.mem_singleton.mp hIndex
      exact .index target hTurnReads.2
    | vanish slot before => cases List.mem_singleton.mp hIndex
  · cases hOp
    exact .watermark value

end

namespace AreReady

variable {rows : Rows} {stamp : Stamp} {turns : List Turn} {raise : Option Bytes}
  (hReady : AreReady rows stamp turns)
include hReady

theorem eq_of_id {a b : Turn} (hA : a ∈ turns) (hB : b ∈ turns) (hId : a.id = b.id) : a = b :=
  List.inj_on_of_nodup_map hReady.ids hA hB hId

theorem eq_of_slot {a b : Slot × Flag × Bytes} (hA : a ∈ turns.flatMap writes)
    (hB : b ∈ turns.flatMap writes) (hSlot : a.1 = b.1) : a = b :=
  List.inj_on_of_nodup_map hReady.apart hA hB hSlot

/-! ### Rows after the batch -/

theorem get?_version {slot : Slot} {flag : Flag} {payload : Bytes}
    (hWrite : (slot, flag, payload) ∈ turns.flatMap writes) :
    (rows.apply (batch stamp turns raise)).get? (slot.key stamp) =
      some (Version.encodeValue flag payload) := by
  obtain ⟨turn, hTurn, hIn⟩ := List.mem_flatMap.mp hWrite
  have hPut : Op.put (slot.key stamp) (Version.encodeValue flag payload) ∈
      batch stamp turns raise := mem_batch_iff.mpr (Or.inl ⟨turn, hTurn, _, hIn, rfl⟩)
  refine Rows.get?_apply_of_mem rows hPut fun other hOther hKey => ?_
  rcases mem_batch_iff.mp hOther with ⟨found, hFound, write, hMem, rfl⟩ | ⟨found, hFound, hIndex⟩ |
    ⟨bytes, _, rfl⟩
  · have hSlot := (Slot.key_injective hKey).1
    have hSame := hReady.eq_of_slot (List.mem_flatMap.mpr ⟨found, hFound, hMem⟩) hWrite hSlot
    rw [hSame]
  · rw [key_of_mem_index (hReady.fits found hFound) hIndex] at hKey
    exact absurd hKey.symm (slot.key_ne_id stamp found.id)
  · exact absurd hKey.symm (slot.key_ne_watermark stamp)

theorem get?_other {slot : Slot} {other : Stamp}
    (hOther : ¬ (slot ∈ written turns ∧ other = stamp)) :
    (rows.apply (batch stamp turns raise)).get? (slot.key other) = rows.get? (slot.key other) := by
  refine Rows.get?_apply_of_not_mem rows _ _ fun op hOp hKey => ?_
  rcases mem_batch_iff.mp hOp with ⟨turn, hTurn, write, hMem, rfl⟩ | ⟨turn, hTurn, hIndex⟩ |
    ⟨bytes, _, rfl⟩
  · obtain ⟨rfl, hStamp⟩ := Slot.key_injective hKey
    exact hOther ⟨mem_written hTurn hMem, hStamp⟩
  · rw [key_of_mem_index (hReady.fits turn hTurn) hIndex] at hKey
    exact slot.key_ne_id other turn.id hKey
  · exact slot.key_ne_watermark other hKey

/-- A version is an old one, or the one that its slot got. -/
theorem hasVersion_cases {slot : Slot} {version : Version}
    (hHas : (rows.apply (batch stamp turns raise)).HasVersion slot version) :
    rows.HasVersion slot version ∨ slot ∈ written turns ∧ version.stamp = stamp := by
  by_cases hNew : slot ∈ written turns ∧ version.stamp = stamp
  · exact Or.inr hNew
  · have hFound := hHas.found
    rw [hReady.get?_other hNew] at hFound
    exact Or.inl ⟨hHas.stem, hFound⟩

theorem get?_index {turn : Turn} (hTurn : turn ∈ turns) {op : Op} (hOp : op ∈ turn.index) :
    (rows.apply (batch stamp turns raise)).get? (Key.id turn.id) = op.value? := by
  have hKeyOf := key_of_mem_index (hReady.fits turn hTurn) hOp
  rw [← hKeyOf]
  refine Rows.get?_apply_of_mem rows (mem_batch_iff.mpr (Or.inr (Or.inl ⟨turn, hTurn, hOp⟩)))
    fun other hOther hKey => ?_
  rw [hKeyOf] at hKey
  rcases mem_batch_iff.mp hOther with ⟨found, _, write, _, rfl⟩ | ⟨found, hFound, hIndex⟩ |
    ⟨bytes, _, rfl⟩
  · exact absurd hKey (write.1.key_ne_id stamp turn.id)
  · rw [key_of_mem_index (hReady.fits found hFound) hIndex] at hKey
    have hSame := hReady.eq_of_id hFound hTurn (Key.id_injective hKey)
    exact eq_of_mem_index (hSame ▸ hIndex) hOp
  · exact absurd hKey.symm (Key.id_ne_watermark turn.id)

theorem get?_index_other {owner : EntityId}
    (hOther : ∀ turn ∈ turns, turn.index ≠ [] → turn.id ≠ owner) :
    (rows.apply (batch stamp turns raise)).get? (Key.id owner) = rows.get? (Key.id owner) := by
  refine Rows.get?_apply_of_not_mem rows _ _ fun op hOp hKey => ?_
  rcases mem_batch_iff.mp hOp with ⟨turn, _, write, _, rfl⟩ | ⟨turn, hTurn, hIndex⟩ |
    ⟨bytes, _, rfl⟩
  · exact write.1.key_ne_id stamp owner hKey.symm
  · rw [key_of_mem_index (hReady.fits turn hTurn) hIndex] at hKey
    exact hOther turn hTurn (List.ne_nil_of_mem hIndex) (Key.id_injective hKey).symm
  · exact Key.id_ne_watermark owner hKey

theorem isShaped (hShaped : rows.IsShaped) :
    (rows.apply (batch stamp turns raise)).IsShaped :=
  isFormed_apply hShaped hReady.notLast (fun turn hTurn => (hReady.fits turn hTurn).isReadable) raise

/-! ### Newest versions after the batch -/

section
variable (hShaped : rows.IsShaped)
include hShaped

/-- All old versions of a written slot are before the stamp. -/
theorem lt_of_hasVersion {slot : Slot} (hSlot : slot ∈ written turns) {version : Version}
    (hHas : rows.HasVersion slot version) : version.stamp < stamp := by
  cases hNewest : rows.newest? slot with
  | none => exact absurd hHas ((Rows.newest?_eq_none_iff hShaped).mp hNewest version)
  | some newest =>
    have hBefore := hReady.later slot hSlot newest hNewest
    have hNotAfter := ((Rows.newest?_eq_some_iff hShaped).mp hNewest).2 version hHas
    rw [Stamp.lt_iff_rank] at hBefore hNotAfter ⊢
    omega

/-- What the turns write is the newest version of its slot. -/
theorem newest?_written {slot : Slot} {flag : Flag} {payload : Bytes}
    (hWrite : (slot, flag, payload) ∈ turns.flatMap writes) :
    (rows.apply (batch stamp turns raise)).newest? slot =
      some ⟨slot.stem, stamp, flag, payload⟩ := by
  refine (Rows.newest?_eq_some_iff (hReady.isShaped hShaped)).mpr
    ⟨⟨rfl, hReady.get?_version hWrite⟩, fun other hOther (hLater : stamp < other.stamp) => ?_⟩
  have hNe : other.stamp ≠ stamp := fun hEq => by
    rw [hEq, Stamp.lt_iff_rank] at hLater
    exact Nat.lt_irrefl _ hLater
  have hFound := hOther.found
  rw [hReady.get?_other fun hBoth => hNe hBoth.2] at hFound
  have hEarlier := hReady.lt_of_hasVersion hShaped (List.mem_map.mpr ⟨_, hWrite, rfl⟩)
    ⟨hOther.stem, hFound⟩
  rw [Stamp.lt_iff_rank] at hLater hEarlier
  omega

theorem newest?_other {slot : Slot} (hOther : slot ∉ written turns) :
    (rows.apply (batch stamp turns raise)).newest? slot = rows.newest? slot :=
  Rows.newest?_congr hShaped (hReady.isShaped hShaped) fun _ =>
    hReady.get?_other fun hBoth => hOther hBoth.1

/-- A written slot holds afterwards what a turn brings there. -/
theorem holds_written_iff {slot : Slot} (hSlot : slot ∈ written turns) {entity : Entity} :
    (rows.apply (batch stamp turns raise)).Holds slot entity ↔
      ∃ turn ∈ turns, turn.target? = some (slot, entity) := by
  constructor
  · rintro ⟨version, hNewest, hLive, hDecode⟩
    obtain ⟨turn, hTurn, flag, payload, hWrite⟩ := exists_of_mem_written hSlot
    rw [hReady.newest?_written hShaped (List.mem_flatMap.mpr ⟨turn, hTurn, hWrite⟩),
      Option.some.injEq] at hNewest
    subst hNewest
    have hFlag : flag = .live := of_decide_eq_true hLive
    subst hFlag
    refine ⟨turn, hTurn, ?_⟩
    have hSame : ∀ {found : Entity}, Entity.decode slot.type payload = .ok found →
        found = entity := fun hFound => Except.ok.inj (hFound.symm.trans hDecode)
    have hFits := hReady.fits turn hTurn
    cases turn with
    | appear _ found _ =>
      cases List.mem_singleton.mp hWrite
      rw [target?, hSame hFits.2.2.decoded]
    | stay _ before found _ =>
      cases List.mem_singleton.mp hWrite
      rw [target?, hSame hFits.2.2.decoded]
    | move source target before found _ =>
      rcases List.mem_cons.mp hWrite with hEq | hWrite
      · cases hEq
        rw [target?, hSame hFits.2.2.2.decoded]
      · cases List.mem_singleton.mp hWrite
    | vanish _ before => cases List.mem_singleton.mp hWrite
  · rintro ⟨turn, hTurn, hTarget⟩
    have hFits := hReady.fits turn hTurn
    have hHolds : ∀ {slot entity payload}, (slot, Flag.live, payload) ∈ turn.writes →
        IsWriting slot entity payload →
        (rows.apply (batch stamp turns raise)).Holds slot entity := fun hWrite hWriting =>
      ⟨_, hReady.newest?_written hShaped (List.mem_flatMap.mpr ⟨turn, hTurn, hWrite⟩), rfl,
        hWriting.decoded⟩
    cases turn with
    | appear _ found _ => cases hTarget; exact hHolds (List.mem_singleton.mpr rfl) hFits.2.2
    | stay _ before found _ => cases hTarget; exact hHolds (List.mem_singleton.mpr rfl) hFits.2.2
    | move source target before found _ =>
      cases hTarget
      exact hHolds List.mem_cons_self hFits.2.2.2
    | vanish _ before => cases hTarget

end

/-! ### Sources and targets -/

omit hReady in
theorem mem_written_of_target? {turn : Turn} (hTurn : turn ∈ turns) {slot : Slot} {entity : Entity}
    (hTarget : turn.target? = some (slot, entity)) : slot ∈ written turns := by
  cases turn with
  | appear _ found payload =>
    cases hTarget
    exact mem_written hTurn (List.mem_singleton.mpr rfl)
  | stay _ before found payload =>
    cases hTarget
    exact mem_written hTurn (List.mem_singleton.mpr rfl)
  | move source target before found payload =>
    cases hTarget
    exact mem_written hTurn List.mem_cons_self
  | vanish _ before => cases hTarget

omit hReady in
theorem mem_written_of_source? {turn : Turn} (hTurn : turn ∈ turns) {slot : Slot} {entity : Entity}
    (hSource : turn.source? = some (slot, entity)) : slot ∈ written turns := by
  cases turn with
  | appear _ found payload => cases hSource
  | stay _ before found payload =>
    cases hSource
    exact mem_written hTurn (List.mem_singleton.mpr rfl)
  | move source target before found payload =>
    cases hSource
    exact mem_written hTurn (List.mem_cons_of_mem _ List.mem_cons_self)
  | vanish _ before =>
    cases hSource
    exact mem_written hTurn (List.mem_singleton.mpr rfl)

theorem id_of_target? {turn : Turn} (hTurn : turn ∈ turns) {slot : Slot} {entity : Entity}
    (hTarget : turn.target? = some (slot, entity)) : entity.id = turn.id := by
  have hFits := hReady.fits turn hTurn
  cases turn with
  | appear _ found _ => cases hTarget; rfl
  | stay _ before found _ => cases hTarget; exact hFits.2.1
  | move source target before found _ => cases hTarget; exact hFits.2.2.1
  | vanish _ before => cases hTarget

theorem holds_of_source? {turn : Turn} (hTurn : turn ∈ turns) {slot : Slot} {entity : Entity}
    (hSource : turn.source? = some (slot, entity)) :
    rows.Holds slot entity ∧ entity.id = turn.id := by
  have hFits := hReady.fits turn hTurn
  cases turn with
  | appear _ found _ => cases hSource
  | stay _ before found _ => cases hSource; exact ⟨hFits.1, rfl⟩
  | move source target before found _ => cases hSource; exact ⟨hFits.1, rfl⟩
  | vanish _ before => cases hSource; exact ⟨hFits, rfl⟩

/-- What a written slot held before is the source of a turn. -/
theorem exists_source?_of_holds {slot : Slot} (hSlot : slot ∈ written turns) {entity : Entity}
    (hHolds : rows.Holds slot entity) :
    ∃ turn ∈ turns, turn.source? = some (slot, entity) := by
  obtain ⟨turn, hTurn, flag, payload, hWrite⟩ := exists_of_mem_written hSlot
  have hFits := hReady.fits turn hTurn
  refine ⟨turn, hTurn, ?_⟩
  cases turn with
  | appear _ found _ =>
    cases List.mem_singleton.mp hWrite
    exact absurd (.of_holds hHolds) hFits.1
  | stay _ before found _ =>
    cases List.mem_singleton.mp hWrite
    rw [source?, hFits.1.entity_eq hHolds]
  | move source target before found _ =>
    rcases List.mem_cons.mp hWrite with hEq | hWrite
    · cases hEq
      exact absurd (.of_holds hHolds) hFits.2.1
    · cases List.mem_singleton.mp hWrite
      rw [source?, hFits.1.entity_eq hHolds]
  | vanish _ before =>
    cases List.mem_singleton.mp hWrite
    rw [source?, Rows.Holds.entity_eq hFits hHolds]

/-! ### The rows stay sound -/

section
variable (hSound : rows.IsSound)
include hSound

theorem holds_iff {slot : Slot} {entity : Entity} :
    (rows.apply (batch stamp turns raise)).Holds slot entity ↔
      (∃ turn ∈ turns, turn.target? = some (slot, entity)) ∨
        (slot ∉ written turns ∧ rows.Holds slot entity) := by
  by_cases hSlot : slot ∈ written turns
  · rw [hReady.holds_written_iff hSound.shaped hSlot]
    constructor
    · exact Or.inl
    · rintro (hTarget | ⟨hOther, _⟩)
      · exact hTarget
      · exact absurd hSlot hOther
  · rw [Rows.holds_congr (hReady.newest?_other hSound.shaped hSlot)]
    constructor
    · exact fun hHolds => Or.inr ⟨hSlot, hHolds⟩
    · rintro (⟨turn, hTurn, hTarget⟩ | ⟨_, hHolds⟩)
      · exact absurd (mem_written_of_target? hTurn hTarget) hSlot
      · exact hHolds

theorem isLive_parent {parent slot : Slot} (hParent : parent.IsParentOf slot)
    (hLive : (rows.apply (batch stamp turns raise)).IsLive slot) :
    (rows.apply (batch stamp turns raise)).IsLive parent := by
  obtain ⟨entity, hHolds, _⟩ := (hReady.isShaped hSound.shaped).holds_of_isLive hLive
  have hStays : parent ∉ written turns → rows.IsLive parent →
      (rows.apply (batch stamp turns raise)).IsLive parent := fun hOther =>
    (Rows.isLive_congr (hReady.newest?_other hSound.shaped hOther)).mpr
  have hBrought : ∀ turn ∈ turns, ∀ above, turn.target? = some (parent, above) →
      (rows.apply (batch stamp turns raise)).IsLive parent := fun turn hTurn above hTarget =>
    .of_holds ((hReady.holds_iff hSound).mpr (Or.inl ⟨turn, hTurn, hTarget⟩))
  rcases (hReady.holds_iff hSound).mp hHolds with ⟨turn, hTurn, hTarget⟩ | ⟨hOther, hBefore⟩
  · rcases hReady.parents turn hTurn slot entity hTarget parent hParent with
      ⟨other, hIn, above, hAbove⟩ | ⟨hApart, hAlive⟩
    · exact hBrought other hIn above hAbove
    · exact hStays hApart hAlive
  · have hAlive := hSound.parents hParent (.of_holds hBefore)
    by_cases hSlot : parent ∈ written turns
    · -- the parent is a source, and if it were left its child would be left with it
      obtain ⟨above, hAbove, _⟩ := hSound.shaped.holds_of_isLive hAlive
      obtain ⟨turn, hTurn, hSource⟩ := hReady.exists_source?_of_holds hSlot hAbove
      have hLeft : turn.left? = some parent → False := fun hLeft => by
        obtain ⟨gone, hGone, hChild⟩ :=
          hReady.children turn hTurn parent hLeft slot hParent (.of_holds hBefore)
        have hGoneSource : ∃ before, gone.source? = some (slot, before) := by
          cases gone with
          | move source target before found _ => cases hChild; exact ⟨before, rfl⟩
          | vanish _ before => cases hChild; exact ⟨before, rfl⟩
          | _ => cases hChild
        obtain ⟨before, hGoneSource⟩ := hGoneSource
        exact hOther (mem_written_of_source? hGone hGoneSource)
      cases turn with
      | appear _ found _ => cases hSource
      | stay _ before found _ => cases hSource; exact hBrought _ hTurn found rfl
      | move source target before found _ => cases hSource; exact (hLeft rfl).elim
      | vanish _ before => cases hSource; exact (hLeft rfl).elim
    · exact hStays hSlot hAlive

/-- What the index says of the id of a turn afterwards. -/
theorem get?_id_of_turn {turn : Turn} (hTurn : turn ∈ turns) :
    (rows.apply (batch stamp turns raise)).get? (Key.id turn.id) =
      turn.target?.map fun target => target.1.stem := by
  have hFits := hReady.fits turn hTurn
  cases turn with
  | appear slot entity payload => exact hReady.get?_index hTurn (List.mem_singleton.mpr rfl)
  | stay slot before entity payload =>
    rw [hReady.get?_index_other fun other hOther hIndex hId => ?_]
    · exact hSound.index.mpr ⟨slot, before, hFits.1, rfl, rfl⟩
    · rw [hReady.eq_of_id hOther hTurn hId] at hIndex
      exact hIndex rfl
  | move source target before entity payload =>
    exact hReady.get?_index hTurn (List.mem_singleton.mpr rfl)
  | vanish slot before => exact hReady.get?_index hTurn (List.mem_singleton.mpr rfl)

/-- Entities in slots that are not written have none of the ids of the turns. -/
theorem id_ne_of_not_written {slot : Slot} (hSlot : slot ∉ written turns) {entity : Entity}
    (hHolds : rows.Holds slot entity) {turn : Turn} (hTurn : turn ∈ turns) :
    turn.id ≠ entity.id := by
  intro hId
  have hIndexed := hSound.index.mpr ⟨slot, entity, hHolds, rfl, rfl⟩
  cases hSource : turn.source? with
  | none =>
    have hFits := hReady.fits turn hTurn
    cases turn with
    | appear _ found _ =>
      have hFree : rows.get? (Key.id found.id) = none := hFits.2.1
      have hSame : found.id = entity.id := hId
      rw [hSame, hIndexed] at hFree
      cases hFree
    | _ => cases hSource
  | some source =>
    obtain ⟨place, before⟩ := source
    obtain ⟨hBefore, hSame⟩ := hReady.holds_of_source? hTurn hSource
    have hPlace := hSound.slot_eq_of_id hBefore hHolds (hSame.trans hId)
    exact hSlot (hPlace ▸ mem_written_of_source? hTurn hSource)

theorem index_iff {id : EntityId} {stem : Bytes} :
    (rows.apply (batch stamp turns raise)).get? (Key.id id) = some stem ↔
      ∃ slot entity, (rows.apply (batch stamp turns raise)).Holds slot entity ∧ entity.id = id ∧
        stem = slot.stem := by
  constructor
  · intro hFound
    by_cases hIds : ∃ turn ∈ turns, turn.id = id
    · obtain ⟨turn, hTurn, rfl⟩ := hIds
      rw [hReady.get?_id_of_turn hSound hTurn] at hFound
      obtain ⟨⟨slot, entity⟩, hTarget, rfl⟩ := Option.map_eq_some_iff.mp hFound
      exact ⟨slot, entity, (hReady.holds_iff hSound).mpr (Or.inl ⟨turn, hTurn, hTarget⟩),
        hReady.id_of_target? hTurn hTarget, rfl⟩
    · rw [hReady.get?_index_other fun turn hTurn _ hId => hIds ⟨turn, hTurn, hId⟩] at hFound
      obtain ⟨slot, entity, hHolds, hId, hStem⟩ := hSound.index.mp hFound
      refine ⟨slot, entity, (hReady.holds_iff hSound).mpr (Or.inr ⟨fun hSlot => ?_, hHolds⟩), hId,
        hStem⟩
      obtain ⟨turn, hTurn, hSource⟩ := hReady.exists_source?_of_holds hSlot hHolds
      exact hIds ⟨turn, hTurn, (hReady.holds_of_source? hTurn hSource).2.symm.trans hId⟩
  · rintro ⟨slot, entity, hHolds, rfl, rfl⟩
    rcases (hReady.holds_iff hSound).mp hHolds with ⟨turn, hTurn, hTarget⟩ | ⟨hSlot, hBefore⟩
    · rw [hReady.id_of_target? hTurn hTarget, hReady.get?_id_of_turn hSound hTurn, hTarget]
      rfl
    · rw [hReady.get?_index_other fun turn hTurn _ =>
        hReady.id_ne_of_not_written hSound hSlot hBefore hTurn]
      exact hSound.index.mpr ⟨slot, entity, hBefore, rfl, rfl⟩

/-- Turns that are ready leave the rows sound. -/
theorem isSound : (rows.apply (batch stamp turns raise)).IsSound :=
  ⟨hReady.isShaped hSound.shaped, hReady.isLive_parent hSound, hReady.index_iff hSound⟩

end

end AreReady

/-! ### What readiness depends on -/

/-- The slots on the way to some paths and behind them. -/
def IsNear (paths : List Path) (slot : Slot) : Prop :=
  ∃ path ∈ paths, path <+: slot.path ∨ slot.path <+: path

/-- The slots that are written lie behind some paths. -/
def AreBehind (paths : List Path) (turns : List Turn) : Prop :=
  ∀ slot ∈ written turns, ∃ path ∈ paths, path <+: slot.path

/-- Nothing that is written behind some paths is near paths apart from them. -/
theorem not_mem_written_of_apart {paths others : List Path} (hApart : AreApart paths others)
    {turns : List Turn} (hBehind : AreBehind others turns) {slot : Slot} (hNear : IsNear paths slot) :
    slot ∉ written turns := by
  intro hSlot
  obtain ⟨path, hPath, hAround⟩ := hNear
  obtain ⟨other, hOther, hPrefix⟩ := hBehind slot hSlot
  obtain ⟨hNotFirst, hNotSecond⟩ := hApart path hPath other hOther
  rcases hAround with hFront | hBack
  · rcases List.prefix_or_prefix_of_prefix hFront hPrefix with hEq | hEq
    · exact hNotFirst hEq
    · exact hNotSecond hEq
  · exact hNotSecond (hPrefix.trans hBack)

section
variable {paths : List Path} {rows others : Rows}

theorem Fits.of_agree {turn : Turn} (hFits : turn.Fits rows)
    (hAgree : ∀ write ∈ turn.writes, others.newest? write.1 = rows.newest? write.1)
    (hFree : ∀ slot entity payload, turn = .appear slot entity payload →
      others.get? (Key.id entity.id) = none) : turn.Fits others := by
  cases turn with
  | appear slot entity payload =>
    have hSame := hAgree (slot, .live, payload) List.mem_cons_self
    exact ⟨fun hLive => hFits.1 ((Rows.isLive_congr hSame).mp hLive),
      hFree slot entity payload rfl, hFits.2.2⟩
  | stay slot before entity payload =>
    have hSame := hAgree (slot, .live, payload) List.mem_cons_self
    exact ⟨(Rows.holds_congr hSame).mpr hFits.1, hFits.2⟩
  | move source target before entity payload =>
    have hTarget := hAgree (target, .live, payload) List.mem_cons_self
    have hSource := hAgree (source, .renamed, Utf8.encode target.name.text)
      (List.mem_cons_of_mem _ List.mem_cons_self)
    exact ⟨(Rows.holds_congr hSource).mpr hFits.1,
      fun hLive => hFits.2.1 ((Rows.isLive_congr hTarget).mp hLive), hFits.2.2⟩
  | vanish slot before =>
    have hSame := hAgree (slot, .tombstone, []) List.mem_cons_self
    exact (Rows.holds_congr hSame).mpr hFits

/-- Turns stay ready as long as the newest versions around their paths stay, and the ids that are
given out stay free. -/
theorem AreReady.of_agree {stamp : Stamp} {turns : List Turn} (hReady : AreReady rows stamp turns)
    (hBehind : AreBehind paths turns)
    (hAgree : ∀ slot, IsNear paths slot → others.newest? slot = rows.newest? slot)
    (hFree : ∀ slot entity payload, .appear slot entity payload ∈ turns →
      others.get? (Key.id entity.id) = none) : AreReady others stamp turns := by
  have hWritten : ∀ slot ∈ written turns, others.newest? slot = rows.newest? slot := by
    intro slot hSlot
    obtain ⟨path, hPath, hPrefix⟩ := hBehind slot hSlot
    exact hAgree slot ⟨path, hPath, Or.inl hPrefix⟩
  -- the parent of a written slot is on the way to a path or behind it
  have hAbove : ∀ {parent slot : Slot}, parent.IsParentOf slot → slot ∈ written turns →
      others.newest? parent = rows.newest? parent := by
    intro parent slot hParent hSlot
    obtain ⟨path, hPath, hPrefix⟩ := hBehind slot hSlot
    exact hAgree parent ⟨path, hPath,
      List.prefix_or_prefix_of_prefix hPrefix ⟨_, hParent.path_eq.symm⟩⟩
  have hBelow : ∀ {slot child : Slot}, slot.IsParentOf child → slot ∈ written turns →
      others.newest? child = rows.newest? child := by
    intro slot child hParent hSlot
    obtain ⟨path, hPath, hPrefix⟩ := hBehind slot hSlot
    exact hAgree child ⟨path, hPath, Or.inl (hPrefix.trans ⟨_, hParent.path_eq.symm⟩)⟩
  refine ⟨fun turn hTurn => ?_, hReady.apart, hReady.ids, hReady.notLast, fun slot hSlot => ?_,
    fun turn hTurn slot entity hTarget parent hParent => ?_,
    fun turn hTurn slot hLeft child hParent hLive => ?_⟩
  · refine (hReady.fits turn hTurn).of_agree (fun write hWrite => ?_) ?_
    · exact hWritten write.1 (mem_written hTurn hWrite)
    · rintro slot entity payload rfl
      exact hFree slot entity payload hTurn
  · rw [hWritten slot hSlot]
    exact hReady.later slot hSlot
  · have hSlot := AreReady.mem_written_of_target? hTurn hTarget
    rw [Rows.isLive_congr (hAbove hParent hSlot)]
    exact hReady.parents turn hTurn slot entity hTarget parent hParent
  · have hSlot : slot ∈ written turns := by
      cases turn with
      | move source target before found _ =>
        cases hLeft
        exact AreReady.mem_written_of_source? hTurn (rfl : Turn.source? _ = some (_, before))
      | vanish _ before =>
        cases hLeft
        exact AreReady.mem_written_of_source? hTurn (rfl : Turn.source? _ = some (_, before))
      | _ => cases hLeft
    rw [Rows.isLive_congr (hBelow hParent hSlot)] at hLive
    exact hReady.children turn hTurn slot hLeft child hParent hLive

/-- The index leaves an id alone that it does not know and that no turn gives out. -/
theorem AreReady.get?_id_of_free {stamp : Stamp} {turns : List Turn} {raise : Option Bytes}
    (hReady : AreReady rows stamp turns) (hSound : rows.IsSound) {owner : EntityId}
    (hFree : rows.get? (Key.id owner) = none)
    (hOther : ∀ slot entity payload, .appear slot entity payload ∈ turns → entity.id ≠ owner) :
    (rows.apply (batch stamp turns raise)).get? (Key.id owner) = none := by
  rw [hReady.get?_index_other fun turn hTurn _ hId => ?_]
  · exact hFree
  · cases hSource : turn.source? with
    | none =>
      cases turn with
      | appear slot entity payload => exact hOther slot entity payload hTurn hId
      | _ => cases hSource
    | some source =>
      obtain ⟨slot, before⟩ := source
      obtain ⟨hHolds, hSame⟩ := hReady.holds_of_source? hTurn hSource
      have hIndexed := hSound.index.mpr ⟨slot, before, hHolds, hSame.trans hId, rfl⟩
      rw [hFree] at hIndexed
      cases hIndexed

end

end Turn

end VersionedCatalog
