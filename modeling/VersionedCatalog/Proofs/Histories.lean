import Mathlib.Data.List.Chain
import Mathlib.Data.List.Forall2
import VersionedCatalog.Proofs.Atomicity
import VersionedCatalog.Proofs.Growth
import VersionedCatalog.Proofs.Legibility

/-! # Histories

What `versions` lists are all versions under a name, oldest first (`Store.exists_listing`). A
mutation leaves every version that is there and puts one behind the others under each name it
touches, all with one stamp (`Rows.Extends`). Of two versions next to each other one is live, and if
both are they have one id (`Rows.IsOrderly`): what is live appears where nothing is, stays, or is
followed by a tombstone or a marker. A pass removes the beginning of a history, so it brings no two
versions together.
-/

namespace VersionedCatalog

open Storage (Rows Row Backend Call)

/-! ### Listing the versions under a name -/

namespace Store

theorem forall₂_of_versionStates {type : EntityType} {versions : List Version}
    (hSlots : ∀ version ∈ versions, ∃ slot : Slot, version.stem = slot.stem)
    {listed : List (Stamp × VersionState)}
    (hOk : versionStates type (versions.map Version.toRow) = .ok listed) :
    List.Forall₂ (fun version entry => entry.1 = version.stamp ∧
      versionState type version = .ok entry.2) versions listed := by
  induction versions generalizing listed with
  | nil => cases hOk; exact .nil
  | cons version rest ih =>
    obtain ⟨⟨slot, hSlot⟩, hRest⟩ := List.forall_mem_cons.mp hSlots
    have hRow := Version.ofRow_toRow version (hSlot ▸ slot.stem_ne_nil)
    rw [List.map_cons, versionStates, hRow, Outcome.mapError_ok, Outcome.ok_bind] at hOk
    obtain ⟨state, hState, hOk⟩ := Outcome.bind_eq_ok hOk
    obtain ⟨others, hOthers, hLast⟩ := Outcome.bind_eq_ok hOk
    cases hLast
    exact .cons ⟨rfl, hState⟩ (ih hRest hOthers)

/-- All versions of an entity are listed, in the order of their stamps. -/
theorem exists_listing {store : Store} {allowed : Stamp → Prop} {known : EntityId → Prop}
    (hFormed : store.backend.rows.IsFormed allowed known) {type : EntityType} {name : Name}
    {listed : List (Stamp × VersionState)} (hOk : store.versions type name = .ok listed) :
    ∃ versions : List Version, List.Forall₂ (fun version entry => entry.1 = version.stamp ∧
        versionState type version = .ok entry.2) versions listed ∧
      (versions.Pairwise fun a b => a.stamp < b.stamp) ∧
      ∀ version, version ∈ versions ↔ ∃ slot : Slot, slot.type = type ∧ slot.name = name ∧
        store.backend.rows.HasVersion slot version := by
  obtain ⟨_, _, hRest⟩ := Outcome.bind_eq_ok hOk
  obtain ⟨_, hDepth, hRest⟩ := Outcome.bind_eq_ok hRest
  obtain ⟨rows, hRows, hStates⟩ := Outcome.bind_eq_ok hRest
  have hBelow : rows = store.backend.rows.below (Key.typed type name.path) :=
    Backend.scan_eq_ok (Outcome.mapError_eq_ok hRows)
  obtain ⟨versions, hVersions, hSlots⟩ := Catalog.exists_versions hFormed.areVersions type name.path
  rw [hBelow, hVersions] at hStates
  have hLength : name.path.length = type.depth + 1 := by
    rw [Name.length_path, checkDepth_eq_ok hDepth]
  have hMem : ∀ version, version ∈ versions ↔ ∃ slot : Slot, slot.type = type ∧ slot.name = name ∧
      store.backend.rows.HasVersion slot version := by
    intro version
    rw [Catalog.mem_versions_iff (Nat.le_of_eq hLength) hVersions hSlots]
    refine exists_congr fun slot => and_congr_right fun hType => and_congr_left fun _ => ?_
    constructor
    · intro hPrefix
      refine (Name.path_injective (hPrefix.eq_of_length ?_)).symm
      rw [hLength, slot.length_path, hType]
    · rintro rfl
      exact List.prefix_rfl
  refine ⟨versions, forall₂_of_versionStates hSlots hStates, ?_, hMem⟩
  have hAsc := Rows.below_ascending store.backend.rows (Key.typed type name.path)
  rw [hVersions, List.pairwise_map] at hAsc
  refine hAsc.imp_of_mem fun {a b} hA hB hLt => ?_
  obtain ⟨slot, hType, hName, hHas⟩ := (hMem a).mp hA
  obtain ⟨other, hOtherType, hOtherName, hOther⟩ := (hMem b).mp hB
  have hSame : slot = other := Slot.eq_of_parts (hType.trans hOtherType.symm)
    (hName.trans hOtherName.symm)
  rw [Version.toRow, Version.toRow, hHas.stem, hOther.stem, hSame] at hLt
  exact (Key.version_lt_version_iff other.stem).mp hLt

/-- An open store lists the versions of every name that is as deep as its type. -/
theorem exists_versions {store : Store} {allowed : Stamp → Prop} {known : EntityId → Prop}
    (hFormed : store.backend.rows.IsFormed allowed known) (hSteady : store.IsSteady)
    (hOpen : store.closed = false) {type : EntityType} {name : Name}
    (hDepth : name.scope.depth = type.depth) : ∃ listed, store.versions type name = .ok listed := by
  have hEnsure := ensureOpen_eq_ok_iff.mpr hOpen
  have hCheck : checkDepth type name = .ok () := if_pos hDepth
  have hScan := Backend.scan_of_open (hSteady.isOpen hOpen) hSteady.faults (Key.entity type name)
  obtain ⟨listed, hListed⟩ := @exists_versionStates type
    (store.backend.rows.below (Key.entity type name)) fun row hRow => hFormed.exists_legible hRow
  exact ⟨listed, by simp [versions, hEnsure, hCheck, hScan, hListed]⟩

end Store

/-! ### Versions next to each other -/

/-- What two states next to each other are like. -/
structure VersionState.Joins (first second : VersionState) : Prop where
  alive : (∃ entity, first = .live entity) ∨ ∃ entity, second = .live entity
  same : ∀ before after, first = .live before → second = .live after → before.id = after.id

/-- What two versions next to each other are like, by what they say. -/
structure Version.Joins (type : EntityType) (first second : Version) : Prop where
  alive : first.flag = .live ∨ second.flag = .live
  same : ∀ before after, first.flag = .live → second.flag = .live →
    Entity.decode type first.payload = .ok before → Entity.decode type second.payload = .ok after →
    before.id = after.id

theorem Store.versionState_eq_ok {type : EntityType} {version : Version} {state : VersionState}
    (hOk : versionState type version = .ok state) (entity : Entity) :
    state = .live entity ↔ version.flag = .live ∧ Entity.decode type version.payload = .ok entity := by
  rw [versionState] at hOk
  cases hFlag : version.flag with
  | live =>
    rw [hFlag] at hOk
    obtain ⟨found, hFound, hLast⟩ := Outcome.bind_eq_ok hOk
    cases hLast
    rw [VersionState.live.injEq, Catalog.decode_eq_ok hFound, Except.ok.injEq]
    exact (and_iff_right rfl).symm
  | tombstone =>
    rw [hFlag] at hOk
    cases hOk
    simp
  | renamed =>
    rw [hFlag] at hOk
    obtain ⟨target, _, hLast⟩ := Outcome.bind_eq_ok hOk
    cases hLast
    simp

theorem Version.Joins.states {type : EntityType} {first second : Version}
    (hJoins : Version.Joins type first second) {before after : VersionState}
    (hBefore : Store.versionState type first = .ok before)
    (hAfter : Store.versionState type second = .ok after) : before.Joins after := by
  have hLive : ∀ {version : Version} {state : VersionState}, version.flag = .live →
      Store.versionState type version = .ok state → ∃ entity, state = .live entity := by
    intro version state hFlag hState
    rw [Store.versionState, hFlag] at hState
    obtain ⟨entity, _, hLast⟩ := Outcome.bind_eq_ok hState
    exact ⟨entity, (Except.ok.inj hLast).symm⟩
  refine ⟨hJoins.alive.imp (hLive · hBefore) (hLive · hAfter), fun x y hX hY => ?_⟩
  obtain ⟨hFirst, hDecode⟩ := (Store.versionState_eq_ok hBefore x).mp hX
  obtain ⟨hSecond, hSame⟩ := (Store.versionState_eq_ok hAfter y).mp hY
  exact hJoins.same x y hFirst hSecond hDecode hSame

namespace Storage.Rows

/-- One version of a slot is the next one after another. -/
structure Follows (rows : Rows) (slot : Slot) (first second : Version) : Prop where
  hasFirst : rows.HasVersion slot first
  hasSecond : rows.HasVersion slot second
  before : first.stamp < second.stamp
  next : ∀ other, rows.HasVersion slot other → first.stamp < other.stamp →
    ¬ other.stamp < second.stamp

/-- In every history one of two versions next to each other is live, and two live ones have one
id. -/
def IsOrderly (rows : Rows) : Prop :=
  ∀ slot first second, rows.Follows slot first second → Version.Joins slot.type first second

theorem isOrderly_empty : IsOrderly ∅ := by
  intro slot first second hFollows
  have hFound := hFollows.hasFirst.found
  rw [OrderedMap.get?_empty] at hFound
  cases hFound

end Storage.Rows

/-- A version that is written behind the newest one of its slot goes well with it. -/
theorem Turn.Fits.joins {rows : Rows} {turn : Turn} (hFits : turn.Fits rows) {slot : Slot}
    {flag : Flag} {payload : Bytes} (hWrite : (slot, flag, payload) ∈ turn.writes)
    {newest : Version} (hNewest : rows.newest? slot = some newest) (stamp : Stamp) :
    Version.Joins slot.type newest ⟨slot.stem, stamp, flag, payload⟩ := by
  -- what appears comes after what is not live, and what goes away was live
  have hAppears : ∀ {place : Slot} {written : Bytes}, (slot, flag, payload) = (place, .live, written) →
      ¬ rows.IsLive place → Version.Joins slot.type newest ⟨slot.stem, stamp, flag, payload⟩ := by
    rintro place written ⟨⟩ hDead
    refine ⟨Or.inr rfl, fun _ _ hLive => ?_⟩
    exact absurd ⟨newest, hNewest, decide_eq_true hLive⟩ hDead
  have hLeaves : ∀ {place : Slot} {entity : Entity}, slot = place → flag ≠ .live →
      rows.Holds place entity → Version.Joins slot.type newest ⟨slot.stem, stamp, flag, payload⟩ := by
    rintro place entity rfl hFlag ⟨found, hFound, hLive, _⟩
    cases Option.some.inj (hNewest.symm.trans hFound)
    exact ⟨Or.inl (of_decide_eq_true hLive), fun _ _ _ hFlags => absurd hFlags hFlag⟩
  cases turn with
  | appear place entity written => exact hAppears (List.mem_singleton.mp hWrite) hFits.1
  | stay place before entity written =>
    cases List.mem_singleton.mp hWrite
    obtain ⟨⟨found, hFound, hLive, hBefore⟩, hId, hWriting⟩ := hFits
    cases Option.some.inj (hNewest.symm.trans hFound)
    refine ⟨Or.inr rfl, fun x y _ _ hX hY => ?_⟩
    cases Except.ok.inj (hX.symm.trans hBefore)
    cases Except.ok.inj (hY.symm.trans hWriting.decoded)
    exact hId.symm
  | move source target before entity written =>
    rcases List.mem_cons.mp hWrite with hTarget | hSource
    · exact hAppears hTarget hFits.2.1
    · cases List.mem_singleton.mp hSource
      exact hLeaves rfl nofun hFits.1
  | vanish place before =>
    cases List.mem_singleton.mp hWrite
    exact hLeaves rfl nofun hFits

/-- Turns keep histories orderly. -/
theorem Turn.AreReady.isOrderly {rows : Rows} {stamp : Stamp} {turns : List Turn}
    (hReady : AreReady rows stamp turns) (raise : Option Bytes) (hShaped : rows.IsShaped)
    (hOrderly : rows.IsOrderly) : (rows.apply (batch stamp turns raise)).IsOrderly := by
  intro slot first second hFollows
  have hGrows := hReady.grows raise hShaped
  have hFirst : rows.HasVersion slot first := by
    rcases hReady.hasVersion_cases hFollows.hasFirst with hOld | ⟨hSlot, hStamp⟩
    · exact hOld
    · have hBefore := hFollows.before
      rw [hStamp] at hBefore
      rcases hReady.hasVersion_cases hFollows.hasSecond with hOld | ⟨_, hSame⟩
      · have hAbove := hReady.lt_of_hasVersion hShaped hSlot hOld
        rw [Stamp.lt_iff_rank] at hBefore hAbove
        omega
      · rw [hSame] at hBefore
        exact absurd hBefore (Stamp.not_lt_self stamp)
  rcases hReady.hasVersion_cases hFollows.hasSecond with hSecond | ⟨hSlot, hStamp⟩
  · exact hOrderly slot first second ⟨hFirst, hSecond, hFollows.before, fun other hOther =>
      hFollows.next other (hGrows.kept hOther)⟩
  · have hNewest : rows.newest? slot = some first := by
      refine (Rows.newest?_eq_some_iff hShaped).mpr ⟨hFirst, fun other hOther hLater => ?_⟩
      refine hFollows.next other (hGrows.kept hOther) hLater ?_
      rw [hStamp]
      exact hReady.lt_of_hasVersion hShaped hSlot hOther
    obtain ⟨turn, hTurn, flag, payload, hWrite⟩ := exists_of_mem_written hSlot
    have hIn := List.mem_flatMap.mpr ⟨turn, hTurn, hWrite⟩
    have hWritten : (rows.apply (batch stamp turns raise)).HasVersion slot
        ⟨slot.stem, stamp, flag, payload⟩ := ⟨rfl, hReady.get?_version hIn⟩
    rw [hFollows.hasSecond.eq_of_stamp hWritten hStamp]
    exact (hReady.fits turn hTurn).joins hWrite hNewest stamp

/-- A pass removes the beginning of a history, so what was next to each other stays so. -/
theorem Sweep.isOrderly_swept {policy : Policy} {backend : Backend} {sweep : Sweep}
    (hShaped : backend.rows.IsShaped) (hOk : ofBackend policy backend = .ok sweep)
    (hOrderly : backend.rows.IsOrderly) : (backend.rows.apply sweep.batch).IsOrderly := by
  intro slot first second hFollows
  obtain ⟨hFirst, hKept⟩ := (hasVersion_swept_iff hShaped hOk).mp hFollows.hasFirst
  obtain ⟨hSecond, _⟩ := (hasVersion_swept_iff hShaped hOk).mp hFollows.hasSecond
  refine hOrderly slot first second ⟨hFirst, hSecond, hFollows.before, fun other hOther hAfter hUntil =>
    ?_⟩
  refine hFollows.next other ((hasVersion_swept_iff hShaped hOk).mpr ⟨hOther, ?_⟩) hAfter hUntil
  -- were the one in between removed, so would be the first
  intro expired hExpired hSame
  cases hExpired.1.eq_of_stamp hOther hSame
  exact hKept first (hExpired.of_lt hFirst hAfter) rfl

theorem Command.Changes.isOrderly {command : Command} {store after : Store}
    (hChanges : command.Changes store after) (hSound : store.backend.rows.IsSound)
    (hBefore : store.lastStamp ≠ .last) (hAfter : after.lastStamp ≠ .last)
    (hOrderly : store.backend.rows.IsOrderly) : after.backend.rows.IsOrderly := by
  cases hChanges with
  | kept rows => rw [rows]; exact hOrderly
  | mutated _ _ does carries stamp rows =>
    rw [rows, carries.batch]
    have hReady := does.areReady hSound carries.issues hBefore (stamp ▸ hAfter)
    exact hReady.isOrderly _ hSound.shaped hOrderly
  | swept _ found rows =>
    rw [rows]
    exact Sweep.isOrderly_swept hSound.shaped found hOrderly

/-- No run makes a history disorderly. -/
theorem Store.Reachable.isOrderly {store : Store} (hReached : Reachable InTime store) :
    store.backend.rows.IsOrderly :=
  hReached.rows_induction Rows.isOrderly_empty fun hBefore hAfter hChanges hOrderly =>
    hChanges.isOrderly hBefore.isSound hBefore.allowed hAfter hOrderly

/-! ### Lists without gaps -/

theorem Version.isChain_of_ascending {related : Version → Version → Prop} {versions : List Version}
    (hAsc : versions.Pairwise fun a b => a.stamp < b.stamp)
    (hNext : ∀ a ∈ versions, ∀ b ∈ versions, a.stamp < b.stamp →
      (∀ c ∈ versions, a.stamp < c.stamp → ¬ c.stamp < b.stamp) → related a b) :
    versions.IsChain related := by
  induction versions with
  | nil => exact .nil
  | cons a rest ih =>
    obtain ⟨hFirst, hRest⟩ := List.pairwise_cons.mp hAsc
    -- the first version is before all others, so it is between no two of them
    have hTail := ih hRest fun x hX y hY hLt hNone =>
      hNext x (List.mem_cons_of_mem _ hX) y (List.mem_cons_of_mem _ hY) hLt fun c hC hAfter => by
        rcases List.mem_cons.mp hC with rfl | hIn
        · have hEarlier := hFirst x hX
          rw [Stamp.lt_iff_rank] at hEarlier hAfter
          omega
        · exact hNone c hIn hAfter
    cases rest with
    | nil => exact .singleton a
    | cons b others =>
      refine .cons_cons (hNext a List.mem_cons_self b (by simp) (hFirst b List.mem_cons_self)
        fun c hC hAfter hUntil => ?_) hTail
      rcases List.mem_cons.mp hC with rfl | hIn
      · exact Stamp.not_lt_self _ hAfter
      · rcases List.mem_cons.mp hIn with rfl | hIn
        · exact Stamp.not_lt_self _ hUntil
        · have hBehind := (List.pairwise_cons.mp hRest).1 c hIn
          rw [Stamp.lt_iff_rank] at hBehind hUntil
          omega

theorem isChain_of_forall₂ {α β : Type} {chained : α → α → Prop} {linked : β → β → Prop}
    {paired : α → β → Prop} {firsts : List α} {seconds : List β} (hChain : firsts.IsChain chained)
    (hEach : List.Forall₂ paired firsts seconds)
    (hLinks : ∀ {a b x y}, chained a b → paired a x → paired b y → linked x y) :
    seconds.IsChain linked := by
  induction hEach with
  | nil => exact .nil
  | cons hFirst hRest ih =>
    cases hRest with
    | nil => exact .singleton _
    | cons hSecond hOthers =>
      cases hChain with
      | cons_cons hHere hThere => exact .cons_cons (hLinks hHere hFirst hSecond) (ih hThere)

/-- What a listing of orderly histories is like. -/
theorem Store.isOrderly_versions {store : Store} (hShaped : store.backend.rows.IsShaped)
    (hOrderly : store.backend.rows.IsOrderly) {type : EntityType} {name : Name}
    {listed : List (Stamp × VersionState)} (hOk : store.versions type name = .ok listed) :
    (listed.Pairwise fun a b => a.1 < b.1) ∧ listed.IsChain fun a b => a.2.Joins b.2 := by
  obtain ⟨versions, hEach, hAsc, hMem⟩ := exists_listing hShaped hOk
  have hStamps : listed.map (·.1) = versions.map (·.stamp) := by
    clear hOk hAsc hMem
    induction hEach with
    | nil => rfl
    | cons hFirst _ ih => rw [List.map_cons, List.map_cons, hFirst.1, ih]
  have hChain : versions.IsChain (Version.Joins type) := by
    refine Version.isChain_of_ascending hAsc fun a hA b hB hLt hNone => ?_
    obtain ⟨slot, rfl, rfl, hHas⟩ := (hMem a).mp hA
    obtain ⟨other, hType, hName, hOther⟩ := (hMem b).mp hB
    cases Slot.eq_of_parts hType hName
    exact hOrderly _ a b ⟨hHas, hOther, hLt, fun c hC =>
      hNone c ((hMem c).mpr ⟨_, rfl, rfl, hC⟩)⟩
  have hSorted : (listed.map (·.1)).Pairwise (· < ·) := by
    rw [hStamps, List.pairwise_map]
    exact hAsc
  exact ⟨List.pairwise_map.mp hSorted, isChain_of_forall₂ hChain hEach
    fun hJoins hFirst hSecond => hJoins.states hFirst.2 hSecond.2⟩

/-! ### What mutations add -/

namespace Storage.Rows

/-- Rows that have every version that others have, and in some slots one more behind them, all with
one stamp. -/
structure Extends (rows others : Rows) (touched : Slot → Prop) : Prop where
  kept : ∀ (type : EntityType) (rest value : Bytes),
    rows.get? (type.code :: rest) = some value → others.get? (type.code :: rest) = some value
  added : ∃ stamp, ∀ slot, touched slot →
    (∀ old, rows.HasVersion slot old → old.stamp < stamp) ∧
    ∃ version : Version, version.stamp = stamp ∧
      ∀ other, others.HasVersion slot other ∧ ¬ rows.HasVersion slot other ↔ other = version
  left : ∀ slot, ¬ touched slot →
    ∀ version, others.HasVersion slot version ↔ rows.HasVersion slot version

theorem Extends.of_eq {rows others : Rows} (hSame : others = rows) {touched : Slot → Prop}
    (hNone : ∀ slot, ¬ touched slot) : rows.Extends others touched where
  kept type rest value hFound := hSame ▸ hFound
  added := ⟨.zero, fun slot hTouched => absurd hTouched (hNone slot)⟩
  left slot _ version := by rw [hSame]

end Storage.Rows

theorem Turn.AreReady.isExtended {rows : Rows} {stamp : Stamp} {turns : List Turn}
    (hReady : AreReady rows stamp turns) (raise : Option Bytes) (hShaped : rows.IsShaped) :
    rows.Extends (rows.apply (batch stamp turns raise)) (· ∈ written turns) := by
  have hGrows := hReady.grows raise hShaped
  refine ⟨fun type rest value hFound => ?_, ⟨stamp, fun slot hSlot => ⟨fun old hOld =>
    hReady.lt_of_hasVersion hShaped hSlot hOld, ?_⟩⟩, fun slot hSlot version => ?_⟩
  · obtain ⟨slot, found, flag, payload, _, hKey, rfl, _⟩ := hShaped.version_of_code hFound
    rw [hKey] at hFound ⊢
    exact (hGrows.kept (⟨rfl, hFound⟩ : rows.HasVersion slot ⟨slot.stem, found, flag, payload⟩)).found
  · obtain ⟨turn, hTurn, flag, payload, hWrite⟩ := exists_of_mem_written hSlot
    have hIn := List.mem_flatMap.mpr ⟨turn, hTurn, hWrite⟩
    have hWritten : (rows.apply (batch stamp turns raise)).HasVersion slot
        ⟨slot.stem, stamp, flag, payload⟩ := ⟨rfl, hReady.get?_version hIn⟩
    refine ⟨⟨slot.stem, stamp, flag, payload⟩, rfl, fun other => ⟨?_, ?_⟩⟩
    · rintro ⟨hHas, hNew⟩
      rcases hReady.hasVersion_cases hHas with hOld | ⟨_, hStamp⟩
      · exact absurd hOld hNew
      · exact hHas.eq_of_stamp hWritten hStamp
    · rintro rfl
      refine ⟨hWritten, fun hOld => ?_⟩
      exact Stamp.not_lt_self _ (hReady.lt_of_hasVersion hShaped hSlot hOld)
  · have hSame := @hReady.get?_other _ _ _ raise slot version.stamp fun hBoth => hSlot hBoth.1
    exact ⟨fun hHas => ⟨hHas.stem, hSame ▸ hHas.found⟩, fun hHas => ⟨hHas.stem, hSame ▸ hHas.found⟩⟩

namespace Mutation

/-- Whether a slot is that of a name, or below it. -/
def Encloses (type : EntityType) (name : Name) (slot : Slot) : Prop :=
  slot.type = type ∧ slot.name = name ∨ name.isAncestorOf slot.name = true

/-- The slots that a mutation puts versions in. A new entity is put where none is alive: for a name
that one has a request is answered, if at all, with what is there. -/
def Touches (rows : Rows) (slot : Slot) : Mutation → Prop
  | create name draft => slot.type = draft.type ∧ slot.name = name ∧ ¬ rows.IsLive slot
  | alter type name _ changes =>
    let target := Store.targetName name changes
    if target = name then changes ≠ [] ∧ slot.type = type ∧ slot.name = name
    else (Encloses type name slot ∧ rows.IsLive slot) ∨
      ∃ source : Slot, rows.IsLive source ∧ slot.type = source.type ∧
        (source.type = type ∧ source.name = name ∧ slot.name = target ∨
          source.name.rebase? name target = some slot.name)
  | drop type name _ => Encloses type name slot ∧ rows.IsLive slot

section
variable {rows : Rows} {slot : Slot}

theorem encloses_iff {root slot : Slot} :
    Encloses root.type root.name slot ↔ slot = root ∨ slot.IsBelow root := by
  rw [Encloses, Slot.isAncestorOf_iff_isBelow]
  refine or_congr_left ⟨fun hSame => Slot.eq_of_parts hSame.1 hSame.2, ?_⟩
  rintro rfl
  exact ⟨rfl, rfl⟩

theorem touches_create_iff {draft : Draft} {place : Slot} {entity : Entity} {payload : Bytes}
    (hAppears : Appears rows draft place entity payload) :
    (create place.name draft).Touches rows slot ↔ slot = place := by
  constructor
  · rintro ⟨hType, hName, _⟩
    exact Slot.eq_of_parts (hType.trans hAppears.type.symm) hName
  · rintro rfl
    exact ⟨hAppears.type, rfl, hAppears.dead⟩

theorem touches_relocate_iff {source target : Slot} {payload : Entity → Bytes} {moves : List Move}
    {modifier : String} {changes : List Change}
    (hRelocation : IsRelocation rows source target payload moves)
    (hGoal : target.name = Store.targetName source.name changes) :
    (alter source.type source.name modifier changes).Touches rows slot ↔
      ∃ move ∈ moves, slot = move.target ∨ slot = move.resident.slot := by
  have hMoved : target.name ≠ source.name := fun hSame =>
    hRelocation.apart (Slot.eq_of_parts hRelocation.type hSame)
  have hType := hRelocation.type.symm
  rw [Touches]
  simp only [← hGoal, if_neg hMoved]
  -- every live slot of the subtree is on the move
  have hFound : ∀ {place : Slot}, place = source ∨ place.IsBelow source → rows.IsLive place →
      ∃ move ∈ moves, move.resident.slot = place := by
    intro place hInside hLive
    obtain ⟨resident, hMem, hSlot⟩ := hRelocation.subtree.complete place hInside hLive
    obtain ⟨move, hMove, rfl⟩ := List.mem_map.mp hMem
    exact ⟨move, hMove, hSlot⟩
  constructor
  · rintro (⟨hInside, hLive⟩ | ⟨place, hLive, hSlotType, hPlace⟩)
    · obtain ⟨move, hMove, hSlot⟩ := hFound (encloses_iff.mp hInside) hLive
      exact ⟨move, hMove, Or.inr hSlot.symm⟩
    · have hPaths : ∃ rest, place.path = source.path ++ rest ∧ slot.path = target.path ++ rest ∧
          (place = source ∨ place.IsBelow source) := by
        rcases hPlace with ⟨hPlaceType, hPlaceName, hName⟩ | hRebase
        · cases Slot.eq_of_parts hPlaceType hPlaceName
          exact ⟨[], (List.append_nil _).symm, by rw [Slot.path, hName, List.append_nil]; rfl,
            Or.inl rfl⟩
        · obtain ⟨rest, hSome, hPath, hSlotPath⟩ := Name.path_of_rebase? hRebase
          refine ⟨rest, hPath, hSlotPath, Or.inr ⟨⟨rest, hPath.symm⟩, fun hEq => hSome ?_⟩⟩
          exact List.append_cancel_left (hPath.symm.trans (hEq.symm.trans (List.append_nil _).symm))
      obtain ⟨rest, hPath, hSlotPath, hInside⟩ := hPaths
      obtain ⟨move, hMove, rfl⟩ := hFound hInside hLive
      have hLeads := hRelocation.leads move hMove
      obtain ⟨more, hMovePath, hTargetPath⟩ := hLeads.place
      rw [hPath] at hMovePath
      rw [← List.append_cancel_left hMovePath, ← hSlotPath] at hTargetPath
      exact ⟨move, hMove, Or.inl (Slot.eq_of_path (hSlotType.trans hLeads.type.symm)
        hTargetPath.symm)⟩
  · rintro ⟨move, hMove, hSlot⟩
    have hMem : move.resident ∈ moves.map (·.resident) := List.mem_map_of_mem hMove
    have hLive := (hRelocation.subtree.lives _ hMem).isLive
    have hInside := hRelocation.subtree.inside _ hMem
    have hLeads := hRelocation.leads move hMove
    rcases hSlot with rfl | rfl
    · refine Or.inr ⟨move.resident.slot, hLive, hLeads.type, ?_⟩
      obtain ⟨rest, hPath, hTargetPath⟩ := hLeads.place
      rcases hInside with hRoot | hBelow
      · refine Or.inl ⟨by rw [hRoot], by rw [hRoot], Name.path_injective ?_⟩
        rw [hRoot] at hPath
        have hNil : rest = [] :=
          List.append_cancel_left ((List.append_nil _).trans hPath).symm
        rw [hNil, List.append_nil] at hTargetPath
        exact hTargetPath
      · obtain ⟨moved, _, _, hRebase⟩ := Slot.exists_moved hBelow hType
        obtain ⟨more, _, hMovePath, hMovedPath⟩ := Name.path_of_rebase? hRebase
        have hSame : moved.name = move.target.name := by
          refine Name.path_injective (hMovedPath.trans ?_)
          have hRest : more = rest := List.append_cancel_left (hMovePath.symm.trans hPath)
          rw [hRest]
          exact hTargetPath.symm
        exact Or.inr (hSame ▸ hRebase)
    · exact Or.inl ⟨encloses_iff.mpr hInside, hLive⟩

/-- What a mutation does touches what it is said to touch. -/
theorem Does.touches_iff {mutation : Mutation} {deed : Deed} (hDoes : mutation.Does rows deed)
    (hBusy : ∀ type name modifier changes, mutation = .alter type name modifier changes →
      changes ≠ []) : mutation.Touches rows slot ↔ slot ∈ Turn.written deed.turns := by
  cases hDoes with
  | create appears => exact (touches_create_iff appears).trans List.mem_singleton.symm
  | @rewrite resident entity payload modifier changes rewrites same =>
    rw [Touches]
    simp only [if_pos same]
    refine Iff.trans ⟨fun hTouched => Slot.eq_of_parts hTouched.2.1 hTouched.2.2, ?_⟩
      List.mem_singleton.symm
    rintro rfl
    exact ⟨hBusy _ _ _ _ rfl, rfl, rfl⟩
  | relocate relocation goal =>
    exact (touches_relocate_iff relocation goal).trans Turn.mem_written_moveAll_iff.symm
  | @drop root residents cascade subtree =>
    rw [Touches, encloses_iff, Turn.written_vanishAll, List.mem_map]
    constructor
    · rintro ⟨hInside, hLive⟩
      exact subtree.complete slot hInside hLive
    · rintro ⟨resident, hMem, rfl⟩
      exact ⟨subtree.inside resident hMem, (subtree.lives resident hMem).isLive⟩

end

end Mutation

namespace Store

/-- What dropping finds nothing of is not alive. -/
theorem not_isLive_of_prepareDrop {store after : Store} {root : Slot} {cascade : Bool}
    {found : Bool}
    (hRun : (prepareDrop root.type root.name cascade).run store = (.ok (.settled found), after)) :
    ¬ store.backend.rows.IsLive root := by
  obtain ⟨_, _, hRest⟩ := Action.inspect_bind_run_eq_ok hRun
  obtain ⟨ticket, locked, middle, hStays, _, hBody, _⟩ := underLocks_eq_ok hRest
  obtain ⟨live, hLive, hRest⟩ := Action.inspect_bind_run_eq_ok hBody
  have hFilter := Catalog.live?_eq_ok hLive
  cases live with
  | none =>
    rintro ⟨version, hNewest, hFlag⟩
    rw [hStays.backend, hNewest, Option.filter_some_pos hFlag] at hFilter
    cases hFilter
  | some current =>
    obtain ⟨doomed, _, hRest⟩ := Action.inspect_bind_run_eq_ok hRest
    obtain ⟨stamp, _, _, hRest⟩ := Action.bind_run_eq_ok hRest
    obtain ⟨batch, _, hLast⟩ := Action.inspect_bind_run_eq_ok hRest
    cases hLast

/-- What has nothing to write touches nothing. -/
theorem not_touches_of_settled {store after : Store} (hSound : store.backend.rows.IsSound)
    {mutation : Mutation} (hValid : mutation.name.IsValid) {answer : Reply}
    (hRun : mutation.prepare.run store = (.ok (.settled answer), after)) (slot : Slot) :
    ¬ mutation.Touches store.backend.rows slot := by
  have hIdle : (Command.mutate mutation).IsIdle store.backend.rows answer :=
    @Command.isIdle_of_settled (.mutate mutation) _ _ hValid _ hRun
  intro hTouches
  cases mutation with
  | create name draft =>
    obtain ⟨place, hType, hName, hLive⟩ := hIdle
    obtain ⟨hSlotType, hSlotName, hDead⟩ := hTouches
    cases Slot.eq_of_parts (hType.trans hSlotType.symm) (hName.trans hSlotName.symm)
    exact hDead hLive
  | alter type name modifier changes =>
    cases (hIdle : changes = [])
    rw [Mutation.Touches] at hTouches
    simp only [targetName, if_true] at hTouches
    exact hTouches.1 rfl
  | drop type name cascade =>
    obtain ⟨found, hFound, _⟩ := Mutation.settled_of_map hRun
    obtain ⟨_, hChecked, _⟩ := Action.inspect_bind_run_eq_ok hFound
    obtain ⟨_, _, hDepth⟩ := Outcome.bind_eq_ok hChecked
    let root : Slot := ⟨type, name, checkDepth_eq_ok hDepth, hValid⟩
    have hDead : ¬ store.backend.rows.IsLive root := not_isLive_of_prepareDrop hFound
    obtain ⟨hInside, hLive⟩ := hTouches
    rcases (@Mutation.encloses_iff root slot).mp hInside with rfl | hBelow
    · exact hDead hLive
    · exact hSound.not_isLive_below hBelow hDead hLive

/-- Wherever a run leads, a mutation that answers adds one version to each history it touches and
changes no other version, and what is listed under a name is an orderly history. -/
theorem Reachable.histories_grow {store : Store} (hReached : Reachable InTime store) :
    (∀ (mutation : Mutation) (faults : List Call) (reply : Reply) (after : Store),
      mutation.name.IsValid →
      (Command.mutate mutation).perform.runDuring faults store = (.ok reply, after) →
      after.InTime →
      store.backend.rows.Extends after.backend.rows fun slot =>
        mutation.Touches store.backend.rows slot) ∧
    (∀ (type : EntityType) (name : Name), store.closed = false → name.scope.depth = type.depth →
      ∃ listed, store.versions type name = .ok listed) ∧
    ∀ (type : EntityType) (name : Name) (faults : List Call) (listed : List (Stamp × VersionState)),
      (store.withFaults faults).versions type name = .ok listed →
      (listed.Pairwise fun a b => a.1 < b.1) ∧ listed.IsChain fun a b => a.2.Joins b.2 := by
  have hSound := hReached.isSound
  refine ⟨fun mutation faults reply after hValid hRan hAfter => ?_, fun type name hOpen hDepth =>
    exists_versions hSound.shaped hReached.isSteady hOpen hDepth, fun type name faults listed hOk => ?_⟩
  · obtain ⟨left, hRun, rfl⟩ := runDuring_eq hRan
    have hFaulty : (store.withFaults faults).backend.rows.IsSound := hSound
    obtain ⟨hGrants, _, _⟩ := hReached.isSteady.withFaults faults
    cases (Command.mutate mutation).completes hGrants hRun with
    | settled prepared leaves =>
      refine .of_eq leaves.backend.rows fun slot => ?_
      exact not_touches_of_settled hFaulty hValid prepared slot
    | @written change middle _ backend prepared write keeps _ _ _ stamp =>
      obtain ⟨deed, hDoes, hCarries⟩ := mutation.prepare_does hValid hFaulty.shaped prepared
      have hMiddle : middle.lastStamp ≠ .last := stamp ▸ hAfter
      have hReady := hDoes.areReady hFaulty hCarries.issues hReached.allowed hMiddle
      have hRows : (left.withFaults []).backend.rows = store.backend.rows.apply change.batch :=
        keeps.rows.trans (Backend.write_eq_ok write).1
      have hTouches : (fun slot => mutation.Touches store.backend.rows slot) =
          (· ∈ Turn.written deed.turns) := by
        refine funext fun slot => propext (hDoes.touches_iff fun type name modifier changes hIs => ?_)
        subst hIs
        exact @Command.not_isIdle_of_pending (.mutate _) _ _ _ prepared
      rw [hTouches, hRows, hCarries.batch]
      exact hReady.isExtended _ hFaulty.shaped
  · have hFaulty : (store.withFaults faults).backend.rows.IsShaped := hSound.shaped
    exact isOrderly_versions hFaulty hReached.isOrderly hOk

end Store

namespace Sample

/-- In the store of the sample the metalake has an orderly history, and when it gets its name there
is one version more under the new one. -/
theorem histories_grow_store :
    (∃ listed, store.versions .metalake lake = .ok listed ∧
      listed.IsChain fun a b => a.2.Joins b.2) ∧
    ∃ version : Version, ∀ other,
      (renameLake.perform.runDuring [] store).2.backend.rows.HasVersion seaSlot other ∧
        ¬ store.backend.rows.HasVersion seaSlot other ↔ other = version := by
  obtain ⟨hMutations, hListed, hOrderly⟩ := reachable_store.histories_grow
  obtain ⟨listed, hOk⟩ := hListed .metalake lake (by decide +kernel) rfl
  have hFaultless := Store.withFaults_nil reachable_store.isSteady
  refine ⟨⟨listed, hOk, (hOrderly .metalake lake [] listed (by rw [hFaultless]; exact hOk)).2⟩, ?_⟩
  have hAnswers : (renameLake.perform.runDuring [] store).1.isOk = true := by decide +kernel
  obtain ⟨reply, hReply⟩ := Outcome.exists_of_isOk hAnswers
  have hRan : renameLake.perform.runDuring [] store =
      (.ok reply, (renameLake.perform.runDuring [] store).2) := by rw [← hReply]
  obtain ⟨_, ⟨stamp, hAdded⟩, _⟩ := hMutations _ [] reply _ (by decide +kernel) hRan (by decide +kernel)
  have hLive : store.backend.rows.IsLive lakeSlot := by decide +kernel
  have hTouched : (Mutation.alter .metalake lake "me" [.rename "sea"]).Touches store.backend.rows
      seaSlot := Or.inr ⟨lakeSlot, hLive, rfl, Or.inl ⟨rfl, rfl, rfl⟩⟩
  obtain ⟨_, version, _, hOnly⟩ := hAdded seaSlot hTouched
  exact ⟨version, hOnly⟩

end Sample

end VersionedCatalog
