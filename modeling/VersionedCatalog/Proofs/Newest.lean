import VersionedCatalog.Entity.Payload
import VersionedCatalog.History.Version
import VersionedCatalog.Proofs.Outcomes
import VersionedCatalog.Proofs.Ranges
import VersionedCatalog.Proofs.Slots

/-! # The newest version of a slot

The rows of a store have a known form (`Rows.IsFormed`): versions of slots, the index and the
watermark. In such rows the last row below the stem of a slot is the newest version of the slot
(`Rows.newest?_eq_some_iff`), so it depends on the versions of this slot alone
(`Rows.newest?_congr`). A slot is live when its newest version is, and holds the entity that this
version says.

How rows are formed does not depend on the order of their stamps. Rows without the last stamp, for
which there is always a later one, are shaped (`Rows.IsShaped`).
-/

namespace VersionedCatalog

theorem Version.encodeValue_injective {flag other : Flag} {payload found : Bytes}
    (hValue : encodeValue flag payload = encodeValue other found) :
    flag = other ∧ payload = found := by
  have hParts := congrArg decodeValue hValue
  rw [decodeValue_encodeValue, decodeValue_encodeValue] at hParts
  cases hParts
  exact ⟨rfl, rfl⟩

/-- What a version in a slot may say, with ids that are known. -/
inductive Says (known : EntityId → Prop) (slot : Slot) : Flag → Bytes → Prop
  | live {payload : Bytes} {entity : Entity}
      (decoded : Entity.decode slot.type payload = .ok entity) (name : entity.name = slot.name)
      (tagged : entity.properties.get? EntityId.propertyKey = some entity.id.tag)
      (owned : known entity.id) : Says known slot .live payload
  | tombstone : Says known slot .tombstone []
  | renamed {target : Name} (valid : target.IsValid) :
      Says known slot .renamed (Utf8.encode target.text)

/-- A row with a stamp that is allowed and ids that are known. -/
inductive IsFormedRow (allowed : Stamp → Prop) (known : EntityId → Prop) : Storage.Row → Prop
  | version {slot : Slot} {stamp : Stamp} {flag : Flag} {payload : Bytes}
      (stamped : allowed stamp) (said : Says known slot flag payload) :
      IsFormedRow allowed known (slot.key stamp, Version.encodeValue flag payload)
  | index {id : EntityId} (slot : Slot) (owned : known id) :
      IsFormedRow allowed known (Key.id id, slot.stem)
  | watermark (bytes : Bytes) : IsFormedRow allowed known (Key.watermark, bytes)

theorem IsFormedRow.mono {allowed timely : Stamp → Prop} {known others : EntityId → Prop}
    {row : Storage.Row} (hRow : IsFormedRow allowed known row)
    (hStamps : ∀ stamp, allowed stamp → timely stamp) (hIds : ∀ id, known id → others id) :
    IsFormedRow timely others row := by
  cases hRow with
  | version stamped said =>
    refine .version (hStamps _ stamped) ?_
    cases said with
    | live decoded name tagged owned => exact .live decoded name tagged (hIds _ owned)
    | tombstone => exact .tombstone
    | renamed valid => exact .renamed valid
  | index slot owned => exact .index slot (hIds _ owned)
  | watermark bytes => exact .watermark bytes

namespace Storage.Rows

def IsFormed (allowed : Stamp → Prop) (known : EntityId → Prop) (rows : Rows) : Prop :=
  ∀ key value, rows.get? key = some value → IsFormedRow allowed known (key, value)

def IsShaped (rows : Rows) : Prop := rows.IsFormed (fun stamp => stamp ≠ .last) fun _ => True

/-- Whether the rows under the codes of the types are versions of slots, whatever they say. -/
def AreVersions (rows : Rows) : Prop :=
  ∀ (type : EntityType) (key value : Bytes), rows.get? key = some value → [type.code] <+: key →
    ∃ slot stamp flag payload, key = Slot.key slot stamp ∧
      value = Version.encodeValue flag payload

theorem IsFormed.mono {allowed timely : Stamp → Prop} {known others : EntityId → Prop} {rows : Rows}
    (hFormed : rows.IsFormed allowed known) (hStamps : ∀ stamp, allowed stamp → timely stamp)
    (hIds : ∀ id, known id → others id) : rows.IsFormed timely others :=
  fun key value hFound => (hFormed key value hFound).mono hStamps hIds

theorem IsFormed.apply {allowed : Stamp → Prop} {known : EntityId → Prop} {rows : Rows}
    (hFormed : rows.IsFormed allowed known) {batch : Batch}
    (hBatch : ∀ key value, .put key value ∈ batch → IsFormedRow allowed known (key, value)) :
    (rows.apply batch).IsFormed allowed known := by
  intro key value hFound
  rcases get?_apply_cases rows batch hFound with hPut | hBefore
  · exact hBatch key value hPut
  · exact hFormed key value hBefore

/-- Whether a version is among the rows of a slot. -/
structure HasVersion (rows : Rows) (slot : Slot) (version : Version) : Prop where
  stem : version.stem = slot.stem
  found : rows.get? (slot.key version.stamp) =
    some (Version.encodeValue version.flag version.payload)

def newest? (rows : Rows) (slot : Slot) : Option Version :=
  (rows.lastBelow? slot.stem).bind fun row => (Version.ofRow row).toOption

/-- Whether the newest version in a slot is live. -/
def IsLive (rows : Rows) (slot : Slot) : Prop :=
  ∃ version, rows.newest? slot = some version ∧ version.isLive = true

theorem isLive_iff_any {rows : Rows} {slot : Slot} :
    rows.IsLive slot ↔ (rows.newest? slot).any Version.isLive = true := by
  rw [Option.any_eq_true]
  rfl

instance (rows : Rows) (slot : Slot) : Decidable (rows.IsLive slot) :=
  decidable_of_iff _ isLive_iff_any.symm

/-- Whether the newest version in a slot is live and says that an entity is there. -/
def Holds (rows : Rows) (slot : Slot) (entity : Entity) : Prop :=
  ∃ version, rows.newest? slot = some version ∧ version.isLive = true ∧
    Entity.decode slot.type version.payload = .ok entity

theorem IsLive.of_holds {rows : Rows} {slot : Slot} {entity : Entity}
    (hHolds : rows.Holds slot entity) : rows.IsLive slot := by
  obtain ⟨version, hNewest, hLive, _⟩ := hHolds
  exact ⟨version, hNewest, hLive⟩

theorem Holds.entity_eq {rows : Rows} {slot : Slot} {a b : Entity} (hA : rows.Holds slot a)
    (hB : rows.Holds slot b) : a = b := by
  obtain ⟨version, hNewest, _, hDecode⟩ := hA
  obtain ⟨other, hOther, _, hSame⟩ := hB
  cases Option.some.inj (hNewest.symm.trans hOther)
  exact Except.ok.inj (hDecode.symm.trans hSame)

theorem isLive_congr {rows others : Rows} {slot : Slot}
    (hSame : others.newest? slot = rows.newest? slot) : others.IsLive slot ↔ rows.IsLive slot := by
  rw [IsLive, IsLive, hSame]

theorem holds_congr {rows others : Rows} {slot : Slot} {entity : Entity}
    (hSame : others.newest? slot = rows.newest? slot) :
    others.Holds slot entity ↔ rows.Holds slot entity := by
  rw [Holds, Holds, hSame]

theorem HasVersion.eq_of_stamp {rows : Rows} {slot : Slot} {a b : Version}
    (hA : rows.HasVersion slot a) (hB : rows.HasVersion slot b) (hStamp : a.stamp = b.stamp) :
    a = b := by
  have hStem := hA.stem.trans hB.stem.symm
  have hFound := hB.found
  rw [← hStamp, hA.found, Option.some.injEq, Version.encodeValue, Version.encodeValue,
    List.cons.injEq] at hFound
  have hFlag : Flag.ofByte? a.flag.byte = Flag.ofByte? b.flag.byte := by rw [hFound.1]
  rw [Flag.ofByte?_byte, Flag.ofByte?_byte, Option.some.injEq] at hFlag
  obtain ⟨stem, stamp, flag, payload⟩ := a
  obtain ⟨otherStem, otherStamp, otherFlag, otherPayload⟩ := b
  simp only at hStem hStamp hFlag hFound
  rw [hStem, hStamp, hFlag, hFound.2]

section
variable {allowed : Stamp → Prop} {known : EntityId → Prop} {rows : Rows}
  (hFormed : rows.IsFormed allowed known)
include hFormed

/-- The rows below the stem of a type and a path are versions of slots there. -/
theorem IsFormed.version_of_typed {type : EntityType} {path : List String} {key value : Bytes}
    (hFound : rows.get? key = some value) (hStem : Key.typed type path <+: key) :
    ∃ slot stamp flag payload, key = Slot.key slot stamp ∧
      value = Version.encodeValue flag payload ∧ allowed stamp ∧ Says known slot flag payload := by
  generalize hRow : (key, value) = row
  have hShape := hFormed key value hFound
  rw [hRow] at hShape
  cases hShape with
  | version stamped said =>
    cases hRow
    exact ⟨_, _, _, _, rfl, rfl, stamped, said⟩
  | @index id slot owned =>
    cases hRow
    exact absurd hStem (Key.not_typed_isPrefix_id type path id)
  | watermark bytes =>
    cases hRow
    exact absurd hStem (Key.not_typed_isPrefix_watermark type path)

theorem IsFormed.areVersions : rows.AreVersions := by
  intro type key value hFound hStem
  obtain ⟨slot, stamp, flag, payload, hKey, hValue, _⟩ :=
    @IsFormed.version_of_typed _ _ _ hFormed type [] _ _ hFound hStem
  exact ⟨slot, stamp, flag, payload, hKey, hValue⟩

theorem IsFormed.version_of_key {slot : Slot} {stamp : Stamp} {value : Bytes}
    (hFound : rows.get? (slot.key stamp) = some value) :
    ∃ flag payload, value = Version.encodeValue flag payload ∧ allowed stamp ∧
      Says known slot flag payload := by
  obtain ⟨other, otherStamp, flag, payload, hKey, hValue, hStamped, hSays⟩ :=
    hFormed.version_of_typed hFound (List.prefix_append slot.stem stamp.bytes)
  obtain ⟨rfl, rfl⟩ := Slot.key_injective hKey
  exact ⟨flag, payload, hValue, hStamped, hSays⟩

theorem IsFormed.said {slot : Slot} {version : Version} (hHas : rows.HasVersion slot version) :
    allowed version.stamp ∧ Says known slot version.flag version.payload := by
  obtain ⟨flag, payload, hValue, hStamped, hSays⟩ := hFormed.version_of_key hHas.found
  obtain ⟨rfl, rfl⟩ := Version.encodeValue_injective hValue
  exact ⟨hStamped, hSays⟩

theorem IsFormed.hasVersion_of_row {slot : Slot} {row : Row}
    (hFound : rows.get? row.1 = some row.2) (hStem : slot.stem <+: row.1) :
    ∃ version, Version.ofRow row = .ok version ∧ rows.HasVersion slot version ∧
      row.1 = slot.key version.stamp := by
  obtain ⟨key, value⟩ := row
  have hTyped : Key.typed slot.type slot.name.path <+: key := hStem
  obtain ⟨other, stamp, flag, payload, rfl, rfl, _, _⟩ := hFormed.version_of_typed hFound hTyped
  have hSame : slot = other := Slot.stem_isPrefix_key_iff.mp hStem
  subst hSame
  refine ⟨⟨slot.stem, stamp, flag, payload⟩, ?_, ⟨rfl, hFound⟩, rfl⟩
  exact Version.ofRow_toRow ⟨slot.stem, stamp, flag, payload⟩ slot.stem_ne_nil

/-- The newest version of a slot is the version with the latest stamp. -/
theorem newest?_eq_some_iff {slot : Slot} {version : Version} :
    rows.newest? slot = some version ↔ rows.HasVersion slot version ∧
      ∀ other, rows.HasVersion slot other → ¬ version.stamp < other.stamp := by
  constructor
  · intro hNewest
    obtain ⟨row, hLast, hRow⟩ := Option.bind_eq_some_iff.mp hNewest
    obtain ⟨⟨hFound, hStem⟩, hGreatest⟩ := (lastBelow?_eq_some_iff rows slot.stem row).mp hLast
    obtain ⟨found, hOk, hHas, hKey⟩ := hFormed.hasVersion_of_row hFound hStem
    rw [hOk] at hRow
    cases Option.some.inj hRow
    refine ⟨hHas, fun other hOther hLater => ?_⟩
    have hNotLater := hGreatest (slot.key other.stamp, _) hOther.found (List.prefix_append _ _)
    rw [hKey, Slot.key_lt_key_iff] at hNotLater
    exact hNotLater hLater
  · rintro ⟨hHas, hLatest⟩
    have hLast : rows.lastBelow? slot.stem =
        some (slot.key version.stamp, Version.encodeValue version.flag version.payload) := by
      refine (lastBelow?_eq_some_iff rows slot.stem _).mpr
        ⟨⟨hHas.found, List.prefix_append _ _⟩, fun other hFound hStem => ?_⟩
      obtain ⟨found, _, hOther, hKey⟩ := hFormed.hasVersion_of_row hFound hStem
      rw [hKey, Slot.key_lt_key_iff]
      exact hLatest found hOther
    have hRow : version.toRow =
        (slot.key version.stamp, Version.encodeValue version.flag version.payload) := by
      rw [Version.toRow, hHas.stem]
      rfl
    rw [newest?, hLast, Option.bind_some, ← hRow,
      Version.ofRow_toRow version (hHas.stem ▸ slot.stem_ne_nil)]
    rfl

theorem newest?_eq_none_iff {slot : Slot} :
    rows.newest? slot = none ↔ ∀ version, ¬ rows.HasVersion slot version := by
  constructor
  · intro hNone version hHas
    cases hLast : rows.lastBelow? slot.stem with
    | none =>
      exact (lastBelow?_eq_none_iff rows slot.stem).mp hLast (slot.key version.stamp, _) hHas.found
        (List.prefix_append _ _)
    | some row =>
      obtain ⟨⟨hFound, hStem⟩, _⟩ := (lastBelow?_eq_some_iff rows slot.stem row).mp hLast
      obtain ⟨found, hOk, _, _⟩ := hFormed.hasVersion_of_row hFound hStem
      rw [newest?, hLast, Option.bind_some, hOk] at hNone
      cases hNone
  · intro hNone
    cases hNewest : rows.newest? slot with
    | none => rfl
    | some version =>
      obtain ⟨row, hLast, _⟩ := Option.bind_eq_some_iff.mp hNewest
      obtain ⟨⟨hFound, hStem⟩, _⟩ := (lastBelow?_eq_some_iff rows slot.stem row).mp hLast
      obtain ⟨found, _, hHas, _⟩ := hFormed.hasVersion_of_row hFound hStem
      exact absurd hHas (hNone found)

theorem hasVersion_of_newest? {slot : Slot} {version : Version}
    (hNewest : rows.newest? slot = some version) : rows.HasVersion slot version :=
  ((newest?_eq_some_iff hFormed).mp hNewest).1

theorem allowed_of_newest? {slot : Slot} {version : Version}
    (hNewest : rows.newest? slot = some version) : allowed version.stamp :=
  (hFormed.said (hasVersion_of_newest? hFormed hNewest)).1

/-- The newest version depends on the versions of the slot alone. -/
theorem newest?_congr {others : Rows} (hOthers : others.IsFormed allowed known) {slot : Slot}
    (hSame : ∀ stamp, others.get? (slot.key stamp) = rows.get? (slot.key stamp)) :
    others.newest? slot = rows.newest? slot := by
  have hVersions : ∀ version, others.HasVersion slot version ↔ rows.HasVersion slot version := by
    intro version
    constructor
    · rintro ⟨hStem, hFound⟩
      exact ⟨hStem, (hSame _).symm.trans hFound⟩
    · rintro ⟨hStem, hFound⟩
      exact ⟨hStem, (hSame _).trans hFound⟩
  refine Option.ext fun version => ?_
  rw [newest?_eq_some_iff hFormed, newest?_eq_some_iff hOthers, hVersions]
  simp only [hVersions]

/-- A live slot holds an entity of its name with a known id, which its properties carry. -/
theorem IsFormed.holds_of_isLive {slot : Slot} (hLive : rows.IsLive slot) :
    ∃ entity, rows.Holds slot entity ∧ entity.name = slot.name ∧
      entity.properties.get? EntityId.propertyKey = some entity.id.tag ∧ known entity.id := by
  obtain ⟨version, hNewest, hFlag⟩ := hLive
  have hSays := (hFormed.said (hasVersion_of_newest? hFormed hNewest)).2
  have hFlag' : version.flag = .live := of_decide_eq_true hFlag
  rw [hFlag'] at hSays
  cases hSays with
  | live decoded name tagged owned =>
    exact ⟨_, ⟨version, hNewest, hFlag, decoded⟩, name, tagged, owned⟩

theorem IsFormed.name_of_holds {slot : Slot} {entity : Entity} (hHolds : rows.Holds slot entity) :
    entity.name = slot.name ∧
      entity.properties.get? EntityId.propertyKey = some entity.id.tag ∧ known entity.id := by
  obtain ⟨found, hFound, hName, hTag, hOwned⟩ := hFormed.holds_of_isLive (.of_holds hHolds)
  cases hHolds.entity_eq hFound
  exact ⟨hName, hTag, hOwned⟩

end

end Storage.Rows

end VersionedCatalog
