import VersionedCatalog.Proofs.Sizes
import VersionedCatalog.Store.Error

/-! # Payloads of either format

A payload names its format, so whoever reads it need not know which one it was written in. Read for
the type of its entity it gives this entity, and read for another type it gives a failure that names
both types (`Entity.decode_of_encode`). So an entity of which every part has a length of one word goes
through a payload unchanged (`Entity.round_trips`), and its payloads in both formats cannot be told
apart by reading them (`AreAlike.of_encode`).
-/

namespace VersionedCatalog

/-- Two payloads that nobody can tell apart who reads them as entities. -/
def AreAlike (payload other : Bytes) : Prop :=
  ∀ type, Entity.decode type payload = Entity.decode type other

theorem AreAlike.refl (payload : Bytes) : AreAlike payload payload := fun _ => rfl

theorem AreAlike.symm {payload other : Bytes} (hAlike : AreAlike payload other) :
    AreAlike other payload := fun type => (hAlike type).symm

namespace Entity

/-- A payload that gives its entity for one type gives a failure for every other type. -/
theorem decode_of_decode {type : EntityType} {payload : Bytes} {entity : Entity}
    (hOk : decode type payload = .ok entity) (expected : EntityType) :
    decode expected payload =
      if entity.type = expected then .ok entity else .error (.type expected entity.type) := by
  obtain ⟨found, hFrame, hRest⟩ := Outcome.bind_eq_ok hOk
  have hSame : found = entity := by
    split at hRest
    next => cases hRest; rfl
    next => cases hRest
  rw [decode, hFrame, hSame]
  rfl

theorem decode_of_encode {format : Format} {entity : Entity} {payload : Bytes}
    (hEncode : entity.encode format = .ok payload) (expected : EntityType) :
    decode expected payload =
      if entity.type = expected then .ok entity else .error (.type expected entity.type) :=
  decode_of_decode (decode_encode hEncode) expected

/-- An entity is written in either format, and the payload gives exactly this entity for its own type
and a failure of serialization for every other one. All parts of an entity that fits into memory are
sized. -/
theorem round_trips {entity : Entity} (hSized : entity.IsSized) (format : Format) :
    ∃ payload, entity.encode format = .ok payload ∧ Frame.peek payload = .ok format ∧
      decode entity.type payload = .ok entity ∧
      ∀ expected ≠ entity.type, ∃ error, decode expected payload = .error error ∧
        error = .type expected entity.type ∧
          (StoreError.payload error).toClass = .serialization := by
  obtain ⟨payload, hEncode⟩ := exists_encode hSized format
  have hPeek : Frame.peek payload = .ok format := by
    have hFrame := Outcome.mapError_eq_ok hEncode
    unfold Frame.encode at hFrame
    split at hFrame
    next body hWrite => cases hFrame; rw [Frame.peek, Frame.split_header]; rfl
    next => cases hFrame
  refine ⟨payload, hEncode, hPeek, decode_encode hEncode, fun expected hOther => ?_⟩
  exact ⟨_, (decode_of_encode hEncode expected).trans (if_neg hOther.symm), rfl, rfl⟩

end Entity

/-- What one entity is written as in two formats is alike. -/
theorem AreAlike.of_encode {format otherFormat : Format} {entity : Entity} {payload other : Bytes}
    (hEncode : entity.encode format = .ok payload)
    (hOther : entity.encode otherFormat = .ok other) : AreAlike payload other := fun type =>
  (Entity.decode_of_encode hEncode type).trans (Entity.decode_of_encode hOther type).symm

namespace Sample

/-- A table with something in every field. -/
def eventTable : Entity where
  id := ⟨18446744073709551615⟩
  name := ⟨⟨["lake", "hive", "söhne"]⟩, "\"évents\"\n𝛼"⟩
  comment := some "a\\b"
  properties := (∅ : Properties).insert "owner" "" |>.insert "\u0007" "\x7d"
  audit := ⟨"me", 0, some "you", some 18446744073709551615⟩
  kind := .table [⟨"at", "timestamp", some "€", false⟩, ⟨"", "", none, true⟩] ["day(at)"]

theorem round_trips_eventTable : eventTable.IsSized ∧
    ∃ payload, eventTable.encode .cbor = .ok payload ∧ Frame.peek payload = .ok .cbor ∧
      Entity.decode eventTable.type payload = .ok eventTable ∧
      ∀ expected ≠ eventTable.type, ∃ error, Entity.decode expected payload = .error error ∧
        error = .type expected eventTable.type ∧
          (StoreError.payload error).toClass = .serialization :=
  have hSized : eventTable.IsSized := by decide +kernel
  ⟨hSized, Entity.round_trips hSized .cbor⟩

end Sample

end VersionedCatalog
