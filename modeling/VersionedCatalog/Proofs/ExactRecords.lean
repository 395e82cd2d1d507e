import VersionedCatalog.Proofs.Damage

/-! # Records are exact

Nothing is read as a record but what is written as one. Each part that is taken off the front of a
byte string is the encoding of what it is read as (`Record.takeSized_eq_ok`, `Record.decodeOp_eq_ok`),
so a body that is read as a batch is the body of this batch (`Record.decodeBody_eq_ok`), and bytes
that start with a record start with the encoding of its batch (`Record.encode_of_decode`). A batch has
a record just if its lengths can be said (`Record.exists_encode_iff`). Together with what is read of a
whole record and of a cut one this is `Record.encodes_exactly`.
-/

namespace VersionedCatalog

namespace Bytes

theorem little_ofLittle (bytes : Bytes) : little bytes.length (ofLittle bytes) = bytes := by
  refine ofLittle_inj (length_little _ _) ?_
  rw [ofLittle_little]
  exact Nat.mod_eq_of_lt (ofLittle_lt bytes)

end Bytes

namespace Storage

namespace Record

variable {bytes rest : Bytes}

/-! ### What has been taken off the front -/

theorem takeOr_eq_ok {n : Nat} {front : Bytes} (hOk : takeOr n bytes = .ok (front, rest)) :
    front.length = n ∧ bytes = front ++ rest := by
  by_cases hLong : n ≤ bytes.length
  · rw [takeOr, Bytes.take?, if_pos hLong] at hOk
    cases hOk
    exact ⟨List.length_take_of_le hLong, (List.take_append_drop n bytes).symm⟩
  · rw [takeOr, Bytes.take?, if_neg hLong] at hOk
    cases hOk

/-- Four bytes are the word of the number that they say. -/
theorem word_ofLittle {digits : Bytes} (hLength : digits.length = 4) :
    word (Bytes.ofLittle digits) = digits := by
  have hDigits := Bytes.little_ofLittle digits
  rwa [hLength] at hDigits

theorem ofLittle_lt_size {digits : Bytes} (hLength : digits.length = 4) :
    Bytes.ofLittle digits < UInt32.size := by
  have hDigits := Bytes.ofLittle_lt digits
  rwa [hLength] at hDigits

theorem takeWord_eq_ok {n : Nat} (hOk : takeWord bytes = .ok (n, rest)) :
    n < UInt32.size ∧ bytes = word n ++ rest := by
  obtain ⟨⟨digits, left⟩, hDigits, hLast⟩ := Outcome.bind_eq_ok hOk
  obtain ⟨hLength, rfl⟩ := takeOr_eq_ok hDigits
  cases hLast
  exact ⟨ofLittle_lt_size hLength, by rw [word_ofLittle hLength]⟩

theorem takeSized_eq_ok {part : Bytes} (hOk : takeSized bytes = .ok (part, rest)) :
    ∃ encoded, sized part = .ok encoded ∧ bytes = encoded ++ rest := by
  obtain ⟨⟨n, left⟩, hWord, hPart⟩ := Outcome.bind_eq_ok hOk
  obtain ⟨hFits, rfl⟩ := takeWord_eq_ok hWord
  obtain ⟨rfl, rfl⟩ := takeOr_eq_ok hPart
  refine ⟨word part.length ++ part, ?_, (List.append_assoc _ _ _).symm⟩
  rw [sized, lengthWord, if_pos hFits]
  rfl

theorem decodeOp_eq_ok {op : Op} (hOk : decodeOp bytes = .ok (op, rest)) :
    ∃ encoded, encodeOp op = .ok encoded ∧ bytes = encoded ++ rest := by
  cases bytes with
  | nil => cases hOk
  | cons tag bytes =>
    obtain ⟨⟨key, left⟩, hKey, hRest⟩ := Outcome.bind_eq_ok hOk
    obtain ⟨keyPart, hKeyPart, rfl⟩ := takeSized_eq_ok hKey
    simp only at hRest
    split at hRest
    next hPut =>
      obtain ⟨⟨value, last⟩, hValue, hLast⟩ := Outcome.bind_eq_ok hRest
      obtain ⟨valuePart, hValuePart, rfl⟩ := takeSized_eq_ok hValue
      cases hLast
      subst hPut
      refine ⟨putTag :: keyPart ++ valuePart, by rw [encodeOp, hKeyPart, hValuePart]; rfl, ?_⟩
      rw [List.append_assoc, List.cons_append]
    next =>
      split at hRest
      next hDelete =>
        cases hRest
        subst hDelete
        exact ⟨deleteTag :: keyPart, by rw [encodeOp, hKeyPart]; rfl, rfl⟩
      next => cases hRest

theorem decodeOps_eq_ok {count : Nat} {batch : Batch} (hOk : decodeOps count bytes = .ok batch) :
    batch.length = count ∧ encodeOps batch = .ok bytes := by
  induction count generalizing bytes batch with
  | zero =>
    rw [decodeOps] at hOk
    split at hOk
    next hEmpty =>
      cases hOk
      rw [List.isEmpty_iff.mp hEmpty]
      exact ⟨rfl, rfl⟩
    next => cases hOk
  | succ count ih =>
    obtain ⟨⟨op, left⟩, hOp, hRest⟩ := Outcome.bind_eq_ok hOk
    obtain ⟨others, hOthers, hLast⟩ := Outcome.bind_eq_ok hRest
    cases hLast
    obtain ⟨encoded, hEncoded, rfl⟩ := decodeOp_eq_ok hOp
    obtain ⟨rfl, hLeft⟩ := ih hOthers
    refine ⟨rfl, ?_⟩
    rw [encodeOps, hEncoded, hLeft]
    rfl

/-- A body that is read as a batch is the number of its operations and the operations. -/
theorem decodeBody_eq_ok {body : Bytes} {batch : Batch} (hOk : decodeBody body = .ok batch) :
    ∃ ops, encodeOps batch = .ok ops ∧ batch.length < UInt32.size ∧
      body = word batch.length ++ ops := by
  obtain ⟨⟨count, ops⟩, hCount, hOps⟩ := Outcome.bind_eq_ok hOk
  obtain ⟨hFits, rfl⟩ := takeWord_eq_ok hCount
  obtain ⟨rfl, hEncoded⟩ := decodeOps_eq_ok hOps
  exact ⟨ops, hEncoded, hFits, rfl⟩

/-- So a batch has one body only, and its record is made of this. -/
theorem encode_of_decodeBody {body : Bytes} {batch : Batch} (hBody : decodeBody body = .ok batch)
    (hFits : body.length < UInt32.size) :
    encode batch = .ok (withChecksum (head body.length ++ body)) := by
  obtain ⟨ops, hOps, hCount, rfl⟩ := decodeBody_eq_ok hBody
  have hWord : lengthWord batch.length = .ok (word batch.length) := if_pos hCount
  have hSized : sized (word batch.length ++ ops) =
      .ok (word (word batch.length ++ ops).length ++ (word batch.length ++ ops)) := by
    rw [sized, lengthWord, if_pos hFits]
    rfl
  rw [encode, hWord, hOps, Outcome.ok_bind, Outcome.ok_bind, hSized, head,
    List.append_assoc (magic ++ _)]
  rfl

/-! ### What has been read as a record -/

/-- Bytes are read as a record if they have its head, are long enough for what that announces, and
have the checksum and a body there. -/
theorem decode_eq_record {batch : Batch} {size : Nat}
    (hOk : decode bytes = .ok (.record batch size)) :
    IsHeaded bytes ∧ size = headerSize + announced bytes + checksumSize ∧ size ≤ bytes.length ∧
      UInt32.ofNat (Bytes.ofLittle
        ((bytes.drop (headerSize + announced bytes)).take checksumSize)) =
          Crc32.checksum (bytes.take (headerSize + announced bytes)) ∧
      decodeBody ((bytes.drop headerSize).take (announced bytes)) = .ok batch := by
  have hWhole := hOk
  simp only [decode] at hWhole
  split at hWhole
  next => cases hWhole
  next hLong =>
    split at hWhole
    next => cases hWhole
    next hMagic =>
      split at hWhole
      next => cases hWhole
      next hVersion =>
        have hHead : IsHeaded bytes :=
          ⟨Nat.not_lt.mp hLong, not_ne_iff.mp hMagic, not_ne_iff.mp hVersion⟩
        split at hWhole
        next => cases hWhole
        next hEnd =>
          split at hWhole
          next => cases hWhole
          next hStored =>
            have hAll : headerSize + announced bytes + checksumSize ≤ bytes.length :=
              Nat.not_lt.mp hEnd
            rw [hHead.decode_of_checksum hAll (not_ne_iff.mp hStored)] at hOk
            obtain ⟨found, hBody, hLast⟩ := Outcome.bind_eq_ok hOk
            cases hLast
            exact ⟨hHead, rfl, hAll, not_ne_iff.mp hStored, hBody⟩

/-- What is headed starts with the head of the length that it announces. -/
theorem IsHeaded.take_eq_head (hHead : IsHeaded bytes) :
    bytes.take headerSize = head (announced bytes) ∧ announced bytes < UInt32.size := by
  have hLong : 10 ≤ bytes.length := hHead.long
  have hVersion : (bytes.drop 4).take 2 = Bytes.little 2 Record.version := by
    refine Bytes.ofLittle_inj ?_ hHead.version
    rw [Bytes.length_little, List.length_take, List.length_drop]
    omega
  have hSize : ((bytes.drop 6).take 4).length = 4 := by
    rw [List.length_take, List.length_drop]
    omega
  refine ⟨?_, ofLittle_lt_size hSize⟩
  rw [head, announced, word_ofLittle hSize, ← hVersion, ← hHead.magic, ← List.take_add,
    ← List.take_add]
  rfl

/-- Bytes that are read as a record start with the encoding of its batch. -/
theorem encode_of_decode {batch : Batch} {size : Nat}
    (hOk : decode bytes = .ok (.record batch size)) :
    size ≤ bytes.length ∧ encode batch = .ok (bytes.take size) := by
  obtain ⟨hHead, rfl, hWhole, hStored, hBody⟩ := decode_eq_record hOk
  obtain ⟨hFront, hFits⟩ := hHead.take_eq_head
  have hLength : ((bytes.drop headerSize).take (announced bytes)).length = announced bytes := by
    rw [List.length_take, List.length_drop]
    omega
  have hChecked : bytes.take (headerSize + announced bytes) =
      head (announced bytes) ++ (bytes.drop headerSize).take (announced bytes) := by
    rw [List.take_add, hFront]
  have hLast : ((bytes.drop (headerSize + announced bytes)).take checksumSize).length = 4 := by
    rw [List.length_take, List.length_drop, checksumSize] at *
    omega
  have hSum : word (Crc32.checksum (bytes.take (headerSize + announced bytes))).toNat =
      (bytes.drop (headerSize + announced bytes)).take checksumSize := by
    rw [← hStored, UInt32.toNat_ofNat', Nat.mod_eq_of_lt (ofLittle_checksum_lt _),
      word_ofLittle hLast]
  refine ⟨hWhole, ?_⟩
  have hEncode := encode_of_decodeBody hBody (by rw [hLength]; exact hFits)
  rw [hLength, ← hChecked, withChecksum, hSum, ← List.take_add] at hEncode
  exact hEncode

/-! ### Which batches have a record -/

theorem length_of_sized {part encoded : Bytes} (hOk : sized part = .ok encoded) :
    encoded.length = 4 + part.length := by
  obtain ⟨_, rfl⟩ := exists_of_sized hOk
  rw [List.length_append, length_word]

theorem length_of_encodeOp {op : Op} {encoded : Bytes} (hOk : encodeOp op = .ok encoded) :
    encoded.length = opSize op := by
  cases op with
  | put key value =>
    obtain ⟨keyPart, hKey, hRest⟩ := Outcome.bind_eq_ok hOk
    obtain ⟨valuePart, hValue, hLast⟩ := Outcome.bind_eq_ok hRest
    cases hLast
    rw [List.length_append, List.length_cons, length_of_sized hKey, length_of_sized hValue, opSize]
    omega
  | delete key =>
    obtain ⟨keyPart, hKey, hLast⟩ := Outcome.bind_eq_ok hOk
    cases hLast
    rw [List.length_cons, length_of_sized hKey, opSize]
    omega

theorem length_of_encodeOps {batch : Batch} {encoded : Bytes} (hOk : encodeOps batch = .ok encoded) :
    encoded.length = opsSize batch := by
  induction batch generalizing encoded with
  | nil => cases hOk; rfl
  | cons op others ih =>
    obtain ⟨first, hFirst, hRest⟩ := Outcome.bind_eq_ok hOk
    obtain ⟨last, hOthers, hLast⟩ := Outcome.bind_eq_ok hRest
    cases hLast
    rw [List.length_append, length_of_encodeOp hFirst, ih hOthers, opsSize_cons]

/-- A batch has a record just if the length of its body can be said. -/
theorem exists_encode_iff {batch : Batch} : (∃ record, encode batch = .ok record) ↔ Fits batch := by
  constructor
  · rintro ⟨record, hOk⟩
    obtain ⟨body, hFits, hBody, _⟩ := exists_of_encode hOk
    obtain ⟨ops, hOps, _, rfl⟩ := decodeBody_eq_ok hBody
    rwa [List.length_append, length_word, length_of_encodeOps hOps] at hFits
  · exact exists_encode

/-- **Records are exact**: a batch whose lengths can be said has a record, which is read back as this
batch with its length whatever follows it, and which is torn wherever it is cut; and bytes that are
read as a record of some batch start with the record of that batch, as long as it is said to be. -/
theorem encodes_exactly (batch : Batch) :
    (Fits batch → ∃ record, encode batch = .ok record ∧
      (∀ rest, decode (record ++ rest) = .ok (.record batch record.length)) ∧
      ∀ k < record.length, decode (record.take k) = .ok .torn) ∧
    ∀ bytes size, decode bytes = .ok (.record batch size) →
      size ≤ bytes.length ∧ encode batch = .ok (bytes.take size) := by
  refine ⟨?_, fun bytes size hOk => encode_of_decode hOk⟩
  intro hFits
  obtain ⟨record, hRecord⟩ := exists_encode hFits
  exact ⟨record, hRecord, decode_encode hRecord, fun k hCut => decode_take hRecord hCut⟩

end Record

end Storage

namespace Sample

open Storage

theorem encodes_exactly_firstRecord : Record.Fits [.put [1] [2]] ∧
    (∃ record, Record.encode [.put [1] [2]] = .ok record ∧
      (∀ rest, Record.decode (record ++ rest) =
        .ok (.record [.put [1] [2]] record.length)) ∧
      ∀ k < record.length, Record.decode (record.take k) = .ok .torn) ∧
    Record.decode (firstRecord ++ [7]) = .ok (.record [.put [1] [2]] 29) ∧
    29 ≤ (firstRecord ++ [7]).length ∧
      Record.encode [.put [1] [2]] = .ok ((firstRecord ++ [7]).take 29) := by
  have hFits : Record.Fits [.put [1] [2]] := by decide
  have hRead : Record.decode (firstRecord ++ [7]) = .ok (.record [.put [1] [2]] 29) :=
    Record.decode_encode (rfl : Record.encode [.put [1] [2]] = .ok firstRecord) [7]
  exact ⟨hFits, (Record.encodes_exactly _).1 hFits, hRead, (Record.encodes_exactly _).2 _ 29 hRead⟩

end Sample

end VersionedCatalog
