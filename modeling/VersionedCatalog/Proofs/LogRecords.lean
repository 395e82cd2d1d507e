import Mathlib.Algebra.GroupWithZero.Nat
import VersionedCatalog.Proofs.CborReading
import VersionedCatalog.Proofs.Outcomes
import VersionedCatalog.Storage.Record

/-! # Records of a log

How bytes are read is said by their head (`Record.IsHeaded`) and, if they start with a whole record,
by its parts (`Record.StartsWith`). The record of a batch is read back as the batch, whatever
follows it (`Record.decode_encode`), and what is left of it when its end is missing is torn,
wherever it was cut (`Record.decode_take`). So a log is replayed record by record, and a cut record
at its end changes nothing (`replay_append`). Every batch whose body is not too long for its length
has a record (`Record.exists_encode`).
-/

namespace VersionedCatalog.Storage

namespace Record

theorem lengthWord_eq_ok {n : Nat} {bytes : Bytes} (hOk : lengthWord n = .ok bytes) :
    n < UInt32.size ∧ bytes = word n := by
  unfold lengthWord at hOk
  split at hOk
  next hFits => cases hOk; exact ⟨hFits, rfl⟩
  next => cases hOk

theorem length_word (n : Nat) : (word n).length = 4 := Bytes.length_little 4 n

theorem ofLittle_word {n : Nat} (hFits : n < UInt32.size) : Bytes.ofLittle (word n) = n := by
  rw [word, Bytes.ofLittle_little]
  exact Nat.mod_eq_of_lt hFits

theorem takeOr_append (front rest : Bytes) :
    takeOr front.length (front ++ rest) = .ok (front, rest) := by
  rw [takeOr, Bytes.take?_append]

theorem takeWord_append {n : Nat} (hFits : n < UInt32.size) (rest : Bytes) :
    takeWord (word n ++ rest) = .ok (n, rest) := by
  have hTake := takeOr_append (word n) rest
  rw [length_word] at hTake
  rw [takeWord, hTake]
  simp [ofLittle_word hFits]

theorem exists_of_sized {bytes encoded : Bytes} (hOk : sized bytes = .ok encoded) :
    bytes.length < UInt32.size ∧ encoded = word bytes.length ++ bytes := by
  obtain ⟨length, hLength, hRest⟩ := Outcome.bind_eq_ok hOk
  obtain ⟨hFits, rfl⟩ := lengthWord_eq_ok hLength
  cases hRest
  exact ⟨hFits, rfl⟩

theorem takeSized_append {bytes encoded : Bytes} (hOk : sized bytes = .ok encoded) (rest : Bytes) :
    takeSized (encoded ++ rest) = .ok (bytes, rest) := by
  obtain ⟨hFits, rfl⟩ := exists_of_sized hOk
  rw [List.append_assoc, takeSized, takeWord_append hFits]
  exact takeOr_append bytes rest

theorem decodeOp_append {op : Op} {encoded : Bytes} (hOk : encodeOp op = .ok encoded)
    (rest : Bytes) : decodeOp (encoded ++ rest) = .ok (op, rest) := by
  cases op with
  | put key value =>
    obtain ⟨keyPart, hKey, hRest⟩ := Outcome.bind_eq_ok hOk
    obtain ⟨valuePart, hValue, hLast⟩ := Outcome.bind_eq_ok hRest
    cases hLast
    rw [List.append_assoc, List.cons_append, decodeOp, takeSized_append hKey]
    simp [takeSized_append hValue]
  | delete key =>
    obtain ⟨keyPart, hKey, hLast⟩ := Outcome.bind_eq_ok hOk
    cases hLast
    rw [List.cons_append, decodeOp, takeSized_append hKey]
    simp [show deleteTag ≠ putTag by decide]

theorem decodeOps_encodeOps {batch : Batch} {encoded : Bytes} (hOk : encodeOps batch = .ok encoded) :
    decodeOps batch.length encoded = .ok batch := by
  induction batch generalizing encoded with
  | nil => cases hOk; rfl
  | cons op rest ih =>
    obtain ⟨first, hFirst, hRest⟩ := Outcome.bind_eq_ok hOk
    obtain ⟨others, hOthers, hLast⟩ := Outcome.bind_eq_ok hRest
    cases hLast
    rw [List.length_cons, decodeOps, decodeOp_append hFirst]
    simp [ih hOthers]

/-- The bytes before the body of a record. -/
def head (size : Nat) : Bytes := magic ++ Bytes.little 2 version ++ word size

theorem length_head (size : Nat) : (head size).length = headerSize := by
  simp [head, headerSize, magic, Bytes.length_little, length_word]

section
variable (size : Nat) (tail : Bytes)

theorem head_append : head size ++ tail =
    magic ++ (Bytes.little 2 version ++ (word size ++ tail)) := by
  rw [head, List.append_assoc, List.append_assoc]

theorem take_head : (head size ++ tail).take 4 = magic := by
  rw [head_append]
  exact List.take_left' rfl

theorem version_head : ((head size ++ tail).drop 4).take 2 = Bytes.little 2 version := by
  rw [head_append, List.drop_left' (by rfl)]
  exact List.take_left' (Bytes.length_little 2 version)

theorem size_head : ((head size ++ tail).drop 6).take 4 = word size := by
  rw [head_append, ← List.append_assoc, List.drop_left' (by rfl)]
  exact List.take_left' (length_word size)

end

/-- A record is its head, its body and a checksum of both. -/
theorem exists_of_encode {batch : Batch} {record : Bytes} (hOk : encode batch = .ok record) :
    ∃ body, body.length < UInt32.size ∧ decodeBody body = .ok batch ∧
      record = withChecksum (head body.length ++ body) := by
  obtain ⟨count, hCount, hRest⟩ := Outcome.bind_eq_ok hOk
  obtain ⟨ops, hOps, hTail⟩ := Outcome.bind_eq_ok hRest
  obtain ⟨sizedBody, hBody, hLast⟩ := Outcome.bind_eq_ok hTail
  obtain ⟨hFits, rfl⟩ := lengthWord_eq_ok hCount
  obtain ⟨hBodyFits, rfl⟩ := exists_of_sized hBody
  cases hLast
  refine ⟨word batch.length ++ ops, hBodyFits, ?_, by rw [head, List.append_assoc (magic ++ _)]⟩
  rw [decodeBody, takeWord_append hFits]
  exact decodeOps_encodeOps hOps

/-! ### Which batches have a record -/

/-- The bytes of an operation in a record. -/
def opSize : Op → Nat
  | .put key value => 9 + key.length + value.length
  | .delete key => 5 + key.length

def opsSize (batch : Batch) : Nat := (batch.map opSize).sum

/-- Whether the body of the record of a batch is as long as its length can say. -/
def Fits (batch : Batch) : Prop := 4 + opsSize batch < UInt32.size

instance (batch : Batch) : Decidable (Fits batch) := inferInstanceAs (Decidable (_ < _))

theorem opsSize_cons (op : Op) (rest : Batch) : opsSize (op :: rest) = opSize op + opsSize rest :=
  List.sum_cons

theorem length_le_opsSize (batch : Batch) : batch.length ≤ opsSize batch := by
  induction batch with
  | nil => exact Nat.le_refl 0
  | cons op rest ih =>
    have hOp : 0 < opSize op := by cases op <;> simp only [opSize] <;> omega
    rw [opsSize_cons, List.length_cons]
    omega

theorem exists_sized {bytes : Bytes} (hFits : bytes.length < UInt32.size) :
    ∃ encoded, sized bytes = .ok encoded ∧ encoded.length = 4 + bytes.length := by
  refine ⟨word bytes.length ++ bytes, ?_, by rw [List.length_append, length_word]⟩
  rw [sized, lengthWord, if_pos hFits]
  rfl

theorem exists_encodeOp {op : Op} (hFits : opSize op < UInt32.size) :
    ∃ encoded, encodeOp op = .ok encoded ∧ encoded.length = opSize op := by
  cases op with
  | put key value =>
    rw [opSize] at hFits
    obtain ⟨keyPart, hKey, hKeyLength⟩ := @exists_sized key (by omega)
    obtain ⟨valuePart, hValue, hValueLength⟩ := @exists_sized value (by omega)
    refine ⟨putTag :: keyPart ++ valuePart, by rw [encodeOp, hKey, hValue]; rfl, ?_⟩
    rw [List.length_append, List.length_cons, hKeyLength, hValueLength, opSize]
    omega
  | delete key =>
    rw [opSize] at hFits
    obtain ⟨keyPart, hKey, hKeyLength⟩ := @exists_sized key (by omega)
    refine ⟨deleteTag :: keyPart, by rw [encodeOp, hKey]; rfl, ?_⟩
    rw [List.length_cons, hKeyLength, opSize]
    omega

theorem exists_encodeOps {batch : Batch} (hFits : opsSize batch < UInt32.size) :
    ∃ encoded, encodeOps batch = .ok encoded ∧ encoded.length = opsSize batch := by
  induction batch with
  | nil => exact ⟨[], rfl, rfl⟩
  | cons op rest ih =>
    rw [opsSize_cons] at hFits
    obtain ⟨first, hFirst, hFirstLength⟩ := @exists_encodeOp op (by omega)
    obtain ⟨others, hOthers, hOthersLength⟩ := ih (by omega)
    refine ⟨first ++ others, by rw [encodeOps, hFirst, hOthers]; rfl, ?_⟩
    rw [List.length_append, hFirstLength, hOthersLength, opsSize_cons]

/-- A batch that fits has a record. -/
theorem exists_encode {batch : Batch} (hFits : Fits batch) :
    ∃ record, encode batch = .ok record := by
  rw [Fits] at hFits
  have hCount := length_le_opsSize batch
  obtain ⟨ops, hOps, hLength⟩ := @exists_encodeOps batch (by omega)
  have hWord : lengthWord batch.length = .ok (word batch.length) := if_pos (by omega)
  have hBody : (word batch.length ++ ops).length < UInt32.size := by
    rw [List.length_append, length_word, hLength]
    exact hFits
  obtain ⟨body, hSized, _⟩ := exists_sized hBody
  refine ⟨withChecksum (magic ++ Bytes.little 2 version ++ body), ?_⟩
  rw [encode, hWord, hOps, Outcome.ok_bind, Outcome.ok_bind, hSized]
  rfl

/-! ### Reading a record -/

theorem length_withChecksum (bytes : Bytes) : (withChecksum bytes).length = bytes.length + 4 := by
  rw [withChecksum, List.length_append, length_word]

/-- The length of the body that a record announces. -/
def announced (bytes : Bytes) : Nat := Bytes.ofLittle ((bytes.drop 6).take 4)

/-- Bytes that are read as a record or a part of one. -/
structure IsHeaded (bytes : Bytes) : Prop where
  long : headerSize ≤ bytes.length
  magic : bytes.take 4 = magic
  version : Bytes.ofLittle ((bytes.drop 4).take 2) = version

theorem isHeaded_head (size : Nat) (tail : Bytes) : IsHeaded (head size ++ tail) where
  long := by
    rw [List.length_append, length_head]
    exact Nat.le_add_right _ _
  magic := take_head size tail
  version := by
    rw [version_head]
    rfl

theorem announced_head {size : Nat} (hFits : size < UInt32.size) (tail : Bytes) :
    announced (head size ++ tail) = size := by
  rw [announced, size_head, ofLittle_word hFits]

namespace IsHeaded

variable {bytes : Bytes} (hHead : IsHeaded bytes)
include hHead

/-- A record is torn if its body or its checksum is not there as a whole. -/
theorem decode_of_short (hShort : bytes.length < headerSize + announced bytes + checksumSize) :
    decode bytes = .ok .torn := by
  rw [announced] at hShort
  simp only [decode, if_neg (Nat.not_lt.mpr hHead.long), hHead.magic, hHead.version, ne_eq,
    not_true_eq_false, if_false, if_pos hShort]

variable (hWhole : headerSize + announced bytes + checksumSize ≤ bytes.length)
include hWhole

theorem decode_of_checksum_ne (hStored : UInt32.ofNat (Bytes.ofLittle
      ((bytes.drop (headerSize + announced bytes)).take checksumSize)) ≠
        Crc32.checksum (bytes.take (headerSize + announced bytes))) :
    ∃ damage, decode bytes = .error damage := by
  rw [announced] at hWhole hStored
  simp only [decode, if_neg (Nat.not_lt.mpr hHead.long), hHead.magic, hHead.version, ne_eq,
    not_true_eq_false, if_false, if_neg (Nat.not_lt.mpr hWhole), if_pos hStored]
  exact ⟨_, rfl⟩

/-- Behind the checksum all depends on the body. -/
theorem decode_of_checksum (hStored : UInt32.ofNat (Bytes.ofLittle
      ((bytes.drop (headerSize + announced bytes)).take checksumSize)) =
        Crc32.checksum (bytes.take (headerSize + announced bytes))) :
    decode bytes = do
      let batch ← decodeBody ((bytes.drop headerSize).take (announced bytes))
      return .record batch (headerSize + announced bytes + checksumSize) := by
  have hPart : (bytes.take (headerSize + announced bytes)).drop headerSize =
      (bytes.drop headerSize).take (announced bytes) := by
    rw [List.drop_take, Nat.add_sub_cancel_left]
  rw [← hPart]
  rw [announced] at hWhole hStored ⊢
  simp only [decode, if_neg (Nat.not_lt.mpr hHead.long), hHead.magic, hHead.version, ne_eq,
    not_true_eq_false, if_false, if_neg (Nat.not_lt.mpr hWhole), hStored]

end IsHeaded

/-- Bytes that start with a record, part by part. -/
structure StartsWith (body bytes : Bytes) : Prop where
  magic : bytes.take 4 = magic
  version : (bytes.drop 4).take 2 = Bytes.little 2 version
  size : (bytes.drop 6).take 4 = word body.length
  contents : (bytes.drop headerSize).take body.length = body
  stored : (bytes.drop (headerSize + body.length)).take checksumSize =
    word (Crc32.checksum (bytes.take (headerSize + body.length))).toNat
  whole : headerSize + body.length + checksumSize ≤ bytes.length
  fits : body.length < UInt32.size

namespace StartsWith

variable {body bytes : Bytes} (hStart : StartsWith body bytes)
include hStart

theorem announced_eq : announced bytes = body.length := by
  rw [announced, hStart.size, ofLittle_word hStart.fits]

theorem isHeaded : IsHeaded bytes where
  long := by
    have hWhole := hStart.whole
    omega
  magic := hStart.magic
  version := by
    rw [hStart.version]
    rfl

theorem decode_eq {batch : Batch} (hBody : decodeBody body = .ok batch) :
    decode bytes = .ok (.record batch (headerSize + body.length + checksumSize)) := by
  have hWhole := hStart.whole
  rw [← hStart.announced_eq] at hWhole
  rw [hStart.isHeaded.decode_of_checksum hWhole, hStart.announced_eq, hStart.contents, hBody]
  · rfl
  · rw [hStart.announced_eq, hStart.stored, ofLittle_word (UInt32.toNat_lt _), UInt32.ofNat_toNat]

end StartsWith

theorem startsWith_withChecksum {body : Bytes} (hFits : body.length < UInt32.size) (rest : Bytes) :
    StartsWith body (withChecksum (head body.length ++ body) ++ rest) := by
  have hChecked : (head body.length ++ body).length = headerSize + body.length := by
    rw [List.length_append, length_head]
  generalize hSum : word (Crc32.checksum (head body.length ++ body)).toNat = sum
  have hLast : sum.length = checksumSize := by
    rw [← hSum]
    exact length_word _
  rw [withChecksum, hSum, List.append_assoc]
  refine ⟨?_, ?_, ?_, ?_, ?_, ?_, hFits⟩
  · rw [List.append_assoc]
    exact take_head _ _
  · rw [List.append_assoc]
    exact version_head _ _
  · rw [List.append_assoc]
    exact size_head _ _
  · rw [List.append_assoc, List.drop_left' (length_head body.length)]
    exact List.take_left' rfl
  · rw [List.drop_left' hChecked, List.take_left' hLast, List.take_left' hChecked, hSum]
  · rw [← List.append_assoc, List.length_append, List.length_append, hChecked, hLast]
    exact Nat.le_add_right _ _

section
variable {batch : Batch} {record : Bytes} (hOk : encode batch = .ok record)
include hOk

theorem exists_startsWith (rest : Bytes) : ∃ body, decodeBody body = .ok batch ∧
    StartsWith body (record ++ rest) ∧
      record.length = headerSize + body.length + checksumSize := by
  obtain ⟨body, hFits, hBody, rfl⟩ := exists_of_encode hOk
  exact ⟨body, hBody, startsWith_withChecksum hFits rest,
    by rw [length_withChecksum, List.length_append, length_head]; rfl⟩

theorem decode_encode (rest : Bytes) :
    decode (record ++ rest) = .ok (.record batch record.length) := by
  obtain ⟨body, hBody, hStart, hLength⟩ := exists_startsWith hOk rest
  rw [hLength]
  exact hStart.decode_eq hBody

theorem length_record_pos : 0 < record.length := by
  obtain ⟨body, _, _, rfl⟩ := exists_of_encode hOk
  rw [length_withChecksum]
  omega

/-- A record without its end is torn. -/
theorem decode_take {k : Nat} (hCut : k < record.length) : decode (record.take k) = .ok .torn := by
  obtain ⟨body, hFits, _, rfl⟩ := exists_of_encode hOk
  rw [length_withChecksum, List.length_append, length_head] at hCut
  rcases Nat.lt_or_ge k headerSize with hShort | hLong
  · have hLength : (List.take k (withChecksum (head body.length ++ body))).length < headerSize :=
      Nat.lt_of_le_of_lt (List.length_take_le k _) hShort
    rw [decode, if_pos hLength]
  · rw [withChecksum, List.append_assoc, List.take_append, length_head,
      List.take_of_length_le (by rw [length_head]; exact hLong)]
    refine (isHeaded_head _ _).decode_of_short ?_
    have hTail := List.length_take_le (k - headerSize)
      (body ++ word (Crc32.checksum (head body.length ++ body)).toNat)
    rw [announced_head hFits, List.length_append, length_head, checksumSize]
    omega

end

end Record

/-! ### Logs -/

/-- The records of some batches, one behind the other. -/
inductive Records : List Batch → Bytes → Prop
  | none : Records [] []
  | more {batches : List Batch} {log : Bytes} {batch : Batch} {record : Bytes}
      (before : Records batches log) (encoded : Record.encode batch = .ok record) :
      Records (batches ++ [batch]) (log ++ record)

/-- The rows after some batches. -/
def Rows.applyAll (rows : Rows) (batches : List Batch) : Rows := batches.foldl Rows.apply rows

theorem Rows.applyAll_append (rows : Rows) (first second : List Batch) :
    rows.applyAll (first ++ second) = (rows.applyAll first).applyAll second :=
  List.foldl_append

namespace Records

theorem append {first second : List Batch} {front back : Bytes} (hFirst : Records first front)
    (hSecond : Records second back) : Records (first ++ second) (front ++ back) := by
  induction hSecond with
  | none => simpa using hFirst
  | more before encoded ih =>
    rw [← List.append_assoc, ← List.append_assoc]
    exact ih.more encoded

theorem cons {batch : Batch} {record : Bytes} (hOk : Record.encode batch = .ok record)
    {batches : List Batch} {log : Bytes} (hRest : Records batches log) :
    Records (batch :: batches) (record ++ log) := by
  have hOne : Records [batch] record := by
    have hMore := Records.none.more hOk
    rwa [List.nil_append, List.nil_append] at hMore
  exact hOne.append hRest

/-- Replaying goes through the records one by one and then reads on. -/
theorem run_append {batches : List Batch} {log : Bytes} (hLog : Records batches log)
    (steps : Nat) (done : Replayed) (rest : Bytes) (hSteps : log.length + rest.length ≤ steps) :
    ∃ left, rest.length ≤ left ∧ Replayed.run steps done (log ++ rest) =
      Replayed.run left ⟨done.rows.applyAll batches, done.length + log.length⟩ rest := by
  induction hLog generalizing rest with
  | none => exact ⟨steps, by simpa using hSteps, rfl⟩
  | @more batches log batch record before encoded ih =>
    have hPos := Record.length_record_pos encoded
    rw [List.length_append] at hSteps
    obtain ⟨left, hLeft, hRun⟩ := ih (record ++ rest) (by rw [List.length_append]; omega)
    rw [List.length_append] at hLeft
    obtain ⟨fewer, rfl⟩ := Nat.exists_eq_succ_of_ne_zero (show left ≠ 0 by omega)
    have hSome : (record ++ rest).isEmpty = false := by
      cases record with
      | nil => simp at hPos
      | cons b record => rfl
    refine ⟨fewer, by omega, ?_⟩
    rw [List.append_assoc, hRun, Replayed.run, hSome]
    simp only [Bool.false_eq_true, if_false, Record.decode_encode encoded, List.drop_left,
      Rows.applyAll_append, List.length_append, Nat.add_assoc]
    rfl

/-- Behind the records of a log, what is torn is left out. -/
theorem replay_append_of_torn {batches : List Batch} {log : Bytes} (hLog : Records batches log)
    {rest : Bytes} (hTorn : Record.decode rest = .ok .torn) :
    replay (log ++ rest) = .ok ⟨(∅ : Rows).applyAll batches, log.length⟩ := by
  obtain ⟨left, _, hRun⟩ := hLog.run_append (log ++ rest).length ⟨∅, 0⟩ rest
    (Nat.le_of_eq List.length_append.symm)
  rw [replay, hRun, Nat.zero_add]
  cases left with
  | zero => rfl
  | succ left =>
    rw [Replayed.run]
    split
    next => rfl
    next => simp only [hTorn]

/-- Behind the records of a log, damage is reported where it is. -/
theorem replay_append_of_damage {batches : List Batch} {log : Bytes} (hLog : Records batches log)
    {rest : Bytes} {damage : Damage} (hDamage : Record.decode rest = .error damage) :
    replay (log ++ rest) = .error (.corrupted (.inRecord log.length damage)) := by
  cases rest with
  | nil => cases hDamage
  | cons byte rest =>
    obtain ⟨left, hLeft, hRun⟩ := hLog.run_append (log ++ byte :: rest).length ⟨∅, 0⟩
      (byte :: rest) (Nat.le_of_eq List.length_append.symm)
    rw [List.length_cons] at hLeft
    obtain ⟨steps, rfl⟩ := Nat.exists_eq_succ_of_ne_zero (show left ≠ 0 by omega)
    rw [replay, hRun, Nat.zero_add, Replayed.run]
    simp only [List.isEmpty_cons, Bool.false_eq_true, if_false, hDamage]

/-- A log is replayed to the rows of its batches, with or without a cut record behind it. -/
theorem replay_append {batches : List Batch} {log : Bytes} (hLog : Records batches log)
    {batch : Batch} {record : Bytes} (hOk : Record.encode batch = .ok record) {k : Nat}
    (hCut : k < record.length) :
    replay (log ++ record.take k) = .ok ⟨(∅ : Rows).applyAll batches, log.length⟩ :=
  hLog.replay_append_of_torn (Record.decode_take hOk hCut)

theorem replay_eq {batches : List Batch} {log : Bytes} (hLog : Records batches log) :
    replay log = .ok ⟨(∅ : Rows).applyAll batches, log.length⟩ := by
  have hNothing := hLog.replay_append_of_torn (rfl : Record.decode [] = .ok .torn)
  rwa [List.append_nil] at hNothing

end Records

end VersionedCatalog.Storage
