import VersionedCatalog.Proofs.Checksums
import VersionedCatalog.Proofs.Journals

/-! # Damaged logs

A record with one byte changed is not read as a record. Another magic or another version is refused,
and another body or another checksum is found by the checksum. A record of another length starts with
the same contents, and no two beginnings of them are both a body (`Record.decodeBody_take`); but if
it now seems to end behind the bytes it is taken for a torn one (`Record.StartsWith.decode_set`).
So opening a log with one byte changed fails at the record with this byte and leaves the log alone,
unless the change made the length of the record lead behind the end (`Journal.openIn_changed`).
-/

namespace VersionedCatalog

namespace Bytes

theorem ofLittle_inj {a b : Bytes} (hLength : a.length = b.length)
    (hSame : ofLittle a = ofLittle b) : a = b := by
  induction a generalizing b with
  | nil => exact (List.length_eq_zero_iff.mp hLength.symm).symm
  | cons first rest ih =>
    cases b with
    | nil => cases hLength
    | cons other others =>
      rw [ofLittle, ofLittle] at hSame
      have hFirst := first.toNat_lt
      have hOther := other.toNat_lt
      rw [UInt8.toNat.inj (show first.toNat = other.toNat by omega),
        ih (Nat.succ.inj hLength) (by omega)]

theorem ofLittle_lt (bytes : Bytes) : ofLittle bytes < 256 ^ bytes.length := by
  induction bytes with
  | nil => exact Nat.one_pos
  | cons first rest ih =>
    have hFirst := first.toNat_lt
    rw [ofLittle, List.length_cons, Nat.pow_succ]
    omega

section
variable {bytes : Bytes} {i : Nat} {byte : UInt8} {start width : Nat}

/-- Bytes apart from the one that is changed stay. -/
theorem take_drop_set_of_apart (hApart : i < start ∨ start + width ≤ i) :
    ((bytes.set i byte).drop start).take width = (bytes.drop start).take width := by
  rw [List.drop_set]
  split
  next => rfl
  next hLow => rw [List.take_set_of_le (by omega)]

/-- Bytes with the one that is changed do not stay. -/
theorem take_drop_set_ne (hInside : i < bytes.length) (hOther : bytes[i]? ≠ some byte)
    (hStart : start ≤ i) (hEnd : i < start + width) :
    ((bytes.set i byte).drop start).take width ≠ (bytes.drop start).take width := by
  intro hSame
  have hAt := congrArg (fun part : Bytes => part[i - start]?) hSame
  simp only [List.getElem?_take, List.getElem?_drop] at hAt
  rw [if_pos (by omega), if_pos (by omega), Nat.add_sub_of_le hStart,
    List.getElem?_set_self hInside] at hAt
  exact hOther hAt.symm

/-- A number in which a byte is changed is another number. -/
theorem ofLittle_set_ne (hInside : i < bytes.length) (hOther : bytes[i]? ≠ some byte)
    (hStart : start ≤ i) (hEnd : i < start + width) :
    ofLittle (((bytes.set i byte).drop start).take width) ≠
      ofLittle ((bytes.drop start).take width) := by
  intro hSame
  refine take_drop_set_ne hInside hOther hStart hEnd (ofLittle_inj ?_ hSame)
  rw [List.length_take, List.length_take, List.length_drop, List.length_drop, List.length_set]

end

end Bytes

namespace Storage

namespace Record

/-! ### Bodies with something behind them -/

section
variable {bytes rest : Bytes}

theorem takeOr_extend {n : Nat} {front : Bytes} (hOk : takeOr n bytes = .ok (front, rest))
    (extra : Bytes) : takeOr n (bytes ++ extra) = .ok (front, rest ++ extra) := by
  by_cases hLong : n ≤ bytes.length
  · rw [takeOr, Bytes.take?, if_pos hLong] at hOk
    cases hOk
    rw [takeOr, Bytes.take?, if_pos (by rw [List.length_append]; omega),
      List.take_append_of_le_length hLong, List.drop_append_of_le_length hLong]
  · rw [takeOr, Bytes.take?, if_neg hLong] at hOk
    cases hOk

theorem takeWord_extend {n : Nat} (hOk : takeWord bytes = .ok (n, rest)) (extra : Bytes) :
    takeWord (bytes ++ extra) = .ok (n, rest ++ extra) := by
  obtain ⟨⟨digits, left⟩, hDigits, hLast⟩ := Outcome.bind_eq_ok hOk
  cases hLast
  rw [takeWord, takeOr_extend hDigits]
  rfl

theorem takeSized_extend {part : Bytes} (hOk : takeSized bytes = .ok (part, rest))
    (extra : Bytes) : takeSized (bytes ++ extra) = .ok (part, rest ++ extra) := by
  obtain ⟨⟨n, left⟩, hWord, hPart⟩ := Outcome.bind_eq_ok hOk
  rw [takeSized, takeWord_extend hWord]
  exact takeOr_extend hPart extra

theorem decodeOp_extend {op : Op} (hOk : decodeOp bytes = .ok (op, rest)) (extra : Bytes) :
    decodeOp (bytes ++ extra) = .ok (op, rest ++ extra) := by
  cases bytes with
  | nil => cases hOk
  | cons tag bytes =>
    obtain ⟨⟨key, left⟩, hKey, hRest⟩ := Outcome.bind_eq_ok hOk
    rw [List.cons_append, decodeOp, takeSized_extend hKey, Outcome.ok_bind]
    simp only at hRest ⊢
    split at hRest
    next hPut =>
      obtain ⟨⟨value, last⟩, hValue, hLast⟩ := Outcome.bind_eq_ok hRest
      cases hLast
      rw [if_pos hPut, takeSized_extend hValue]
      rfl
    next hNotPut =>
      split at hRest
      next hDelete =>
        cases hRest
        rw [if_neg hNotPut, if_pos hDelete]
        rfl
      next => cases hRest

end

theorem decodeOps_extend {count : Nat} {bytes : Bytes} {batch : Batch}
    (hOk : decodeOps count bytes = .ok batch) {extra : Bytes} (hSome : extra ≠ []) :
    decodeOps count (bytes ++ extra) = .error .longBody := by
  induction count generalizing bytes batch with
  | zero =>
    have hFull : (bytes ++ extra).isEmpty = false := by
      rw [List.isEmpty_eq_false_iff]
      exact List.append_ne_nil_of_right_ne_nil bytes hSome
    rw [decodeOps, hFull]
    rfl
  | succ count ih =>
    obtain ⟨⟨op, left⟩, hOp, hRest⟩ := Outcome.bind_eq_ok hOk
    obtain ⟨others, hOthers, _⟩ := Outcome.bind_eq_ok hRest
    rw [decodeOps, decodeOp_extend hOp]
    simp only [Outcome.ok_bind, ih hOthers]
    rfl

/-- A body with something behind it is no body. -/
theorem decodeBody_extend {body : Bytes} {batch : Batch} (hOk : decodeBody body = .ok batch)
    {extra : Bytes} (hSome : extra ≠ []) : decodeBody (body ++ extra) = .error .longBody := by
  obtain ⟨⟨count, rest⟩, hCount, hOps⟩ := Outcome.bind_eq_ok hOk
  rw [decodeBody, takeWord_extend hCount]
  exact decodeOps_extend hOps hSome

/-- Of two beginnings of one byte string, one longer than the other, one at most is a body. -/
theorem decodeBody_take {bytes : Bytes} {n : Nat} (hInside : n ≤ bytes.length) {batch : Batch}
    (hOk : decodeBody (bytes.take n) = .ok batch) {other : Nat} (hOther : other ≤ bytes.length)
    (hNe : other ≠ n) : ∃ damage, decodeBody (bytes.take other) = .error damage := by
  have hSplit : ∀ {short long : Nat}, short < long → long ≤ bytes.length →
      ∃ extra, extra ≠ [] ∧ bytes.take long = bytes.take short ++ extra := by
    intro short long hLt hLe
    refine ⟨(bytes.drop short).take (long - short), ?_, ?_⟩
    · refine List.ne_nil_of_length_pos ?_
      rw [List.length_take, List.length_drop]
      omega
    · rw [← List.take_add, Nat.add_sub_of_le (Nat.le_of_lt hLt)]
  rcases Nat.lt_or_gt_of_ne hNe with hShorter | hLonger
  · obtain ⟨extra, hSome, hTake⟩ := hSplit hShorter hInside
    cases hFound : decodeBody (bytes.take other) with
    | error damage => exact ⟨damage, rfl⟩
    | ok found =>
      rw [hTake, decodeBody_extend hFound hSome] at hOk
      cases hOk
  · obtain ⟨extra, hSome, hTake⟩ := hSplit hLonger hOther
    rw [hTake, decodeBody_extend hOk hSome]
    exact ⟨_, rfl⟩

/-! ### A record with one byte changed -/

theorem decode_of_magic_ne {bytes : Bytes} (hLong : headerSize ≤ bytes.length)
    (hMagic : bytes.take 4 ≠ magic) : decode bytes = .error .magic := by
  rw [decode, if_neg (by omega), if_pos hMagic]

theorem decode_of_version_ne {bytes : Bytes} (hLong : headerSize ≤ bytes.length)
    (hMagic : bytes.take 4 = magic)
    (hVersion : Bytes.ofLittle ((bytes.drop 4).take 2) ≠ version) :
    ∃ damage, decode bytes = .error damage := by
  refine ⟨.version (Bytes.ofLittle ((bytes.drop 4).take 2)), ?_⟩
  simp only [decode, if_neg (Nat.not_lt.mpr hLong), hMagic, ne_eq, not_true_eq_false, if_false,
    if_pos hVersion]

/-- Whatever the checksum says, what is no body is no record. -/
theorem IsHeaded.decode_of_body {bytes : Bytes} (hHead : IsHeaded bytes)
    (hWhole : headerSize + announced bytes + checksumSize ≤ bytes.length) {damage : Damage}
    (hBody : decodeBody ((bytes.drop headerSize).take (announced bytes)) = .error damage) :
    ∃ cause, decode bytes = .error cause := by
  by_cases hStored : UInt32.ofNat (Bytes.ofLittle
      ((bytes.drop (headerSize + announced bytes)).take checksumSize)) =
        Crc32.checksum (bytes.take (headerSize + announced bytes))
  · rw [hHead.decode_of_checksum hWhole hStored, hBody]
    exact ⟨damage, rfl⟩
  · exact hHead.decode_of_checksum_ne hWhole hStored

theorem ofLittle_checksum_lt (bytes : Bytes) :
    Bytes.ofLittle (bytes.take checksumSize) < 2 ^ 32 :=
  Nat.lt_of_lt_of_le (Bytes.ofLittle_lt _)
    (Nat.pow_le_pow_right (by decide) (List.length_take_le checksumSize bytes) : _ ≤ 256 ^ 4)

namespace StartsWith

variable {body bytes : Bytes} (hStart : StartsWith body bytes) {i : Nat}
include hStart

theorem long_set (byte : UInt8) : headerSize ≤ (bytes.set i byte).length := by
  rw [List.length_set]
  exact hStart.isHeaded.long

/-- Behind the magic and the version these are still there. -/
theorem isHeaded_set (hBehind : 6 ≤ i) (byte : UInt8) : IsHeaded (bytes.set i byte) where
  long := hStart.long_set byte
  magic := by
    rw [List.take_set_of_le (by omega)]
    exact hStart.magic
  version := by
    rw [Bytes.take_drop_set_of_apart (Or.inr (by omega))]
    exact hStart.isHeaded.version

theorem announced_set (hApart : i < 6 ∨ 10 ≤ i) (byte : UInt8) :
    announced (bytes.set i byte) = body.length := by
  rw [← hStart.announced_eq, announced, announced, Bytes.take_drop_set_of_apart (by omega)]

variable {byte : UInt8}

/-- Behind the head a change leaves the length and is found by the checksum, unless that is still
the checksum of what is before it. -/
theorem decode_set_of_ne (hLow : 10 ≤ i)
    (hStored : UInt32.ofNat (Bytes.ofLittle
      (((bytes.set i byte).drop (headerSize + body.length)).take checksumSize)) ≠
        Crc32.checksum ((bytes.set i byte).take (headerSize + body.length))) :
    ∃ damage, decode (bytes.set i byte) = .error damage := by
  rw [← hStart.announced_set (Or.inr hLow) byte] at hStored
  refine (hStart.isHeaded_set (by omega) byte).decode_of_checksum_ne ?_ hStored
  rw [hStart.announced_set (Or.inr hLow) byte, List.length_set]
  exact hStart.whole

variable (hOther : bytes[i]? ≠ some byte)
include hOther

/-- Another magic or another version is no record of this kind. -/
theorem decode_set_front (hFront : i < 6) : ∃ damage, decode (bytes.set i byte) = .error damage := by
  have hInside : i < bytes.length :=
    Nat.lt_of_lt_of_le hFront (Nat.le_trans (by decide) hStart.isHeaded.long)
  rcases Nat.lt_or_ge i 4 with hLow | hHigh
  · refine ⟨_, decode_of_magic_ne (hStart.long_set byte) fun hMagic => ?_⟩
    have hNe := Bytes.take_drop_set_ne hInside hOther (Nat.zero_le i) (show i < 0 + 4 by omega)
    rw [List.drop_zero, List.drop_zero] at hNe
    exact hNe (hMagic.trans hStart.magic.symm)
  · have hMagic : (bytes.set i byte).take 4 = Record.magic := by
      rw [List.take_set_of_le hHigh]
      exact hStart.magic
    refine decode_of_version_ne (hStart.long_set byte) hMagic fun hVersion => ?_
    refine Bytes.ofLittle_set_ne hInside hOther hHigh (show i < 4 + 2 by omega) ?_
    rw [hVersion, hStart.version]
    rfl

/-- A record of another length is torn if it would end behind the bytes, and else no record. -/
theorem decode_set_size (hLow : 6 ≤ i) (hHigh : i < 10) {batch : Batch}
    (hBody : decodeBody body = .ok batch) :
    if bytes.length < headerSize + announced (bytes.set i byte) + checksumSize then
      decode (bytes.set i byte) = .ok .torn
    else ∃ damage, decode (bytes.set i byte) = .error damage := by
  have hHead := hStart.isHeaded_set hLow byte
  have hInside : i < bytes.length := Nat.lt_of_lt_of_le hHigh hStart.isHeaded.long
  split
  next hShort =>
    refine hHead.decode_of_short ?_
    rw [List.length_set]
    exact hShort
  next hWhole =>
    have hNe : announced (bytes.set i byte) ≠ body.length := by
      rw [← hStart.announced_eq]
      exact Bytes.ofLittle_set_ne hInside hOther hLow (show i < 6 + 4 by omega)
    -- the contents start where they did, and only one beginning of them is a body
    have hContents : ((bytes.set i byte).drop headerSize) = bytes.drop headerSize := by
      rw [List.drop_set, if_pos (show i < headerSize from hHigh)]
    have hMost := hStart.whole
    rw [← hStart.contents] at hBody
    obtain ⟨damage, hDamage⟩ := decodeBody_take (by rw [List.length_drop]; omega) hBody
      (show announced (bytes.set i byte) ≤ (bytes.drop headerSize).length by
        rw [List.length_drop]; omega) hNe
    rw [← hContents] at hDamage
    exact hHead.decode_of_body (by rw [List.length_set]; omega) hDamage

/-- Another body has another checksum. -/
theorem decode_set_body (hLow : 10 ≤ i) (hHigh : i < headerSize + body.length) :
    ∃ damage, decode (bytes.set i byte) = .error damage := by
  have hMost := hStart.whole
  have hInside : i < bytes.length := by omega
  refine hStart.decode_set_of_ne hLow ?_
  have hIn : i < (bytes.take (headerSize + body.length)).length := by
    rw [List.length_take]
    omega
  rw [Bytes.take_drop_set_of_apart (Or.inl hHigh), hStart.stored,
    ofLittle_word (UInt32.toNat_lt _), UInt32.ofNat_toNat, List.take_set]
  refine (Crc32.checksum_set_ne hIn ?_).symm
  rw [List.getElem_take]
  rintro rfl
  exact hOther (List.getElem?_eq_getElem hInside)

/-- Another checksum is not the one of the body. -/
theorem decode_set_checksum (hLow : headerSize + body.length ≤ i)
    (hHigh : i < headerSize + body.length + checksumSize) :
    ∃ damage, decode (bytes.set i byte) = .error damage := by
  have hMost := hStart.whole
  have hInside : i < bytes.length := by omega
  have hBehind : 10 ≤ i := Nat.le_trans (Nat.le_add_right headerSize body.length) hLow
  refine hStart.decode_set_of_ne hBehind ?_
  rw [List.take_set_of_le hLow]
  intro hSame
  refine Bytes.ofLittle_set_ne hInside hOther hLow hHigh ?_
  have hStored := congrArg UInt32.toNat hSame
  rw [UInt32.toNat_ofNat', Nat.mod_eq_of_lt (ofLittle_checksum_lt _)] at hStored
  rw [hStored, hStart.stored, ofLittle_word (UInt32.toNat_lt _)]

/-- A record with one byte changed is no record; only one that now seems to end behind the bytes is
taken for a torn one. -/
theorem decode_set {batch : Batch} (hBody : decodeBody body = .ok batch)
    (hHigh : i < headerSize + body.length + checksumSize) :
    if bytes.length < headerSize + announced (bytes.set i byte) + checksumSize then
      (6 ≤ i ∧ i < 10) ∧ decode (bytes.set i byte) = .ok .torn
    else ∃ damage, decode (bytes.set i byte) = .error damage := by
  by_cases hSize : 6 ≤ i ∧ i < 10
  · have hDecode := hStart.decode_set_size hOther hSize.1 hSize.2 hBody
    split at hDecode
    next hShort => rw [if_pos hShort]; exact ⟨hSize, hDecode⟩
    next hWhole => rw [if_neg hWhole]; exact hDecode
  · have hKept : announced (bytes.set i byte) = body.length := hStart.announced_set (by omega) byte
    rw [hKept, if_neg (Nat.not_lt.mpr hStart.whole)]
    rcases Nat.lt_or_ge i 6 with hFront | hBehind
    · exact hStart.decode_set_front hOther hFront
    · have hLow : 10 ≤ i := by omega
      rcases Nat.lt_or_ge i (headerSize + body.length) with hIn | hSum
      · exact hStart.decode_set_body hOther hLow hIn
      · exact hStart.decode_set_checksum hOther hSum hHigh

end StartsWith

end Record

/-! ### A log with one byte changed -/

namespace Records

/-- The record of a log in which an offset is, and the records before and behind it. -/
structure IsAt (earlier : List Batch) (batch : Batch) (later : List Batch)
    (front record back : Bytes) (offset : Nat) : Prop where
  earlier : Records earlier front
  encoded : Record.encode batch = .ok record
  later : Records later back
  low : front.length ≤ offset
  high : offset < front.length + record.length

theorem exists_at {batches : List Batch} {log : Bytes} (hLog : Records batches log) {offset : Nat}
    (hInside : offset < log.length) : ∃ earlier batch later front record back,
      IsAt earlier batch later front record back offset ∧
        batches = earlier ++ batch :: later ∧ log = front ++ (record ++ back) := by
  induction hLog with
  | none => cases hInside
  | @more batches log batch record before encoded ih =>
    rcases Nat.lt_or_ge offset log.length with hEarly | hLast
    · obtain ⟨earlier, found, later, front, part, back, hAt, rfl, rfl⟩ := ih hEarly
      refine ⟨earlier, found, later ++ [batch], front, part, back ++ record,
        ⟨hAt.earlier, hAt.encoded, hAt.later.more encoded, hAt.low, hAt.high⟩, ?_, ?_⟩
      · rw [List.append_assoc, List.cons_append]
      · rw [List.append_assoc, List.append_assoc]
    · rw [List.length_append] at hInside
      exact ⟨batches, batch, [], log, record, [], ⟨before, encoded, .none, hLast, hInside⟩, rfl,
        by rw [List.append_nil]⟩

/-- The records before the changed one are replayed. Then the damage is met, or the bytes seem to
end in a torn record. -/
theorem IsAt.replay_set {earlier later : List Batch} {batch : Batch} {front record back : Bytes}
    {offset : Nat} (hAt : IsAt earlier batch later front record back offset) {byte : UInt8}
    {log : Bytes} (hLog : log = front ++ (record ++ back)) (hOther : log[offset]? ≠ some byte) :
    if log.length < front.length + Record.headerSize +
        Record.announced ((log.set offset byte).drop front.length) + Record.checksumSize then
      (front.length + 6 ≤ offset ∧ offset < front.length + 10) ∧
        replay (log.set offset byte) = .ok ⟨(∅ : Rows).applyAll earlier, front.length⟩
    else ∃ damage, replay (log.set offset byte) =
      .error (.corrupted (.inRecord front.length damage)) := by
  obtain ⟨body, hBody, hStart, hLength⟩ := Record.exists_startsWith hAt.encoded back
  have hLow := hAt.low
  have hHigh := hAt.high
  rw [hLength] at hHigh
  have hSet : log.set offset byte =
      front ++ (record ++ back).set (offset - front.length) byte := by
    rw [hLog, List.set_append_right _ _ hLow]
  have hByte : (record ++ back)[offset - front.length]? ≠ some byte := by
    rwa [hLog, List.getElem?_append_right hLow] at hOther
  have hDecode := hStart.decode_set hByte hBody (show offset - front.length < _ by omega)
  have hAll : log.length = front.length + (record ++ back).length := by
    rw [hLog, List.length_append]
  rw [hSet, List.drop_left' rfl]
  split
  next hShort =>
    rw [if_pos (by omega)] at hDecode
    obtain ⟨⟨hFirst, hLast⟩, hTorn⟩ := hDecode
    exact ⟨by omega, hAt.earlier.replay_append_of_torn hTorn⟩
  next hWhole =>
    rw [if_neg (by omega)] at hDecode
    obtain ⟨damage, hDamage⟩ := hDecode
    exact ⟨damage, hAt.earlier.replay_append_of_damage hDamage⟩

end Records

namespace Journal

/-- A log with one byte changed is refused and left as it is. It is opened only where the change
makes the length of a record lead behind the end of the log: this record cannot be told from one
that was torn, so it is dropped with all behind it. -/
theorem openIn_changed {path : String} (hPath : path.isEmpty = false) (threshold : Nat)
    {folder : Folder} (hFree : folder.owned = false) {batches : List Batch} {log : Bytes}
    (hLog : Records batches log) {offset : Nat} (hInside : offset < log.length) {byte : UInt8}
    (hOther : byte ≠ log[offset])
    (hBytes : folder.bytes Folder.logName = log.set offset byte) :
    ∃ earlier batch later front record back,
      Records.IsAt earlier batch later front record back offset ∧
      batches = earlier ++ batch :: later ∧ log = front ++ (record ++ back) ∧
      if log.length < front.length + Record.headerSize +
          Record.announced ((log.set offset byte).drop front.length) + Record.checksumSize then
        (front.length + 6 ≤ offset ∧ offset < front.length + 10) ∧
        ∃ journal left, openIn path threshold folder = (.ok journal, left) ∧
          journal.rows = (∅ : Rows).applyAll earlier ∧ left.bytes Folder.logName = front
      else
        ∃ damage left, openIn path threshold folder =
            (.error (.corrupted (.inRecord front.length damage)), left) ∧
          left.bytes Folder.logName = log.set offset byte := by
  obtain ⟨earlier, batch, later, front, record, back, hAt, hBatches, hParts⟩ := hLog.exists_at hInside
  refine ⟨earlier, batch, later, front, record, back, hAt, hBatches, hParts, ?_⟩
  have hAtOffset : log[offset]? ≠ some byte := by
    rw [List.getElem?_eq_getElem hInside]
    exact fun hSame => hOther (Option.some.inj hSame).symm
  have hReplay := hAt.replay_set hParts hAtOffset
  split at hReplay
  next hShort =>
    obtain ⟨hLength, hRead⟩ := hReplay
    have hFront : (log.set offset byte).take front.length = front := by
      rw [List.take_set_of_le hAt.low, hParts]
      exact List.take_left' rfl
    rw [← hBytes] at hRead hFront
    obtain ⟨journal, left, hOpen, hOpened⟩ :=
      openIn_eq hPath threshold hFree hAt.earlier rfl hRead hFront
    rw [if_pos hShort]
    exact ⟨hLength, journal, left, hOpen, hOpened.rows, hOpened.log⟩
  next hWhole =>
    obtain ⟨damage, hDamage⟩ := hReplay
    rw [if_neg hWhole]
    refine ⟨damage, readied folder, ?_, (bytes_readied folder).trans hBytes⟩
    rw [openIn_of_free hPath threshold hFree, hBytes, hDamage]

end Journal

end Storage

namespace Sample

open Storage

def firstRecord : Bytes := ((Record.encode [.put [1] [2]]).toOption).getD []

def secondRecord : Bytes := ((Record.encode [.put [3] [4]]).toOption).getD []

/-- A folder with a log of two records of which a byte was changed. -/
def changedFolder (offset : Nat) (byte : UInt8) : Folder :=
  Folder.empty.write Folder.logName ((firstRecord ++ secondRecord).set offset byte)

theorem records_two :
    Records [[.put [1] [2]], [.put [3] [4]]] (firstRecord ++ secondRecord) :=
  Records.cons (rfl : Record.encode [.put [1] [2]] = .ok firstRecord)
    (Records.none.more (rfl : Record.encode [.put [3] [4]] = .ok secondRecord))

theorem bytes_changedFolder (offset : Nat) (byte : UInt8) :
    (changedFolder offset byte).bytes Folder.logName =
      (firstRecord ++ secondRecord).set offset byte :=
  (Folder.bytes_write _ _ _ _).trans (if_pos rfl)

/-- A change in the body of the first record is reported. -/
theorem openIn_changed_body : ∃ damage left,
    Journal.openIn "lake" 0 (changedFolder 20 7) = (.error (.corrupted damage), left) ∧
    left.bytes Folder.logName = (firstRecord ++ secondRecord).set 20 7 := by
  obtain ⟨_, _, _, front, _, _, _, _, _, hOpened⟩ := Journal.openIn_changed
    (show "lake".isEmpty = false from rfl) 0 (rfl : (changedFolder 20 7).owned = false) records_two
    (show 20 < (firstRecord ++ secondRecord).length by decide +kernel)
    (show (7 : UInt8) ≠ _ by decide +kernel) (bytes_changedFolder 20 7)
  have hRefused : (Journal.openIn "lake" 0 (changedFolder 20 7)).1.isOk = false := by
    decide +kernel
  split at hOpened
  next =>
    obtain ⟨_, journal, left, hOpen, _⟩ := hOpened
    rw [hOpen] at hRefused
    cases hRefused
  next =>
    obtain ⟨damage, left, hOpen, hLeft⟩ := hOpened
    exact ⟨_, left, hOpen, hLeft⟩

/-- Not every change is reported: with another length of the first record, both are dropped. -/
theorem not_always_reported : ¬ ∀ (path : String) (threshold : Nat) (folder : Folder)
    (batches : List Batch) (log : Bytes) (offset : Nat) (byte : UInt8)
    (_ : offset < log.length), path.isEmpty = false → folder.owned = false →
    Records batches log → byte ≠ log[offset] →
    folder.bytes Folder.logName = log.set offset byte →
    ∃ damage left, Journal.openIn path threshold folder = (.error (.corrupted damage), left) ∧
      left.bytes Folder.logName = log.set offset byte := by
  intro hAll
  obtain ⟨damage, left, hOpen, _⟩ := hAll "lake" 0 (changedFolder 9 1) _ _ 9 1
    (show 9 < (firstRecord ++ secondRecord).length by decide +kernel) rfl rfl records_two
    (by decide +kernel) (bytes_changedFolder 9 1)
  have hOpened : (Journal.openIn "lake" 0 (changedFolder 9 1)).1.isOk = true := by decide +kernel
  rw [hOpen] at hOpened
  cases hOpened

end Sample

end VersionedCatalog
