import VersionedCatalog.Proofs.Continuing
import VersionedCatalog.Proofs.RoundTrips

/-! # Frames say their end

The body of a frame is a dictionary, and reading one continues when bytes follow it. So a frame that
is cut has no body: read, it would leave the part that was cut off behind the whole one
(`Frame.decode_take`). And what stands behind a frame is what is left when its body has been read,
which is reported with its length unless it is blank behind JSON (`Frame.decode_append`). For the
frames of entities this is `Entity.delimits`.
-/

namespace VersionedCatalog

/-- The blanks of JSON are space, tab, line feed and carriage return. -/
theorem Json.isBlank_eq : Json.isBlank = ([0x20, 0x09, 0x0A, 0x0D].contains ·) := by
  funext b
  simp [Json.isBlank, Bool.or_assoc]

/-- Reading a dictionary continues, in either format. -/
theorem Format.read?_append {format : Format} {bytes rest : Bytes} {document : Document}
    (hRead : format.read? bytes = some (document, rest))
    (hClosed : format = .json → Frame.isDelimited bytes = true) (extra : Bytes) :
    format.read? (bytes ++ extra) = some (document, rest ++ extra) := by
  cases format with
  | cbor => exact Cbor.continues_read? _ _ _ hRead
  | json => exact Json.read?_append hRead (hClosed rfl)

namespace Frame

theorem split_of_short {front : Bytes} (hShort : front.length < 4) :
    split front = .error (.short front.length) := by
  match front with
  | [] => rfl
  | [_] => rfl
  | [_, _] => rfl
  | [_, _, _] => rfl
  | _ :: _ :: _ :: _ :: _ =>
    simp only [List.length_cons] at hShort
    omega

theorem isDelimited_brace (tail : Bytes) : isDelimited (Json.ascii '\x7b' :: tail) = true := by
  rw [isDelimited, Json.skipBlanks_cons (by decide)]
  rfl

section
variable {α : Type} {format : Format} {entries : List (Document × Document)} {frame : Bytes}
  (hData : (Document.dict entries).IsData)
  (hEncode : encode format (.dict entries) = .ok frame)
include hData hEncode

/-- A frame of a dictionary is a header and a body that is read back and, in JSON, opens with a
brace. -/
theorem exists_body : ∃ body, frame = header format ++ body ∧
    format.read? body = some ((Document.dict entries).seen format, []) ∧
    (format = .json → ∃ tail, body = Json.ascii '\x7b' :: tail) := by
  unfold encode at hEncode
  split at hEncode
  next body hWrite =>
    cases hEncode
    refine ⟨body, rfl, format.read?_write? hData hWrite, ?_⟩
    rintro rfl
    obtain ⟨parts, _, rfl⟩ := Json.exists_of_write?_dict hWrite
    exact ⟨_, rfl⟩
  next => cases hEncode

variable (read? : Source → Document → Option α)

/-- A frame without its end is no frame. -/
theorem decode_take {k : Nat} (hCut : k < frame.length) :
    decode read? (frame.take k) = .error (if k < 4 then .short k else .decoding) := by
  obtain ⟨body, rfl, hRead, hBrace⟩ := exists_body hData hEncode
  have hHeader : (header format).length = 4 := by cases format <;> rfl
  rw [List.length_append, hHeader] at hCut
  by_cases hShort : k < 4
  · have hLength : ((header format ++ body).take k).length = k := by
      rw [List.length_take, List.length_append]
      omega
    rw [decode, split_of_short (by rw [hLength]; exact hShort), hLength, if_pos hShort]
    rfl
  · rw [List.take_append, List.take_of_length_le (by omega), hHeader, decode, split_header,
      if_neg hShort]
    have hNone : format.read? (body.take (k - 4)) = none := by
      cases hFront : format.read? (body.take (k - 4)) with
      | none => rfl
      | some found =>
        have hClosed : format = .json → isDelimited (body.take (k - 4)) = true := by
          rintro rfl
          obtain ⟨tail, rfl⟩ := hBrace rfl
          cases hKept : k - 4 with
          | zero => rw [hKept] at hFront; cases hFront
          | succ kept => exact isDelimited_brace _
        -- the cut part would be left behind the whole body
        have hWhole := Format.read?_append hFront hClosed (body.drop (k - 4))
        rw [List.take_append_drop, hRead] at hWhole
        have hLeft := (Prod.mk.inj (Option.some.inj hWhole)).2
        have hDropped := congrArg List.length hLeft
        rw [List.length_append, List.length_drop, List.length_nil] at hDropped
        omega
    rw [Outcome.ok_bind]
    simp only [hNone]

/-- What follows a frame is reported with its length, unless it may stand there. -/
theorem decode_append {value : α}
    (hValue : read? format.source ((Document.dict entries).seen format) = some value)
    (hHeight : ((Document.dict entries).seen format).height ≤ Source.json.room) (rest : Bytes) :
    decode read? (frame ++ rest) =
      if isTrailing format rest then .error (.trailing rest.length) else .ok value := by
  obtain ⟨body, rfl, hRead, hBrace⟩ := exists_body hData hEncode
  have hClosed : format = .json → isDelimited body = true := by
    intro hJson
    obtain ⟨tail, rfl⟩ := hBrace hJson
    exact isDelimited_brace tail
  have hCount : countTrailing format ((Document.dict entries).seen format) (body ++ rest) rest =
      rest.length := by
    cases format with
    | cbor => rfl
    | json =>
      obtain ⟨tail, rfl⟩ := hBrace rfl
      have hPlain := Document.isPlain_seen .json _ hData
      rw [countTrailing, hPlain, decide_eq_true hHeight, List.cons_append, isDelimited_brace]
      rfl
  have hAll := Format.read?_append hRead hClosed rest
  rw [List.nil_append] at hAll
  rw [List.append_assoc, decode, split_header, Outcome.ok_bind]
  simp only [hAll, hValue, hCount]

end

theorem isTrailing_eq {format : Format} {rest : Bytes} (hSome : rest ≠ []) :
    isTrailing format rest = !decide (format = .json ∧ rest.all Json.isBlank = true) := by
  cases format with
  | cbor =>
    have hFull : rest.isEmpty = false := List.isEmpty_eq_false_iff.mpr hSome
    simp [isTrailing, hFull]
  | json => simp only [isTrailing, true_and, Bool.decide_eq_true]

end Frame

/-! ### Frames of entities -/

namespace Entity

theorem height_name (format : Format) (name : Name) :
    (name.toDocument.seen format).height ≤ 3 := by
  refine Document.height_seen_ofFields_le (n := 2) format ?_
  simp only [List.forall_mem_cons]
  refine ⟨Document.height_seen_ofFields_le (n := 1) format ?_, Nat.zero_le 2,
    fun _ hMem => by cases hMem⟩
  simp only [List.forall_mem_cons]
  refine ⟨Document.height_seen_list_le (n := 0) format fun item hMem => ?_,
    fun _ hMem => by cases hMem⟩
  obtain ⟨level, _, rfl⟩ := List.mem_map.mp hMem
  exact Nat.le_refl 0

theorem height_audit (format : Format) (audit : Audit) :
    (audit.toDocument.seen format).height ≤ 1 := by
  refine Document.height_seen_ofFields_le (n := 0) format ?_
  simp only [List.forall_mem_cons]
  exact ⟨Nat.le_refl 0, Nat.le_refl 0,
    Nat.le_of_eq (Document.height_seen_ofOption format (fun _ => rfl) audit.lastModifier),
    Nat.le_of_eq (Document.height_seen_ofOption format (fun _ => rfl) audit.lastModifiedTime),
    fun _ hMem => by cases hMem⟩

theorem height_properties (format : Format) (properties : Properties) :
    ((Properties.toDocument properties).seen format).height ≤ 1 := by
  have hFields : Properties.toDocument properties =
      .ofFields (properties.entries.map fun entry => (entry.1, .ofText entry.2)) := by
    rw [Properties.toDocument, Document.ofFields, List.map_map]
    rfl
  rw [hFields]
  refine Document.height_seen_ofFields_le (n := 0) format fun field hMem => ?_
  obtain ⟨entry, _, rfl⟩ := List.mem_map.mp hMem
  exact Nat.le_refl 0

theorem height_kind (format : Format) (kind : Kind) :
    (kind.toDocument.seen format).height ≤ 3 := by
  refine Document.height_seen_ofFields_le (n := 2) format ?_
  rw [List.forall_mem_cons]
  exact ⟨Nat.zero_le 2, Kind.height_attributes format kind⟩

/-- The document of an entity is not nested deeply. -/
theorem height_toDocument (format : Format) (entity : Entity) :
    (entity.toDocument.seen format).height ≤ 4 := by
  refine Document.height_seen_ofFields_le (n := 3) format ?_
  simp only [List.forall_mem_cons]
  refine ⟨Nat.zero_le 3, height_name format entity.name, ?_,
    Nat.le_trans (height_properties format entity.properties) (by decide),
    Nat.le_trans (height_audit format entity.audit) (by decide), height_kind format entity.kind,
    fun _ hMem => by cases hMem⟩
  rw [Document.height_seen_ofOption format (fun _ => rfl) entity.comment]
  exact Nat.zero_le 3

/-- **Frames say their end**: the frame of an entity cannot be decoded when it is cut, be it in the
header or behind it. With something behind it, all of that is reported as trailing; only blanks
behind JSON do no harm. -/
theorem delimits {entity : Entity} (hSized : entity.IsSized) (format : Format) :
    ∃ frame, entity.encode format = .ok frame ∧
      (∀ k < frame.length, Frame.decode read? (frame.take k) =
        .error (if k < 4 then .short k else .decoding)) ∧
      ∀ rest ≠ [], Frame.decode read? (frame ++ rest) =
        if format = .json ∧ rest.all ([0x20, 0x09, 0x0A, 0x0D].contains ·) = true then .ok entity
        else .error (.trailing rest.length) := by
  obtain ⟨frame, hEncode⟩ := exists_encode hSized format
  have hFrame := Outcome.mapError_eq_ok hEncode
  have hData := entity.isData_toDocument
  refine ⟨frame, hEncode, fun k hCut => Frame.decode_take hData hFrame read? hCut, ?_⟩
  intro rest hSome
  have hHeight : (entity.toDocument.seen format).height ≤ Source.json.room :=
    Nat.le_trans (height_toDocument format entity) (by decide)
  rw [Frame.decode_append hData hFrame read? (read?_seen entity) hHeight rest,
    Frame.isTrailing_eq hSome, ← Json.isBlank_eq]
  by_cases hBlank : format = .json ∧ rest.all Json.isBlank = true
  · rw [decide_eq_true hBlank, if_pos hBlank]
    rfl
  · rw [decide_eq_false hBlank, if_neg hBlank]
    rfl

end Entity

namespace Sample

theorem delimits_eventTable : eventTable.IsSized ∧
    ∃ frame, eventTable.encode .json = .ok frame ∧
      (∀ k < frame.length, Frame.decode Entity.read? (frame.take k) =
        .error (if k < 4 then .short k else .decoding)) ∧
      ∀ rest ≠ [], Frame.decode Entity.read? (frame ++ rest) =
        if Format.json = .json ∧ rest.all ([0x20, 0x09, 0x0A, 0x0D].contains ·) = true then
          .ok eventTable
        else .error (.trailing rest.length) :=
  have hSized : eventTable.IsSized := by decide +kernel
  ⟨hSized, Entity.delimits hSized .json⟩

end Sample

end VersionedCatalog
