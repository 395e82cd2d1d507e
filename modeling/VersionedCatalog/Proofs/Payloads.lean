import VersionedCatalog.Entity.Payload
import VersionedCatalog.Proofs.CborReading
import VersionedCatalog.Proofs.JsonReading
import VersionedCatalog.Proofs.Keys
import VersionedCatalog.Proofs.Outcomes
import VersionedCatalog.Proofs.Records

/-! # Entities read back

Whatever can be encoded is decoded as the same entity, in either format (`Entity.decode_encode`):
the document of an entity is data, so it is read as it was written, and every record in it is read
field by field.
-/

namespace VersionedCatalog

section
variable {source : Source} {format : Format}

/-! ### Records of an entity -/

theorem Name.readScope?_seen (levels : List String) :
    Name.readScope? source
      ((Document.ofFields [("levels", .list (levels.map .ofText))]).seen format) =
      some ⟨levels⟩ := by
  rw [Name.readScope?, Fields.ofDocument?_ofFields source format (by rfl) (by decide) (by decide)]
  have hLevels := source.inner.list?_seen format
    (Source.text?_seen source.inner.inner format) levels
  simp [Fields.required?, hLevels]

theorem Name.read?_seen (name : Name) :
    Name.read? source (name.toDocument.seen format) = some name := by
  rw [Name.read?, Name.toDocument,
    Fields.ofDocument?_ofFields source format (by rfl) (by decide) (by decide)]
  simp [Fields.required?, List.lookup_cons, Name.readScope?_seen, Source.text?_seen]

theorem Audit.read?_seen (hReads : source.Reads format) (audit : Audit) :
    Audit.read? source (audit.toDocument.seen format) = some audit := by
  rw [Audit.read?, Audit.toDocument,
    Fields.ofDocument?_ofFields source format (by rfl) (by decide) (by decide)]
  have hModifier := Source.optionalText?_seen hReads.inner audit.lastModifier
  have hTime := Source.optionalWord?_seen hReads.inner audit.lastModifiedTime
  simp [Fields.required?, List.lookup_cons, Fields.optional?, Source.text?_seen, Source.word?_seen,
    hModifier, hTime]

theorem Column.read?_seen (hReads : source.Reads format) (column : Column) :
    Column.read? source (column.toDocument.seen format) = some column := by
  rw [Column.read?, Column.toDocument,
    Fields.ofDocument?_ofFields source format (by rfl) (by decide) (by decide)]
  have hComment := Source.optionalText?_seen hReads.inner column.comment
  simp [Fields.required?, List.lookup_cons, Fields.optional?, Source.text?_seen, Source.flag?_seen,
    hComment]

/-! ### Kinds

A kind is buffered before its type is known. Its attributes are plain and lie two levels deep at
most, so there is room for them.
-/

theorem CatalogType.lookup_name (catalogType : CatalogType) :
    CatalogType.names.lookup catalogType.name = some catalogType := by
  cases catalogType <;> rfl

theorem FilesetType.lookup_name (filesetType : FilesetType) :
    FilesetType.names.lookup filesetType.name = some filesetType := by
  cases filesetType <;> rfl

namespace Kind

/-- The fields of a kind behind its type, as a reader finds them. -/
def seenAttributes (format : Format) (kind : Kind) : Document :=
  (Document.ofFields kind.attributes).seen format

theorem readAttributes?_seen (format : Format) (kind : Kind) :
    readAttributes? kind.type (kind.seenAttributes format) = some kind := by
  have hBuffered := Source.reads_buffered format
  cases kind with
  | metalake => rfl
  | catalog catalogType provider =>
    have hVariant : Source.variant? CatalogType.names
        ((Document.ofText catalogType.name).seen format) = some catalogType := by
      rw [Source.variant?_ofText (by cases catalogType <;> decide), CatalogType.lookup_name]
    rw [readAttributes?.eq_def, seenAttributes, attributes]
    simp only [Kind.type]
    rw [Fields.ofDocument?_ofFields .buffered format (by rfl) (by decide) (by decide)]
    simp [Fields.required?, List.lookup_cons, hVariant, Source.text?_seen]
  | schema => rfl
  | table columns partitioning =>
    have hColumns := Source.buffered.list?_seen format (Column.read?_seen hBuffered) columns
    have hPartitioning := Source.buffered.list?_seen format
      (Source.text?_seen .buffered format) partitioning
    rw [readAttributes?.eq_def, seenAttributes, attributes]
    simp only [Kind.type]
    rw [Fields.ofDocument?_ofFields .buffered format (by rfl) (by decide) (by decide)]
    simp [Fields.optional?, List.lookup_cons, hColumns, hPartitioning]
  | fileset filesetType location =>
    have hVariant : Source.variant? FilesetType.names
        ((Document.ofText filesetType.name).seen format) = some filesetType := by
      rw [Source.variant?_ofText (by cases filesetType <;> decide), FilesetType.lookup_name]
    have hLocation := Source.optionalText?_seen hBuffered location
    rw [readAttributes?.eq_def, seenAttributes, attributes]
    simp only [Kind.type]
    rw [Fields.ofDocument?_ofFields .buffered format (by rfl) (by decide) (by decide)]
    simp [Fields.required?, Fields.optional?, List.lookup_cons, hVariant, hLocation]

theorem isData_column (column : Column) : column.toDocument.IsData := by
  refine Document.isData_ofFields ?_
  simp only [List.forall_mem_cons]
  exact ⟨Document.isData_ofText _, Document.isData_ofText _,
    Document.isData_ofOption Document.isData_ofText _, trivial, fun _ hMem => by cases hMem⟩

theorem isData_texts (texts : List String) : (Document.list (texts.map .ofText)).IsData := by
  refine Document.areData_iff.mpr fun item hMem => ?_
  obtain ⟨text, _, rfl⟩ := List.mem_map.mp hMem
  exact Document.isData_ofText text

theorem isData_attributes (kind : Kind) : ∀ field ∈ kind.attributes, field.2.IsData := by
  cases kind with
  | metalake => intro field hMem; cases hMem
  | catalog catalogType provider =>
    simp only [attributes, List.forall_mem_cons]
    exact ⟨Document.isData_ofText _, Document.isData_ofText _, fun _ hMem => by cases hMem⟩
  | schema => intro field hMem; cases hMem
  | table columns partitioning =>
    simp only [attributes, List.forall_mem_cons]
    refine ⟨Document.areData_iff.mpr fun item hMem => ?_, isData_texts partitioning,
      fun _ hMem => by cases hMem⟩
    obtain ⟨column, _, rfl⟩ := List.mem_map.mp hMem
    exact isData_column column
  | fileset filesetType location =>
    simp only [attributes, List.forall_mem_cons]
    exact ⟨Document.isData_ofText _, Document.isData_ofOption Document.isData_ofText _,
      fun _ hMem => by cases hMem⟩

theorem height_column (column : Column) : (column.toDocument.seen format).height ≤ 1 := by
  refine Document.height_seen_ofFields_le (n := 0) format ?_
  simp only [List.forall_mem_cons]
  refine ⟨Nat.le_refl 0, Nat.le_refl 0, ?_, Nat.le_refl 0, fun _ hMem => by cases hMem⟩
  exact Nat.le_of_eq (Document.height_seen_ofOption format (fun _ => rfl) column.comment)

theorem height_attributes (format : Format) (kind : Kind) :
    ∀ field ∈ kind.attributes, (field.2.seen format).height ≤ 2 := by
  cases kind with
  | metalake => intro field hMem; cases hMem
  | catalog catalogType provider =>
    simp only [attributes, List.forall_mem_cons]
    exact ⟨Nat.zero_le 2, Nat.zero_le 2, fun _ hMem => by cases hMem⟩
  | schema => intro field hMem; cases hMem
  | table columns partitioning =>
    simp only [attributes, List.forall_mem_cons]
    refine ⟨Document.height_seen_list_le (n := 1) format fun item hMem => ?_,
      Document.height_seen_list_le (n := 1) format fun item hMem => ?_,
      fun _ hMem => by cases hMem⟩
    · obtain ⟨column, _, rfl⟩ := List.mem_map.mp hMem
      exact height_column column
    · obtain ⟨text, _, rfl⟩ := List.mem_map.mp hMem
      exact Nat.zero_le 1
  | fileset filesetType location =>
    simp only [attributes, List.forall_mem_cons]
    refine ⟨Nat.zero_le 2, ?_, fun _ hMem => by cases hMem⟩
    rw [Document.height_seen_ofOption format (fun _ => rfl) location]
    exact Nat.zero_le 2

theorem isTypeKey_attributes (kind : Kind) :
    ∀ field ∈ kind.attributes, isTypeKey (.ofText field.1) = false := by
  cases kind <;> simp [attributes, isTypeKey, Document.ofText, typeKey]

theorem readType?_seen (source : Source) (type : EntityType) :
    readType? source ((Document.ofText type.name).seen format) = some type := by
  have hLabel : source.label? ((Document.ofText type.name).seen format) =
      some (.name (Utf8.encode type.name)) :=
    source.label?_ofText (by cases type <;> decide)
  have hPick := Source.pick_name (List.mem_map.mpr ⟨type, type.mem_all, rfl⟩ :
    type.name ∈ EntityType.all.map EntityType.name)
  simp [readType?, hLabel, hPick, EntityType.ofName?_name]

theorem partition_first {α : Type} {p : α → Bool} {first : α} {rest : List α}
    (hFirst : p first = true) (hRest : ∀ a ∈ rest, p a = false) :
    (first :: rest).partition p = ([first], rest) := by
  have hKept : rest.filter p = [] := List.filter_eq_nil_iff.mpr fun a hMem => by simp [hRest a hMem]
  have hLeft : rest.filter (not ∘ p) = rest :=
    List.filter_eq_self.mpr fun a hMem => by simp [hRest a hMem]
  rw [List.partition_eq_filter_filter, List.filter_cons_of_pos hFirst,
    List.filter_cons_of_neg (by simp [hFirst]), hKept, hLeft]

theorem read?_seen (format : Format) {source : Source} (hRoom : 2 ≤ source.inner.room)
    (kind : Kind) :
    read? source (kind.toDocument.seen format) = some kind := by
  have hSeen : kind.toDocument.seen format = .dict ((.ofText typeKey,
      (Document.ofText kind.type.name).seen format) :: (kind.attributes.map fun field =>
        (Document.ofText field.1, field.2.seen format))) := by
    rw [toDocument, Document.seen_ofFields, Document.ofFields, List.map_cons, List.map_cons,
      List.map_map]
    rfl
  have hAttributes : kind.seenAttributes format = .dict (kind.attributes.map fun field =>
      (Document.ofText field.1, field.2.seen format)) := by
    rw [seenAttributes, Document.seen_ofFields, Document.ofFields, List.map_map]
    rfl
  have hRead := readAttributes?_seen format kind
  rw [hAttributes] at hRead
  have hPartition : ((Document.ofText typeKey, (Document.ofText kind.type.name).seen format) ::
      kind.attributes.map fun field => (Document.ofText field.1, field.2.seen format)).partition
        (fun entry => isTypeKey entry.1) =
      ([(.ofText typeKey, (Document.ofText kind.type.name).seen format)],
        kind.attributes.map fun field => (Document.ofText field.1, field.2.seen format)) := by
    have hKey : isTypeKey (.ofText typeKey) = true := by decide
    refine partition_first hKey fun entry hMem => ?_
    obtain ⟨field, hField, rfl⟩ := List.mem_map.mp hMem
    exact isTypeKey_attributes kind field hField
  have hBufferable : (kind.attributes.map fun field =>
      (Document.ofText field.1, field.2.seen format)).all (fun entry =>
        isBufferable source entry.1 && isBufferable source entry.2) = true := by
    refine List.all_eq_true.mpr fun entry hMem => ?_
    obtain ⟨field, hField, rfl⟩ := List.mem_map.mp hMem
    have hPlain := Document.isPlain_seen format field.2 (isData_attributes kind field hField)
    have hHeight := height_attributes format kind field hField
    have hValue : isBufferable source (field.2.seen format) = true :=
      Bool.and_eq_true_iff.mpr ⟨hPlain, decide_eq_true (Nat.le_trans hHeight hRoom)⟩
    exact Bool.and_eq_true_iff.mpr ⟨rfl, hValue⟩
  rw [hSeen, read?]
  simp only [hPartition, readType?_seen, hBufferable, hRead, Option.bind_eq_bind, Option.bind_some]
  rfl

end Kind

/-! ### Entities -/

namespace Entity

theorem isData_toDocument (entity : Entity) : entity.toDocument.IsData := by
  have hName : entity.name.toDocument.IsData := by
    refine Document.isData_ofFields ?_
    simp only [List.forall_mem_cons]
    refine ⟨Document.isData_ofFields ?_, Document.isData_ofText _, fun _ hMem => by cases hMem⟩
    simp only [List.forall_mem_cons]
    exact ⟨Kind.isData_texts _, fun _ hMem => by cases hMem⟩
  have hAudit : entity.audit.toDocument.IsData := by
    refine Document.isData_ofFields ?_
    simp only [List.forall_mem_cons]
    exact ⟨Document.isData_ofText _, Document.isData_ofNat _,
      Document.isData_ofOption Document.isData_ofText _,
      Document.isData_ofOption (fun time => Document.isData_ofNat time) _,
      fun _ hMem => by cases hMem⟩
  have hKind : entity.kind.toDocument.IsData := by
    refine Document.isData_ofFields ?_
    rw [List.forall_mem_cons]
    exact ⟨Document.isData_ofText _, Kind.isData_attributes entity.kind⟩
  have hProperties : (Properties.toDocument entity.properties).IsData :=
    Document.areEntries_map fun entry _ => Document.isData_ofText entry.2
  refine Document.isData_ofFields ?_
  simp only [List.forall_mem_cons]
  exact ⟨Document.isData_ofNat _, hName, Document.isData_ofOption Document.isData_ofText _,
    hProperties, hAudit, hKind, fun _ hMem => by cases hMem⟩

theorem read?_seen (entity : Entity) :
    read? format.source (entity.toDocument.seen format) = some entity := by
  have hReads := (Source.reads_source format).inner
  have hRoom : 2 ≤ format.source.inner.inner.room := by cases format <;> decide
  have hComment := Source.optionalText?_seen hReads entity.comment
  have hAudit := Audit.read?_seen hReads entity.audit
  have hKind := Kind.read?_seen format hRoom entity.kind
  have hProperties : format.source.inner.texts?
      ((Properties.toDocument entity.properties).seen format) = some entity.properties :=
    Source.texts?_seen entity.properties
  rw [read?, toDocument, Fields.ofDocument?_ofFields _ format (by rfl) (by decide) (by decide)]
  simp [Fields.required?, Fields.optional?, List.lookup_cons, Source.word?_seen, Name.read?_seen,
    hComment, hProperties, hAudit, hKind]

end Entity

end

/-! ### Frames -/

theorem Format.read?_write? (format : Format) {document : Document} (hData : document.IsData)
    {body : Bytes} (hWrite : format.write? document = some body) :
    format.read? body = some (document.seen format, []) := by
  cases format with
  | cbor => rw [Document.seen_cbor]; exact Cbor.read?_write? hData hWrite
  | json => exact Json.read?_write? hData hWrite

theorem Frame.split_header (format : Format) (body : Bytes) :
    split (header format ++ body) = .ok (format, body) := by
  cases format <;> rfl

/-- What is decoded has the type that it was decoded for. -/
theorem Entity.type_of_decode {type : EntityType} {payload : Bytes} {entity : Entity}
    (hOk : Entity.decode type payload = .ok entity) : entity.type = type := by
  obtain ⟨found, _, hRest⟩ := Outcome.bind_eq_ok hOk
  split at hRest
  next hType => cases hRest; exact hType
  next => cases hRest

/-- Whatever can be encoded is decoded as the same entity. -/
theorem Entity.decode_encode {format : Format} {entity : Entity} {payload : Bytes}
    (hEncode : entity.encode format = .ok payload) :
    Entity.decode entity.type payload = .ok entity := by
  have hFrame := Outcome.mapError_eq_ok hEncode
  unfold Frame.encode at hFrame
  split at hFrame
  next body hWrite =>
    cases hFrame
    have hBody := format.read?_write? entity.isData_toDocument hWrite
    have hEnd : Frame.isTrailing format [] = false := by cases format <;> rfl
    simp [decode, Frame.decode, Frame.split_header, hBody, Entity.read?_seen, hEnd]
  next => cases hFrame

end VersionedCatalog
