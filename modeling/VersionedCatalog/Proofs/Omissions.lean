import Mathlib.Data.List.Perm.Basic
import VersionedCatalog.Document.Access
import VersionedCatalog.Proofs.RoundTrips

/-! # Older payloads

An older payload lacks optional fields and may have the others in another order. In such a record
(`Fields.Thins`) a field is found under its name just as in the whole one, unless it was removed
(`Fields.Thins.lookup_eq`), and an optional field that is removed reads as its default
(`Fields.Thins.optional?_eq`). The type of a kind is told apart by its name, so it may stand anywhere
(`Kind.Older.read?_eq`). From the columns up this gives what an older document of an entity reads as
(`Entity.Older.read?_eq`), and as its parts are no larger than those of the whole document it has a
frame whenever the entity has one (`Entity.reads_older`).
-/

namespace VersionedCatalog

/-! ### Records without some of their fields -/

/-- The fields of a record. -/
def Document.fields : Document → Fields
  | .dict entries => entries.filterMap fun entry => entry.1.asText?.map fun name => (name, entry.2)
  | _ => []

namespace Fields

/-- The fields with another value under a name. -/
def replace (fields : Fields) (name : String) (value : Document) : Fields :=
  fields.map fun field => if field.1 = name then (name, value) else field

/-- Whether the second fields are the first without the removed ones, in any order. -/
def Thins (removed : List String) (fields left : Fields) : Prop :=
  left.Perm (fields.filter fun field => field.1 ∉ removed)

theorem lookup_eq_some_iff_mem {fields : Fields} (hNodup : (fields.map (·.1)).Nodup)
    {name : String} {value : Document} :
    fields.lookup name = some value ↔ (name, value) ∈ fields := by
  induction fields with
  | nil => simp
  | cons field rest ih =>
    rw [List.map_cons, List.nodup_cons] at hNodup
    rw [List.lookup_cons, List.mem_cons]
    by_cases hName : name = field.1
    · have hOther : (name, value) ∉ rest := fun hMem =>
        hNodup.1 (hName ▸ List.mem_map.mpr ⟨_, hMem, rfl⟩)
      subst hName
      simp [hOther, Prod.ext_iff, eq_comm]
    · have hNe : (name, value) ≠ field := fun hEq => hName (congrArg Prod.fst hEq)
      rw [beq_eq_false_iff_ne.mpr hName, ih hNodup.2]
      exact (or_iff_right hNe).symm

theorem map_replace (fields : Fields) (name : String) (value : Document) :
    (fields.replace name value).map (·.1) = fields.map (·.1) := by
  rw [replace, List.map_map]
  refine List.map_congr_left fun field _ => ?_
  by_cases hName : field.1 = name
  · simp [hName]
  · simp [hName]

theorem mem_replace {fields : Fields} {name : String} {value : Document}
    {field : String × Document} (hMem : field ∈ fields.replace name value) :
    field ∈ fields ∨ field = (name, value) := by
  obtain ⟨original, hOriginal, rfl⟩ := List.mem_map.mp hMem
  split
  next => exact Or.inr rfl
  next => exact Or.inl hOriginal

namespace Thins

variable {removed : List String} {fields left : Fields} (hThins : Thins removed fields left)
include hThins

theorem mem {field : String × Document} :
    field ∈ left ↔ field ∈ fields ∧ field.1 ∉ removed := by
  rw [hThins.mem_iff, List.mem_filter, decide_eq_true_iff]

theorem nodup (hNodup : (fields.map (·.1)).Nodup) : (left.map (·.1)).Nodup := by
  have hSub : ((fields.filter fun field => field.1 ∉ removed).map (·.1)).Sublist
      (fields.map (·.1)) := List.filter_sublist.map _
  exact (hThins.map (·.1)).nodup_iff.mpr (hNodup.sublist hSub)

/-- What is found under a name does not depend on the order. -/
theorem lookup_eq (hNodup : (fields.map (·.1)).Nodup) (name : String) :
    left.lookup name = if name ∈ removed then none else fields.lookup name := by
  have hIff : ∀ value, left.lookup name = some value ↔
      fields.lookup name = some value ∧ name ∉ removed := by
    intro value
    rw [lookup_eq_some_iff_mem (hThins.nodup hNodup), lookup_eq_some_iff_mem hNodup, hThins.mem]
  split
  next hRemoved =>
    refine Option.eq_none_iff_forall_ne_some.mpr fun value hFound => ?_
    exact ((hIff value).mp hFound).2 hRemoved
  next hKept =>
    refine Option.ext fun value => ?_
    rw [hIff value]
    exact and_iff_left hKept

/-- What is found of a record without some of its fields are the fields that it has. -/
theorem ofDocument?_eq (source : Source) (format : Format) {names : List String}
    (hNames : fields.map (·.1) = names) (hNodup : (fields.map (·.1)).Nodup)
    (hShort : ∀ name ∈ names, (Utf8.encode name).length ≤ Source.longestName) :
    ofDocument? source names ((Document.ofFields left).seen format) =
      some (left.map fun field => (field.1, field.2.seen format)) := by
  have hBare := fun entries => source.bare_of_not_tagged (.dict entries)
    (fun _ _ hEq => by cases hEq)
  have hSeen : (left.map fun field => (field.1, field.2.seen format)).map (·.1) =
      left.map (·.1) := by
    rw [List.map_map]
    rfl
  rw [Document.seen_ofFields]
  simp only [ofDocument?, Document.ofFields, hBare]
  refine collect?_fields source (hSeen ▸ hThins.nodup hNodup) fun field hMem => ?_
  obtain ⟨original, hOriginal, rfl⟩ := List.mem_map.mp hMem
  have hName : original.1 ∈ names :=
    hNames ▸ List.mem_map.mpr ⟨original, (hThins.mem.mp hOriginal).1, rfl⟩
  exact ⟨hName, hShort _ hName⟩

end Thins

theorem lookup_seen (format : Format) (fields : Fields) (name : String) :
    (fields.map fun field => (field.1, field.2.seen format)).lookup name =
      (fields.lookup name).map (Document.seen format) := by
  induction fields with
  | nil => rfl
  | cons field rest ih =>
    rw [List.map_cons, List.lookup_cons, List.lookup_cons, ih]
    cases name == field.1 <;> rfl

namespace Thins

variable {α : Type} {removed : List String} {fields left : Fields}
  (hThins : Thins removed fields left) (hNodup : (fields.map (·.1)).Nodup)
  {name : String} {value : Document} (hField : fields.lookup name = some value)
  {format : Format} {read? : Document → Option α} {a : α}
  (hRead : read? (value.seen format) = some a)
include hThins hNodup hField hRead

theorem required?_eq (hKept : name ∉ removed) :
    required? (left.map fun field => (field.1, field.2.seen format)) name read? = some a := by
  rw [required?, lookup_seen, hThins.lookup_eq hNodup, if_neg hKept, hField]
  exact hRead

/-- An optional field that was removed reads as its default. -/
theorem optional?_eq (default : α) :
    optional? (left.map fun field => (field.1, field.2.seen format)) name default read? =
      some (if name ∈ removed then default else a) := by
  rw [optional?, lookup_seen, hThins.lookup_eq hNodup, hField]
  by_cases hRemoved : name ∈ removed
  · rw [if_pos hRemoved, if_pos hRemoved]
    rfl
  · rw [if_neg hRemoved, if_neg hRemoved]
    exact hRead

end Thins

end Fields

/-! ### Their data and sizes -/

namespace Document

theorem isData_ofFields_iff {fields : Fields} :
    (ofFields fields).IsData ↔ ∀ field ∈ fields, field.2.IsData := by
  refine ⟨fun hData => ?_, isData_ofFields⟩
  induction fields with
  | nil => intro field hMem; cases hMem
  | cons field rest ih => exact List.forall_mem_cons.mpr ⟨hData.2.1, ih hData.2.2⟩

theorem everyEntry_ofFields_iff {p : Document → Bool} {fields : Fields} :
    everyEntry p (fields.map fun field => (ofText field.1, field.2)) = true ↔
      ∀ field ∈ fields, (ofText field.1).every p = true ∧ field.2.every p = true := by
  induction fields with
  | nil => simp [everyEntry]
  | cons field rest ih =>
    rw [List.map_cons, everyEntry, Bool.and_eq_true_iff, Bool.and_eq_true_iff, ih,
      List.forall_mem_cons]

theorem isSized_ofFields_iff {fields : Fields} : (ofFields fields).isSized = true ↔
    fields.length < UInt64.size ∧
      ∀ field ∈ fields, (ofText field.1).isSized = true ∧ field.2.isSized = true := by
  rw [isSized, ofFields, every, Bool.and_eq_true_iff, everyEntry_ofFields_iff]
  simp only [isSizedPart, List.length_map, decide_eq_true_eq]
  rfl

theorem isSized_list_iff {items : List Document} : (Document.list items).isSized = true ↔
    items.length < UInt64.size ∧ ∀ item ∈ items, item.isSized = true := by
  have hItems : ∀ items : List Document, everyItem isSizedPart items = true ↔
      ∀ item ∈ items, item.isSized = true := by
    intro items
    induction items with
    | nil => simp [everyItem]
    | cons item rest ih => rw [everyItem, Bool.and_eq_true_iff, ih, List.forall_mem_cons]; rfl
  rw [isSized, every, Bool.and_eq_true_iff, hItems]
  simp only [isSizedPart, decide_eq_true_eq]

end Document

namespace Fields

open Document

variable {removed : List String} {fields left : Fields}

theorem Thins.isData (hThins : Thins removed fields left) (hData : (ofFields fields).IsData) :
    (ofFields left).IsData :=
  isData_ofFields_iff.mpr fun field hMem =>
    isData_ofFields_iff.mp hData field (hThins.mem.mp hMem).1

theorem Thins.isSized (hThins : Thins removed fields left)
    (hSized : (ofFields fields).isSized = true) : (ofFields left).isSized = true := by
  obtain ⟨hLength, hParts⟩ := isSized_ofFields_iff.mp hSized
  refine isSized_ofFields_iff.mpr ⟨?_, fun field hMem => hParts field (hThins.mem.mp hMem).1⟩
  rw [hThins.length_eq]
  exact Nat.lt_of_le_of_lt (List.length_filter_le _ fields) hLength

theorem isData_replace {name : String} {value : Document} (hData : (ofFields fields).IsData)
    (hValue : value.IsData) : (ofFields (fields.replace name value)).IsData := by
  refine isData_ofFields_iff.mpr fun field hMem => ?_
  rcases mem_replace hMem with hOld | rfl
  · exact isData_ofFields_iff.mp hData field hOld
  · exact hValue

theorem isSized_replace {name : String} {value : Document}
    (hSized : (ofFields fields).isSized = true) (hValue : value.isSized = true) :
    (ofFields (fields.replace name value)).isSized = true := by
  obtain ⟨hLength, hParts⟩ := isSized_ofFields_iff.mp hSized
  refine isSized_ofFields_iff.mpr ⟨by rw [replace, List.length_map]; exact hLength, ?_⟩
  intro field hMem
  obtain ⟨original, hOriginal, rfl⟩ := List.mem_map.mp hMem
  obtain ⟨hName, hOld⟩ := hParts original hOriginal
  split
  next hEq => exact ⟨hEq ▸ hName, hValue⟩
  next => exact ⟨hName, hOld⟩

end Fields

/-! ### Older columns and audit records -/

namespace Column

/-- The column with the removed fields at their defaults. -/
def without (column : Column) (removed : List String) : Column :=
  { column with
    comment := if "comment" ∈ removed then none else column.comment
    nullable := if "nullable" ∈ removed then true else column.nullable }

/-- An older document of a column, and the column that it is read as. -/
inductive Older (column : Column) : Document → Column → Prop
  | intro {removed : List String} {left : Fields} (optional : removed ⊆ ["comment", "nullable"])
      (thins : Fields.Thins removed column.toDocument.fields left) :
      Older column (.ofFields left) (column.without removed)

variable {column older : Column} {document : Document} (hOlder : column.Older document older)
include hOlder

theorem Older.read?_eq {source : Source} {format : Format} (hReads : source.Reads format) :
    read? source (document.seen format) = some older := by
  cases hOlder with
  | @intro removed left hOptional hThins =>
    have hNodup : (column.toDocument.fields.map (·.1)).Nodup :=
      (by decide : ["name", "data_type", "comment", "nullable"].Nodup)
    have hName : "name" ∉ removed := fun hMem => absurd (hOptional hMem) (by decide)
    have hType : "data_type" ∉ removed := fun hMem => absurd (hOptional hMem) (by decide)
    have hComment := Source.optionalText?_seen hReads.inner column.comment
    have hNullable : source.inner.flag? ((Document.bool column.nullable).seen format) =
        some column.nullable := Source.flag?_seen column.nullable
    rw [read?, hThins.ofDocument?_eq source format (by rfl) hNodup (by decide)]
    simp only [Option.bind_eq_bind, Option.bind_some]
    rw [hThins.required?_eq hNodup rfl (Source.text?_seen _ _ _) hName,
      hThins.required?_eq hNodup rfl (Source.text?_seen _ _ _) hType,
      hThins.optional?_eq hNodup rfl hComment, hThins.optional?_eq hNodup rfl hNullable]
    rfl

theorem Older.isData : document.IsData := by
  cases hOlder with
  | intro _ hThins => exact hThins.isData (Kind.isData_column column)

theorem Older.isSized (hSized : column.toDocument.isSized = true) : document.isSized = true := by
  cases hOlder with
  | intro _ hThins => exact hThins.isSized hSized

theorem Older.height_le (format : Format) : (document.seen format).height ≤ 1 := by
  cases hOlder with
  | intro _ hThins =>
    refine Document.height_seen_ofFields_le (n := 0) format fun field hMem => ?_
    have hFields : ∀ field ∈ column.toDocument.fields, (field.2.seen format).height ≤ 0 := by
      show ∀ field ∈ [("name", _), ("data_type", _), ("comment", _), ("nullable", _)], _
      simp only [List.forall_mem_cons]
      exact ⟨Nat.le_refl 0, Nat.le_refl 0,
        Nat.le_of_eq (Document.height_seen_ofOption format (fun _ => rfl) column.comment),
        Nat.le_refl 0, fun _ hNone => by cases hNone⟩
    exact hFields field (hThins.mem.mp hMem).1

end Column

namespace Audit

/-- The audit record with the removed fields at their defaults. -/
def without (audit : Audit) (removed : List String) : Audit :=
  { audit with
    lastModifier := if "last_modifier" ∈ removed then none else audit.lastModifier
    lastModifiedTime := if "last_modified_time" ∈ removed then none else audit.lastModifiedTime }

/-- An older document of an audit record, and the one that it is read as. -/
inductive Older (audit : Audit) : Document → Audit → Prop
  | intro {removed : List String} {left : Fields}
      (optional : removed ⊆ ["last_modifier", "last_modified_time"])
      (thins : Fields.Thins removed audit.toDocument.fields left) :
      Older audit (.ofFields left) (audit.without removed)

variable {audit older : Audit} {document : Document} (hOlder : audit.Older document older)
include hOlder

theorem Older.read?_eq {source : Source} {format : Format} (hReads : source.Reads format) :
    read? source (document.seen format) = some older := by
  cases hOlder with
  | @intro removed left hOptional hThins =>
    have hNodup : (audit.toDocument.fields.map (·.1)).Nodup := (by decide : fieldNames.Nodup)
    have hCreator : "creator" ∉ removed := fun hMem => absurd (hOptional hMem) (by decide)
    have hCreated : "create_time" ∉ removed := fun hMem => absurd (hOptional hMem) (by decide)
    have hModifier := Source.optionalText?_seen hReads.inner audit.lastModifier
    have hTime := Source.optionalWord?_seen hReads.inner audit.lastModifiedTime
    rw [read?, hThins.ofDocument?_eq source format (by rfl) hNodup (by decide)]
    simp only [Option.bind_eq_bind, Option.bind_some]
    rw [hThins.required?_eq hNodup rfl (Source.text?_seen _ _ _) hCreator,
      hThins.required?_eq hNodup rfl (Source.word?_seen audit.createTime) hCreated,
      hThins.optional?_eq hNodup rfl hModifier, hThins.optional?_eq hNodup rfl hTime]
    rfl

theorem Older.isData (hData : audit.toDocument.IsData) : document.IsData := by
  cases hOlder with
  | intro _ hThins => exact hThins.isData hData

theorem Older.isSized (hSized : audit.toDocument.isSized = true) : document.isSized = true := by
  cases hOlder with
  | intro _ hThins => exact hThins.isSized hSized

end Audit

/-! ### Older kinds -/

theorem Document.fields_ofFields (fields : Fields) : (ofFields fields).fields = fields := by
  rw [ofFields, Document.fields, List.filterMap_map]
  exact List.filterMap_some

theorem Source.list?_older (source : Source) {α : Type} {read? : Document → Option α}
    {format : Format} {older : List (Document × α)}
    (hRead : ∀ pair ∈ older, read? (pair.1.seen format) = some pair.2) :
    source.list? read? ((Document.list (older.map (·.1))).seen format) =
      some (older.map (·.2)) := by
  have hBare := source.bare_of_not_tagged (.list ((older.map (·.1)).map (Document.seen format)))
    (fun _ _ hEq => by cases hEq)
  simp only [list?, items?, Document.seen, Document.seenItems_eq_map, hBare]
  show List.mapM _ _ = _
  induction older with
  | nil => rfl
  | cons pair rest ih =>
    obtain ⟨hFirst, hRest⟩ := List.forall_mem_cons.mp hRead
    rw [List.map_cons, List.map_cons, List.mapM_cons, hFirst, ih hRest]
    · rfl
    · exact source.bare_of_not_tagged _ (fun _ _ hEq => by cases hEq)

namespace Kind

def columns : Kind → List Column
  | .table columns _ => columns
  | _ => []

/-- The kind with other columns and the removed fields at their defaults. -/
def without (kind : Kind) (removed : List String) (columns : List Column) : Kind :=
  match kind with
  | .table _ partitioning =>
    .table (if "columns" ∈ removed then [] else columns)
      (if "partitioning" ∈ removed then [] else partitioning)
  | .fileset filesetType location =>
    .fileset filesetType (if "storage_location" ∈ removed then none else location)
  | kind => kind

/-- An older document of a kind, and the kind that it is read as. Every column in it may be older on
its own. -/
inductive Older (kind : Kind) : Document → Kind → Prop
  | intro {removed : List String} {older : List (Document × Column)} {left : Fields}
      (columns : List.Forall₂ (fun column pair => column.Older pair.1 pair.2) kind.columns older)
      (optional : removed ⊆ ["columns", "partitioning", "storage_location"])
      (thins : Fields.Thins removed
        (kind.toDocument.fields.replace "columns" (.list (older.map (·.1)))) left) :
      Older kind (.ofFields left) (kind.without removed (older.map (·.2)))

/-- The fields of an older kind behind its type, before some are removed. -/
def olderAttributes (kind : Kind) (older : List (Document × Column)) : Fields :=
  Fields.replace kind.attributes "columns" (.list (older.map (·.1)))

section
variable {kind : Kind} {older : List (Document × Column)}

theorem fields_replace : kind.toDocument.fields.replace "columns" (.list (older.map (·.1))) =
    (typeKey, .ofText kind.type.name) :: kind.olderAttributes older := by
  rw [toDocument, Document.fields_ofFields, Fields.replace, List.map_cons,
    if_neg (by decide : ¬ typeKey = "columns")]
  rfl

theorem isTypeKey_ofText (name : String) :
    isTypeKey (.ofText name) = decide (name = typeKey) := rfl

theorem olderAttributes_ne_type : ∀ field ∈ kind.olderAttributes older, field.1 ≠ typeKey := by
  intro field hMem
  have hName : field.1 ∈ kind.attributes.map (·.1) := by
    rw [← Fields.map_replace kind.attributes "columns" (.list (older.map (·.1)))]
    exact List.mem_map.mpr ⟨field, hMem, rfl⟩
  obtain ⟨original, hOriginal, hSame⟩ := List.mem_map.mp hName
  have hOther : decide (original.1 = typeKey) = false := isTypeKey_attributes kind original hOriginal
  rw [← hSame]
  exact of_decide_eq_false hOther

variable {removed : List String} {left : Fields}
  (hThins : Fields.Thins removed ((typeKey, .ofText kind.type.name) :: kind.olderAttributes older) left)
  (hType : typeKey ∉ removed)
include hThins hType

theorem perm_older : left.Perm ((typeKey, .ofText kind.type.name) ::
    (kind.olderAttributes older).filter fun field => field.1 ∉ removed) := by
  have hPerm : left.Perm _ := hThins
  rwa [List.filter_cons_of_pos (by simpa using hType)] at hPerm

/-- The type of a kind is told from its attributes wherever it stands. -/
theorem filter_type :
    left.filter (fun field => field.1 = typeKey) = [(typeKey, .ofText kind.type.name)] := by
  have hPerm := (perm_older hThins hType).filter fun field => field.1 = typeKey
  have hNone : ((kind.olderAttributes older).filter fun field => field.1 ∉ removed).filter
      (fun field => field.1 = typeKey) = [] := by
    refine List.filter_eq_nil_iff.mpr fun field hMem => ?_
    have hOther := olderAttributes_ne_type field (List.mem_filter.mp hMem).1
    exact fun hEq => hOther (of_decide_eq_true hEq)
  rw [List.filter_cons_of_pos (by simp), hNone] at hPerm
  exact List.perm_singleton.mp hPerm

theorem thins_attributes : Fields.Thins removed (kind.olderAttributes older)
    (left.filter fun field => ¬ field.1 = typeKey) := by
  have hPerm := (perm_older hThins hType).filter fun field => ¬ field.1 = typeKey
  have hAll : ((kind.olderAttributes older).filter fun field => field.1 ∉ removed).filter
      (fun field => ¬ field.1 = typeKey) =
        (kind.olderAttributes older).filter fun field => field.1 ∉ removed := by
    refine List.filter_eq_self.mpr fun field hMem => ?_
    exact decide_eq_true (olderAttributes_ne_type field (List.mem_filter.mp hMem).1)
  rwa [List.filter_cons_of_neg (by simp), hAll] at hPerm

end

theorem exists_column {columns : List Column} {older : List (Document × Column)}
    (hColumns : List.Forall₂ (fun column pair => column.Older pair.1 pair.2) columns older) :
    ∀ pair ∈ older, ∃ column ∈ columns, column.Older pair.1 pair.2 := by
  induction hColumns with
  | nil => intro pair hMem; cases hMem
  | cons hFirst _ ih =>
    rw [List.forall_mem_cons]
    refine ⟨⟨_, List.mem_cons_self, hFirst⟩, fun pair hMem => ?_⟩
    obtain ⟨column, hColumn, hOlder⟩ := ih pair hMem
    exact ⟨column, List.mem_cons_of_mem _ hColumn, hOlder⟩

section
variable {kind : Kind} {older : List (Document × Column)}
  (hColumns : List.Forall₂ (fun column pair => column.Older pair.1 pair.2) kind.columns older)
include hColumns

theorem isData_columns : (Document.list (older.map (·.1))).IsData := by
  refine Document.areData_iff.mpr fun item hMem => ?_
  obtain ⟨pair, hPair, rfl⟩ := List.mem_map.mp hMem
  obtain ⟨_, _, hOlder⟩ := exists_column hColumns pair hPair
  exact hOlder.isData

theorem height_columns (format : Format) :
    ((Document.list (older.map (·.1))).seen format).height ≤ 2 := by
  refine Document.height_seen_list_le (n := 1) format fun item hMem => ?_
  obtain ⟨pair, hPair, rfl⟩ := List.mem_map.mp hMem
  obtain ⟨_, _, hOlder⟩ := exists_column hColumns pair hPair
  exact hOlder.height_le format

/-- What is buffered of an older kind is data and not nested deeply. -/
theorem isData_olderAttributes (format : Format) : ∀ field ∈ kind.olderAttributes older,
    field.2.IsData ∧ (field.2.seen format).height ≤ 2 := by
  intro field hMem
  rcases Fields.mem_replace hMem with hOld | rfl
  · exact ⟨isData_attributes kind field hOld, height_attributes format kind field hOld⟩
  · exact ⟨isData_columns hColumns, height_columns hColumns format⟩

variable {removed : List String} {left : Fields}
  (hThins : Fields.Thins removed (kind.olderAttributes older) left)
include hThins

theorem readAttributes?_older (format : Format)
    (hOptional : removed ⊆ ["columns", "partitioning", "storage_location"]) :
    readAttributes? kind.type ((Document.ofFields left).seen format) =
      some (kind.without removed (older.map (·.2))) := by
  have hBuffered := Source.reads_buffered format
  cases kind with
  | metalake => rfl
  | catalog catalogType provider =>
    have hVariant : Source.variant? CatalogType.names
        ((Document.ofText catalogType.name).seen format) = some catalogType := by
      rw [Source.variant?_ofText (by cases catalogType <;> decide), CatalogType.lookup_name]
    have hNodup : (Fields.replace (attributes (.catalog catalogType provider)) "columns"
        (.list (older.map (·.1))) |>.map (·.1)).Nodup :=
      (by decide : ["catalog_type", "provider"].Nodup)
    have hType : "catalog_type" ∉ removed := fun hMem => absurd (hOptional hMem) (by decide)
    have hProvider : "provider" ∉ removed := fun hMem => absurd (hOptional hMem) (by decide)
    rw [readAttributes?.eq_def]
    simp only [Kind.type]
    rw [hThins.ofDocument?_eq .buffered format (by rfl) hNodup (by decide)]
    simp only [Option.bind_eq_bind, Option.bind_some]
    rw [hThins.required?_eq hNodup rfl hVariant hType,
      hThins.required?_eq hNodup rfl (Source.text?_seen .buffered format _) hProvider]
    rfl
  | schema => rfl
  | table columns partitioning =>
    have hNodup : (Fields.replace (attributes (.table columns partitioning)) "columns"
        (.list (older.map (·.1))) |>.map (·.1)).Nodup :=
      (by decide : ["columns", "partitioning"].Nodup)
    have hEach : ∀ pair ∈ older, Column.read? .buffered (pair.1.seen format) = some pair.2 := by
      intro pair hPair
      obtain ⟨column, _, hOlder⟩ := exists_column hColumns pair hPair
      exact hOlder.read?_eq hBuffered
    have hList := Source.buffered.list?_older hEach
    have hPartitioning := Source.buffered.list?_seen format
      (Source.text?_seen .buffered format) partitioning
    rw [readAttributes?.eq_def]
    simp only [Kind.type]
    rw [hThins.ofDocument?_eq .buffered format (by rfl) hNodup (by decide)]
    simp only [Option.bind_eq_bind, Option.bind_some]
    rw [hThins.optional?_eq hNodup rfl hList, hThins.optional?_eq hNodup rfl hPartitioning]
    rfl
  | fileset filesetType location =>
    have hVariant : Source.variant? FilesetType.names
        ((Document.ofText filesetType.name).seen format) = some filesetType := by
      rw [Source.variant?_ofText (by cases filesetType <;> decide), FilesetType.lookup_name]
    have hLocation := Source.optionalText?_seen hBuffered location
    have hNodup : (Fields.replace (attributes (.fileset filesetType location)) "columns"
        (.list (older.map (·.1))) |>.map (·.1)).Nodup :=
      (by decide : ["fileset_type", "storage_location"].Nodup)
    have hType : "fileset_type" ∉ removed := fun hMem => absurd (hOptional hMem) (by decide)
    rw [readAttributes?.eq_def]
    simp only [Kind.type]
    rw [hThins.ofDocument?_eq .buffered format (by rfl) hNodup (by decide)]
    simp only [Option.bind_eq_bind, Option.bind_some]
    rw [hThins.required?_eq hNodup rfl hVariant hType, hThins.optional?_eq hNodup rfl hLocation]
    rfl

end

theorem isSized_columns {kind : Kind} (hSized : kind.toDocument.isSized = true) :
    (Document.list (kind.columns.map Column.toDocument)).isSized = true := by
  cases kind with
  | table columns partitioning =>
    obtain ⟨_, hFields⟩ := Document.isSized_ofFields_iff.mp hSized
    exact (hFields ("columns", _) (List.mem_cons_of_mem _ List.mem_cons_self)).2
  | _ => rfl

section
variable {kind reduced : Kind} {document : Document} (hOlder : kind.Older document reduced)
include hOlder

theorem Older.isData : document.IsData := by
  cases hOlder with
  | intro hColumns _ hThins =>
    have hData : (Document.ofFields kind.toDocument.fields).IsData := by
      rw [toDocument, Document.fields_ofFields]
      refine Document.isData_ofFields ?_
      rw [List.forall_mem_cons]
      exact ⟨Document.isData_ofText _, isData_attributes kind⟩
    exact hThins.isData (Fields.isData_replace hData (isData_columns hColumns))

theorem Older.isSized (hSized : kind.toDocument.isSized = true) : document.isSized = true := by
  cases hOlder with
  | @intro removed older left hColumns _ hThins =>
    have hList : (Document.list (older.map (·.1))).isSized = true := by
      obtain ⟨hLength, hItems⟩ := Document.isSized_list_iff.mp (isSized_columns hSized)
      rw [List.length_map, hColumns.length_eq] at hLength
      refine Document.isSized_list_iff.mpr ⟨by rw [List.length_map]; exact hLength, ?_⟩
      intro item hMem
      obtain ⟨pair, hPair, rfl⟩ := List.mem_map.mp hMem
      obtain ⟨column, hColumn, hOlder⟩ := exists_column hColumns pair hPair
      exact hOlder.isSized (hItems _ (List.mem_map.mpr ⟨column, hColumn, rfl⟩))
    rw [toDocument, ← Document.fields_ofFields ((typeKey, _) :: _)] at hSized
    exact hThins.isSized (Fields.isSized_replace hSized hList)

theorem Older.read?_eq (format : Format) {source : Source} (hRoom : 2 ≤ source.inner.room) :
    read? source (document.seen format) = some reduced := by
  cases hOlder with
  | @intro removed older left hColumns hOptional hThins =>
    rw [fields_replace] at hThins
    have hType : typeKey ∉ removed := fun hMem => absurd (hOptional hMem) (by decide)
    have hRest := thins_attributes hThins hType
    have hRead := readAttributes?_older hColumns hRest format hOptional
    have hEntries : ∀ fields : Fields, (Document.ofFields fields).seen format =
        .dict (fields.map fun field => (.ofText field.1, field.2.seen format)) := by
      intro fields
      rw [Document.seen_ofFields, Document.ofFields, List.map_map]
      rfl
    have hPartition : (left.map fun field =>
        (Document.ofText field.1, field.2.seen format)).partition
          (fun entry => isTypeKey entry.1) =
        ([(.ofText typeKey, (Document.ofText kind.type.name).seen format)],
          (left.filter fun field => ¬ field.1 = typeKey).map fun field =>
            (Document.ofText field.1, field.2.seen format)) := by
      have hTags := filter_type hThins hType
      rw [List.partition_eq_filter_filter, List.filter_map, List.filter_map]
      simp only [Function.comp_def, isTypeKey_ofText, hTags, ← decide_not]
      rfl
    have hBufferable : ((left.filter fun field => ¬ field.1 = typeKey).map fun field =>
        (Document.ofText field.1, field.2.seen format)).all (fun entry =>
          isBufferable source entry.1 && isBufferable source entry.2) = true := by
      refine List.all_eq_true.mpr fun entry hMem => ?_
      obtain ⟨field, hField, rfl⟩ := List.mem_map.mp hMem
      obtain ⟨hData, hHeight⟩ := isData_olderAttributes hColumns format field
        (hRest.mem.mp hField).1
      have hValue : isBufferable source (field.2.seen format) = true :=
        Bool.and_eq_true_iff.mpr ⟨Document.isPlain_seen format field.2 hData,
          decide_eq_true (Nat.le_trans hHeight hRoom)⟩
      exact Bool.and_eq_true_iff.mpr ⟨rfl, hValue⟩
    rw [hEntries] at hRead
    rw [hEntries, read?]
    simp only [hPartition, readType?_seen, hBufferable, hRead, Option.bind_eq_bind,
      Option.bind_some]
    rfl

end

end Kind

/-! ### Older entities -/

namespace Entity

/-- An older document of an entity, and the entity that it is read as. -/
inductive Older (entity : Entity) : Document → Entity → Prop
  | intro {removed : List String} {auditPart kindPart : Document} {audit : Audit} {kind : Kind}
      {left : Fields} (hAudit : entity.audit.Older auditPart audit)
      (hKind : entity.kind.Older kindPart kind) (optional : removed ⊆ ["comment", "properties"])
      (thins : Fields.Thins removed
        ((entity.toDocument.fields.replace "audit" auditPart).replace "kind" kindPart) left) :
      Older entity (.ofFields left)
        { entity with
          comment := if "comment" ∈ removed then none else entity.comment
          properties := if "properties" ∈ removed then ∅ else entity.properties
          audit := audit
          kind := kind }

theorem mem_fields (entity : Entity) :
    ("audit", entity.audit.toDocument) ∈ entity.toDocument.fields ∧
      ("kind", entity.kind.toDocument) ∈ entity.toDocument.fields := by
  rw [toDocument, Document.fields_ofFields]
  refine ⟨List.mem_of_getElem? (i := 4) rfl, List.mem_of_getElem? (i := 5) rfl⟩

section
variable {entity reduced : Entity} {document : Document} (hOlder : entity.Older document reduced)
include hOlder

theorem Older.isData : document.IsData := by
  cases hOlder with
  | intro hAudit hKind _ hThins =>
    have hData : (Document.ofFields entity.toDocument.fields).IsData := entity.isData_toDocument
    have hPart := hAudit.isData (Document.isData_ofFields_iff.mp hData _ (mem_fields entity).1)
    exact hThins.isData (Fields.isData_replace (Fields.isData_replace hData hPart) hKind.isData)

theorem Older.isSized (hSized : entity.IsSized) : document.isSized = true := by
  cases hOlder with
  | intro hAudit hKind _ hThins =>
    have hAll : (Document.ofFields entity.toDocument.fields).isSized = true := hSized
    obtain ⟨_, hFields⟩ := Document.isSized_ofFields_iff.mp hAll
    have hAuditPart := hAudit.isSized (hFields _ (mem_fields entity).1).2
    have hKindPart := hKind.isSized (hFields _ (mem_fields entity).2).2
    exact hThins.isSized (Fields.isSized_replace (Fields.isSized_replace hAll hAuditPart) hKindPart)

theorem Older.read?_eq (format : Format) :
    read? format.source (document.seen format) = some reduced := by
  have hReads := (Source.reads_source format).inner
  have hRoom : 2 ≤ format.source.inner.inner.room := by cases format <;> decide
  cases hOlder with
  | @intro removed auditPart kindPart audit kind left hAudit hKind hOptional hThins =>
    have hNodup : (((entity.toDocument.fields.replace "audit" auditPart).replace "kind"
        kindPart).map (·.1)).Nodup := (by decide : fieldNames.Nodup)
    have hKept : ∀ name ∉ ["comment", "properties"], name ∉ removed := fun _ hName hGone =>
      hName (hOptional hGone)
    have hComment := Source.optionalText?_seen hReads entity.comment
    have hProperties : format.source.inner.texts?
        ((Properties.toDocument entity.properties).seen format) = some entity.properties :=
      Source.texts?_seen entity.properties
    rw [read?, hThins.ofDocument?_eq _ format (by rfl) hNodup (by decide)]
    simp only [Option.bind_eq_bind, Option.bind_some]
    rw [hThins.required?_eq hNodup rfl (Source.word?_seen entity.id.word) (hKept _ (by decide)),
      hThins.required?_eq hNodup rfl (Name.read?_seen entity.name) (hKept _ (by decide)),
      hThins.optional?_eq hNodup rfl hComment, hThins.optional?_eq hNodup rfl hProperties,
      hThins.required?_eq hNodup rfl (hAudit.read?_eq hReads) (hKept _ (by decide)),
      hThins.required?_eq hNodup rfl (hKind.read?_eq format hRoom) (hKept _ (by decide))]
    rfl

theorem Older.type_eq : reduced.type = entity.type := by
  cases hOlder with
  | intro _ hKind _ _ =>
    cases hKind with
    | @intro removed older left _ _ _ =>
      show (entity.kind.without removed _).type = entity.kind.type
      cases entity.kind <;> rfl

/-- **Older payloads stay readable**: a frame whose body is an older document of an entity is decoded
as the entity with every removed field at its default and all else unchanged, in either format. -/
theorem reads_older (hSized : entity.IsSized) (format : Format) :
    ∃ frame, Frame.encode format document = .ok frame ∧
      decode entity.type frame = .ok reduced := by
  obtain ⟨body, hBody⟩ := format.exists_write? hOlder.isData (hOlder.isSized hSized)
  refine ⟨Frame.header format ++ body, by rw [Frame.encode, hBody], ?_⟩
  have hRead := format.read?_write? hOlder.isData hBody
  have hEnd : Frame.isTrailing format [] = false := by cases format <;> rfl
  simp [decode, Frame.decode, Frame.split_header, hRead, hOlder.read?_eq format, hEnd,
    hOlder.type_eq]

end

end Entity

namespace Sample

/-- A record without some of its fields, from the last to the first. -/
def aged (removed : List String) (fields : Fields) : Fields :=
  (fields.filter fun field => field.1 ∉ removed).reverse

theorem thins_aged (removed : List String) (fields : Fields) :
    Fields.Thins removed fields (aged removed fields) := List.reverse_perm _

/-- The columns of the table of events without their optional fields, and what they are read as. -/
def agedColumns : List (Document × Column) := eventTable.columns.map fun column =>
  (.ofFields (aged ["comment", "nullable"] column.toDocument.fields),
    column.without ["comment", "nullable"])

def agedAudit : Fields := aged ["last_modifier"] eventTable.audit.toDocument.fields

/-- The kind of the table without its partitioning; the type comes last. -/
def agedKind : Fields := aged ["partitioning"]
  (eventTable.kind.toDocument.fields.replace "columns" (.list (agedColumns.map (·.1))))

def agedTable : Document := .ofFields (aged ["properties"]
  ((eventTable.toDocument.fields.replace "audit" (.ofFields agedAudit)).replace "kind"
    (.ofFields agedKind)))

theorem older_eventTable : eventTable.Older agedTable
    { eventTable with
      properties := ∅
      audit := ⟨"me", 0, none, some 18446744073709551615⟩
      kind := .table [⟨"at", "timestamp", none, true⟩, ⟨"", "", none, true⟩] [] } := by
  have hColumns : List.Forall₂ (fun (column : Column) (pair : Document × Column) =>
      column.Older pair.1 pair.2) eventTable.kind.columns agedColumns := by
    refine List.forall₂_map_right_iff.mpr (List.forall₂_same.mpr fun column _ => ?_)
    exact .intro (List.Subset.refl _) (thins_aged _ _)
  have hAudit : eventTable.audit.Older (.ofFields agedAudit) _ :=
    .intro (by decide : ["last_modifier"] ⊆ _) (thins_aged _ _)
  have hKind : eventTable.kind.Older (.ofFields agedKind) _ :=
    .intro hColumns (by decide : ["partitioning"] ⊆ _) (thins_aged _ _)
  exact .intro hAudit hKind (by decide : ["properties"] ⊆ _) (thins_aged _ _)

theorem reads_older_eventTable : eventTable.IsSized ∧
    ∃ frame, Frame.encode .json agedTable = .ok frame ∧
      Entity.decode eventTable.type frame = .ok
        { eventTable with
          properties := ∅
          audit := ⟨"me", 0, none, some 18446744073709551615⟩
          kind := .table [⟨"at", "timestamp", none, true⟩, ⟨"", "", none, true⟩] [] } :=
  have hSized : eventTable.IsSized := by decide +kernel
  ⟨hSized, Entity.reads_older older_eventTable hSized .json⟩

end Sample

end VersionedCatalog
