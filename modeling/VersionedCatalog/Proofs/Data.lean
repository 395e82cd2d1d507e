import VersionedCatalog.Frame

/-! # Data

What entities are written as uses a part of the documents only: missing values, truth values, words
without sign, texts in one piece, lists, and dictionaries with texts for keys. Such a document is
data. Either format reads data back as it was written, but for the missing value, which JSON spells
as its null (`Document.seen`).
-/

namespace VersionedCatalog

namespace Document

mutual

def IsData : Document → Prop
  | .absent => True
  | .bool _ => True
  | .int value => 0 ≤ value ∧ value < UInt64.size
  | .text _ whole => whole = true
  | .list items => AreData items
  | .dict entries => AreEntries entries
  | _ => False

def AreData : List Document → Prop
  | [] => True
  | item :: rest => IsData item ∧ AreData rest

def AreEntries : List (Document × Document) → Prop
  | [] => True
  | (key, value) :: rest => (∃ name, key = ofText name) ∧ IsData value ∧ AreEntries rest

end

mutual

/-- What a reader of a format finds of a document. -/
def seen (format : Format) : Document → Document
  | .absent =>
    match format with
    | .cbor => .absent
    | .json => .unit
  | .list items => .list (seenItems format items)
  | .dict entries => .dict (seenEntries format entries)
  | document => document

def seenItems (format : Format) : List Document → List Document
  | [] => []
  | item :: rest => seen format item :: seenItems format rest

def seenEntries (format : Format) : List (Document × Document) → List (Document × Document)
  | [] => []
  | (key, value) :: rest => (key, seen format value) :: seenEntries format rest

end

mutual

theorem seen_cbor (document : Document) : document.seen .cbor = document := by
  cases document with
  | list items => rw [seen, seenItems_cbor items]
  | dict entries => rw [seen, seenEntries_cbor entries]
  | _ => simp [seen]

theorem seenItems_cbor (items : List Document) : seenItems .cbor items = items := by
  cases items with
  | nil => rfl
  | cons item rest => rw [seenItems, seen_cbor item, seenItems_cbor rest]

theorem seenEntries_cbor (entries : List (Document × Document)) :
    seenEntries .cbor entries = entries := by
  cases entries with
  | nil => rfl
  | cons entry rest => rw [seenEntries, seen_cbor entry.2, seenEntries_cbor rest]

end

theorem seenItems_eq_map (format : Format) (items : List Document) :
    seenItems format items = items.map (seen format) := by
  induction items with
  | nil => rfl
  | cons item rest ih => rw [seenItems, ih, List.map_cons]

theorem seenEntries_eq_map (format : Format) (entries : List (Document × Document)) :
    seenEntries format entries = entries.map fun entry => (entry.1, entry.2.seen format) := by
  induction entries with
  | nil => rfl
  | cons entry rest ih => rw [seenEntries, ih, List.map_cons]

theorem seen_ofFields (format : Format) (fields : List (String × Document)) :
    (ofFields fields).seen format =
      ofFields (fields.map fun field => (field.1, field.2.seen format)) := by
  simp only [ofFields, seen, seenEntries_eq_map, List.map_map]
  rfl

/-! ### Shape -/

mutual

theorem isPlain_seen (format : Format) (document : Document) (hData : document.IsData) :
    (document.seen format).isPlain = true := by
  cases document with
  | absent => cases format <;> rfl
  | bool value => rfl
  | int value =>
    refine Bool.and_eq_true_iff.mpr ⟨decide_eq_true ?_, decide_eq_true hData.2⟩
    have hSign := hData.1
    omega
  | text value whole => rfl
  | list items => exact everyItem_seenItems format items hData
  | dict entries => exact everyEntry_seenEntries format entries hData
  | _ => cases hData

theorem everyItem_seenItems (format : Format) (items : List Document) (hData : AreData items) :
    everyItem isPlainPart (seenItems format items) = true := by
  cases items with
  | nil => rfl
  | cons item rest =>
    exact Bool.and_eq_true_iff.mpr
      ⟨isPlain_seen format item hData.1, everyItem_seenItems format rest hData.2⟩

theorem everyEntry_seenEntries (format : Format) (entries : List (Document × Document))
    (hData : AreEntries entries) :
    everyEntry isPlainPart (seenEntries format entries) = true := by
  cases entries with
  | nil => rfl
  | cons entry rest =>
    obtain ⟨key, value⟩ := entry
    obtain ⟨⟨name, rfl⟩, hValue, hRest⟩ := hData
    have hFirst := isPlain_seen format value hValue
    have hOthers := everyEntry_seenEntries format rest hRest
    rw [seenEntries, everyEntry, hOthers, Bool.and_true]
    exact hFirst

end

theorem heightOfItems_le {items : List Document} {n : Nat}
    (hItems : ∀ item ∈ items, item.height ≤ n) : heightOfItems items ≤ n := by
  induction items with
  | nil => exact Nat.zero_le n
  | cons item rest ih =>
    obtain ⟨hFirst, hRest⟩ := List.forall_mem_cons.mp hItems
    exact Nat.max_le.mpr ⟨hFirst, ih hRest⟩

theorem heightOfEntries_le {entries : List (Document × Document)} {n : Nat}
    (hEntries : ∀ entry ∈ entries, entry.1.height ≤ n ∧ entry.2.height ≤ n) :
    heightOfEntries entries ≤ n := by
  induction entries with
  | nil => exact Nat.zero_le n
  | cons entry rest ih =>
    obtain ⟨hFirst, hRest⟩ := List.forall_mem_cons.mp hEntries
    exact Nat.max_le.mpr ⟨Nat.max_le.mpr hFirst, ih hRest⟩

theorem height_seen_list_le (format : Format) {items : List Document} {n : Nat}
    (hItems : ∀ item ∈ items, (item.seen format).height ≤ n) :
    ((Document.list items).seen format).height ≤ 1 + n := by
  rw [seen, height, seenItems_eq_map]
  refine Nat.add_le_add_left (heightOfItems_le fun item hMem => ?_) 1
  obtain ⟨original, hOriginal, rfl⟩ := List.mem_map.mp hMem
  exact hItems original hOriginal

theorem height_seen_ofFields_le (format : Format) {fields : List (String × Document)} {n : Nat}
    (hFields : ∀ field ∈ fields, (field.2.seen format).height ≤ n) :
    ((ofFields fields).seen format).height ≤ 1 + n := by
  rw [seen_ofFields, ofFields, height]
  refine Nat.add_le_add_left (heightOfEntries_le fun entry hMem => ?_) 1
  obtain ⟨field, hField, rfl⟩ := List.mem_map.mp hMem
  obtain ⟨original, hOriginal, rfl⟩ := List.mem_map.mp hField
  exact ⟨Nat.zero_le n, hFields original hOriginal⟩

theorem height_seen_ofOption {α : Type} (format : Format) {write : α → Document}
    (hWrite : ∀ a, ((write a).seen format).height = 0) (value : Option α) :
    ((ofOption write value).seen format).height = 0 := by
  cases value with
  | none => cases format <;> rfl
  | some a => exact hWrite a

/-! ### What is data -/

theorem areData_iff {items : List Document} : AreData items ↔ ∀ item ∈ items, item.IsData := by
  induction items with
  | nil => simp [AreData]
  | cons item rest ih => rw [AreData, ih, List.forall_mem_cons]

theorem areEntries_map {α : Type} {items : List α} {name : α → String} {value : α → Document}
    (hValue : ∀ item ∈ items, (value item).IsData) :
    AreEntries (items.map fun item => (ofText (name item), value item)) := by
  induction items with
  | nil => trivial
  | cons item rest ih =>
    obtain ⟨hFirst, hRest⟩ := List.forall_mem_cons.mp hValue
    exact ⟨⟨name item, rfl⟩, hFirst, ih hRest⟩

theorem isData_ofFields {fields : List (String × Document)}
    (hFields : ∀ field ∈ fields, field.2.IsData) : (ofFields fields).IsData :=
  areEntries_map hFields

theorem isData_ofText (text : String) : (ofText text).IsData := rfl

theorem isData_ofNat (word : UInt64) : (ofNat word.toNat).IsData := by
  refine ⟨Int.natCast_nonneg _, ?_⟩
  exact Int.ofNat_lt.mpr word.toNat_lt

theorem isData_ofOption {α : Type} {write : α → Document} (hWrite : ∀ a, (write a).IsData)
    (value : Option α) : (ofOption write value).IsData := by
  cases value with
  | none => trivial
  | some a => exact hWrite a

end Document

end VersionedCatalog
