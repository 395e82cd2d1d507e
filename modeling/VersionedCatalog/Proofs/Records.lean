import VersionedCatalog.Document.Reading
import VersionedCatalog.Proofs.Data

/-! # Reading records back

A field is found under the name it was written with, and every kind of value reads as what was
written, in each of the three dialects. The statements are about what a reader finds of a document
(`Document.seen`), so they hold for both formats; a source must only know the spelling that its
format has for the missing value (`Source.Reads`).
-/

namespace VersionedCatalog

namespace Source

/-- Whether a source is one that documents of a format are read from. -/
def Reads (source : Source) (format : Format) : Prop :=
  source.dialect = .buffered ∨ source.dialect = format.source.dialect

theorem reads_source (format : Format) : format.source.Reads format := Or.inr rfl

theorem reads_buffered (format : Format) : buffered.Reads format := Or.inl rfl

theorem Reads.inner {source : Source} {format : Format} (hReads : source.Reads format) :
    source.inner.Reads format := hReads

theorem bare_of_not_tagged (source : Source) (document : Document)
    (hPlain : ∀ tag item, document ≠ .tagged tag item) : source.bare document = document := by
  unfold bare
  split
  next =>
    cases document with
    | tagged tag item => exact absurd rfl (hPlain tag item)
    | _ => rfl
  next => rfl

section
variable {source : Source} {format : Format}

theorem text?_seen (source : Source) (format : Format) (s : String) :
    source.text? ((Document.ofText s).seen format) = some s := by
  have hBare := source.bare_of_not_tagged (.ofText s) (fun _ _ hEq => by cases hEq)
  simp only [Document.ofText] at hBare
  simp only [Document.ofText, Document.seen, text?, hBare]

theorem flag?_seen (value : Bool) : source.flag? ((Document.bool value).seen format) = some value := by
  have hBare := source.bare_of_not_tagged (.bool value) (fun _ _ hEq => by cases hEq)
  simp only [Document.seen, flag?, hBare, bool?]

theorem word?_seen (word : UInt64) :
    source.word? ((Document.ofNat word.toNat).seen format) = some word := by
  have hInt : source.int? (.int word.toNat) = some (word.toNat : Int) := by
    unfold int?
    split <;> rfl
  have hSmall : word.toNat < UInt64.size := word.toNat_lt
  have hRange : (0 : Int) ≤ word.toNat ∧ (word.toNat : Int) < UInt64.size :=
    ⟨Int.natCast_nonneg _, Int.ofNat_lt.mpr hSmall⟩
  have hSeen : (Document.ofNat word.toNat).seen format = .int word.toNat := rfl
  rw [hSeen, word?, hInt, Option.bind_eq_bind, Option.bind_some, if_pos hRange,
    Int.toNat_natCast, UInt64.ofNat_toNat]

theorem isMissing_seen (hReads : source.Reads format) :
    source.isMissing (Document.absent.seen format) = true := by
  cases format with
  | cbor =>
    refine decide_eq_true fun hJson => ?_
    rcases hReads with hEq | hEq <;> rw [hEq] at hJson <;> cases hJson
  | json =>
    refine decide_eq_true fun hCbor => ?_
    rcases hReads with hEq | hEq <;> rw [hEq] at hCbor <;> cases hCbor

theorem option?_seen {α : Type} {write : α → Document} {read? : Document → Option α}
    (hReads : source.Reads format) (hPresent : ∀ a, source.isMissing ((write a).seen format) = false)
    (hRead : ∀ a, read? ((write a).seen format) = some a) (value : Option α) :
    source.option? read? ((Document.ofOption write value).seen format) = some value := by
  cases value with
  | none => rw [Document.ofOption, option?, if_pos (isMissing_seen hReads)]
  | some a => simp [Document.ofOption, option?, hPresent a, hRead a]

theorem optionalText?_seen (hReads : source.Reads format) (value : Option String) :
    source.option? source.text? ((Document.ofOption .ofText value).seen format) = some value :=
  option?_seen hReads (fun _ => rfl) (text?_seen source format) value

theorem optionalWord?_seen (hReads : source.Reads format) (value : Option UInt64) :
    source.option? source.word?
      ((Document.ofOption (fun time => .ofNat time.toNat) value).seen format) = some value :=
  option?_seen hReads (fun _ => rfl) word?_seen value

theorem mapM_seen {α : Type} {write : α → Document} {read? : Document → Option α}
    (hRead : ∀ a, read? ((write a).seen format) = some a) (items : List α) :
    ((items.map write).map (Document.seen format)).mapM read? = some items := by
  induction items with
  | nil => rfl
  | cons a items ih =>
    rw [List.map_cons, List.map_cons, List.mapM_cons, hRead a, ih]
    rfl

theorem list?_seen (source : Source) (format : Format) {α : Type} {write : α → Document}
    {read? : Document → Option α} (hRead : ∀ a, read? ((write a).seen format) = some a)
    (items : List α) :
    source.list? read? ((Document.list (items.map write)).seen format) = some items := by
  have hBare := source.bare_of_not_tagged
    (.list ((items.map write).map (Document.seen format))) (fun _ _ hEq => by cases hEq)
  have hItems : source.items? ((Document.list (items.map write)).seen format) =
      some ((items.map write).map (Document.seen format)) := by
    simp only [Document.seen, Document.seenItems_eq_map, items?, hBare]
  rw [list?, hItems]
  exact mapM_seen hRead items

theorem pairs?_seen (entries : List (String × String)) :
    source.pairs? source.text? source.text? ((Document.dict (entries.map fun entry =>
      (.ofText entry.1, .ofText entry.2))).seen format) = some entries := by
  have hBare := fun entries => source.bare_of_not_tagged (.dict entries)
    (fun _ _ hEq => by cases hEq)
  rw [pairs?, entries?, Document.seen, Document.seenEntries_eq_map, hBare]
  show List.mapM _ _ = some entries
  induction entries with
  | nil => rfl
  | cons entry rest ih =>
    have hKey : source.text? (Document.ofText entry.1) = some entry.1 := by
      have hSeen := text?_seen source .cbor entry.1
      rwa [Document.seen_cbor] at hSeen
    have hValue := text?_seen source format entry.2
    rw [List.map_cons, List.map_cons, List.mapM_cons, ih, hKey, hValue]
    rfl

theorem texts?_seen (texts : OrderedMap String String) :
    source.texts? ((Document.dict (texts.entries.map fun entry =>
      (.ofText entry.1, .ofText entry.2))).seen format) = some texts := by
  rw [texts?, pairs?_seen, Option.map_some, OrderedMap.ofList_entries]

end

/-! ### Fields -/

theorem pick_name {names : List String} {name : String} (hMem : name ∈ names) :
    (Label.name (Utf8.encode name)).pick names = some name := by
  cases hFound : (Label.name (Utf8.encode name)).pick names with
  | none =>
    have hNone := List.find?_eq_none.mp hFound name hMem
    exact absurd (decide_eq_true rfl) hNone
  | some found =>
    have hTest : decide (Utf8.encode found = Utf8.encode name) = true :=
      List.find?_some (p := fun other => decide (Utf8.encode other = Utf8.encode name)) hFound
    rw [Utf8.encode_injective (of_decide_eq_true hTest)]

theorem label?_ofText (source : Source) {name : String}
    (hShort : (Utf8.encode name).length ≤ longestName) :
    source.label? (.ofText name) = some (.name (Utf8.encode name)) := by
  have hBare := source.bare_of_not_tagged (.ofText name) (fun _ _ hEq => by cases hEq)
  simp only [Document.ofText] at hBare
  unfold label?
  rw [Document.ofText, hBare]
  cases source.dialect with
  | cbor => simp [wholeName?, hShort]
  | json => rfl
  | buffered => rfl

theorem variant?_ofText {α : Type} {names : List (String × α)} {format : Format} {name : String}
    (hMem : name ∈ names.map (·.1)) :
    variant? names ((Document.ofText name).seen format) = names.lookup name := by
  have hPick := pick_name hMem
  simp only [variant?, Document.ofText, Document.seen, Option.bind_eq_bind, Option.bind_some, hPick]

end Source

namespace Fields

/-- A record with known names has the fields that were written. -/
theorem collect?_fields (source : Source) {names : List String} {fields : Fields}
    (hNodup : (fields.map (·.1)).Nodup)
    (hKnown : ∀ field ∈ fields, field.1 ∈ names ∧ (Utf8.encode field.1).length ≤ Source.longestName) :
    collect? source names (fields.map fun field => (.ofText field.1, field.2)) = some fields := by
  induction fields with
  | nil => rfl
  | cons field rest ih =>
    obtain ⟨hFirst, hRest⟩ := List.forall_mem_cons.mp hKnown
    rw [List.map_cons, List.nodup_cons] at hNodup
    have hOnce : (rest.lookup field.1).isSome = false := by
      cases hFound : rest.lookup field.1 with
      | none => rfl
      | some value =>
        obtain ⟨front, back, hEq, _⟩ := List.lookup_eq_some_iff.mp hFound
        exact absurd (List.mem_map.mpr ⟨(field.1, value), by rw [hEq]; simp, rfl⟩) hNodup.1
    rw [List.map_cons, collect?, ih hNodup.2 hRest, source.label?_ofText hFirst.2]
    simp [Source.pick_name hFirst.1, hOnce]

theorem ofDocument?_ofFields (source : Source) (format : Format) {names : List String}
    {fields : Fields} (hNames : fields.map (·.1) = names) (hNodup : names.Nodup)
    (hShort : ∀ name ∈ names, (Utf8.encode name).length ≤ Source.longestName) :
    ofDocument? source names ((Document.ofFields fields).seen format) =
      some (fields.map fun field => (field.1, field.2.seen format)) := by
  have hBare := fun entries => source.bare_of_not_tagged (.dict entries)
    (fun _ _ hEq => by cases hEq)
  have hSeen : (fields.map fun field => (field.1, field.2.seen format)).map (·.1) = names := by
    rw [List.map_map]
    exact hNames
  rw [Document.seen_ofFields]
  simp only [ofDocument?, Document.ofFields, hBare]
  refine collect?_fields source (hSeen ▸ hNodup) fun field hMem => ?_
  have hName : field.1 ∈ names := hSeen ▸ List.mem_map.mpr ⟨field, hMem, rfl⟩
  exact ⟨hName, hShort field.1 hName⟩

end Fields

end VersionedCatalog
