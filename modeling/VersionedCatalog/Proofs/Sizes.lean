import VersionedCatalog.Proofs.Payloads

/-! # Sizes

CBOR has room for lengths of one word, JSON for any. A document of data whose texts, lists and
dictionaries are no longer is written in either format (`Format.exists_write?`), so an entity of
which all parts have such a length can be encoded (`Entity.exists_encode`).
-/

namespace VersionedCatalog

namespace Document

/-- Whether the length of a part is a word. -/
def isSizedPart : Document → Bool
  | .text value _ => (Utf8.encode value).length < UInt64.size
  | .list items => items.length < UInt64.size
  | .dict entries => entries.length < UInt64.size
  | _ => true

def isSized (document : Document) : Bool := document.every isSizedPart

end Document

open Document

namespace Cbor

theorem exists_writeHead? (major : Nat) {n : Nat} (hWord : n < UInt64.size) :
    ∃ head, writeHead? major n = some head := by
  cases hHead : writeHead? major n with
  | some head => exact ⟨head, rfl⟩
  | none =>
    simp only [writeHead?, if_pos hWord] at hHead
    repeat' split at hHead
    all_goals cases hHead

mutual

theorem exists_write? (document : Document) (hData : document.IsData)
    (hSized : document.isSized = true) : ∃ body, write? document = some body := by
  cases document with
  | absent => exact ⟨_, rfl⟩
  | bool value => exact ⟨_, rfl⟩
  | int value =>
    have hWord : value.toNat < UInt64.size := (Int.toNat_lt hData.1).mpr hData.2
    rw [write?, if_pos hData.1]
    exact exists_writeHead? 0 hWord
  | text value whole =>
    obtain ⟨head, hHead⟩ := exists_writeHead? 3 (of_decide_eq_true hSized)
    exact ⟨_, by rw [write?, hHead]; rfl⟩
  | list items =>
    obtain ⟨hLength, hItems⟩ := Bool.and_eq_true_iff.mp hSized
    obtain ⟨head, hHead⟩ := exists_writeHead? 4 (of_decide_eq_true hLength)
    obtain ⟨body, hBody⟩ := exists_writeItems? items hData hItems
    exact ⟨_, by rw [write?, hHead, hBody]; rfl⟩
  | dict entries =>
    obtain ⟨hLength, hEntries⟩ := Bool.and_eq_true_iff.mp hSized
    obtain ⟨head, hHead⟩ := exists_writeHead? 5 (of_decide_eq_true hLength)
    obtain ⟨body, hBody⟩ := exists_writeEntries? entries hData hEntries
    exact ⟨_, by rw [write?, hHead, hBody]; rfl⟩
  | _ => cases hData

theorem exists_writeItems? (items : List Document) (hData : AreData items)
    (hSized : everyItem isSizedPart items = true) : ∃ body, writeItems? items = some body := by
  cases items with
  | nil => exact ⟨_, rfl⟩
  | cons item rest =>
    obtain ⟨hFirst, hRest⟩ := Bool.and_eq_true_iff.mp hSized
    obtain ⟨first, hItem⟩ := exists_write? item hData.1 hFirst
    obtain ⟨others, hOthers⟩ := exists_writeItems? rest hData.2 hRest
    exact ⟨_, by rw [writeItems?, hItem, hOthers]; rfl⟩

theorem exists_writeEntries? (entries : List (Document × Document)) (hData : AreEntries entries)
    (hSized : everyEntry isSizedPart entries = true) :
    ∃ body, writeEntries? entries = some body := by
  cases entries with
  | nil => exact ⟨_, rfl⟩
  | cons entry rest =>
    obtain ⟨key, value⟩ := entry
    obtain ⟨⟨name, hName⟩, hValue, hMore⟩ := hData
    obtain ⟨hBoth, hRest⟩ := Bool.and_eq_true_iff.mp hSized
    obtain ⟨hKeySized, hValueSized⟩ := Bool.and_eq_true_iff.mp hBoth
    obtain ⟨first, hFirst⟩ := exists_write? key (by rw [hName]; exact isData_ofText name) hKeySized
    obtain ⟨second, hSecond⟩ := exists_write? value hValue hValueSized
    obtain ⟨others, hOthers⟩ := exists_writeEntries? rest hMore hRest
    exact ⟨_, by rw [writeEntries?, hFirst, hSecond, hOthers]; rfl⟩

end

end Cbor

namespace Json

mutual

theorem exists_write? (document : Document) (hData : document.IsData) :
    ∃ body, write? document = some body := by
  cases document with
  | absent => exact ⟨_, rfl⟩
  | bool value => exact ⟨_, rfl⟩
  | int value => exact ⟨_, rfl⟩
  | text value whole => exact ⟨_, rfl⟩
  | list items =>
    obtain ⟨parts, hParts⟩ := exists_writeItems? items hData
    exact ⟨_, by rw [write?, hParts]; rfl⟩
  | dict entries =>
    obtain ⟨parts, hParts⟩ := exists_writeEntries? entries hData
    exact ⟨_, by rw [write?, hParts]; rfl⟩
  | _ => cases hData

theorem exists_writeItems? (items : List Document) (hData : AreData items) :
    ∃ parts, writeItems? items = some parts := by
  cases items with
  | nil => exact ⟨_, rfl⟩
  | cons item rest =>
    obtain ⟨first, hFirst⟩ := exists_write? item hData.1
    obtain ⟨others, hOthers⟩ := exists_writeItems? rest hData.2
    exact ⟨_, by rw [writeItems?, hFirst, hOthers]; rfl⟩

theorem exists_writeEntries? (entries : List (Document × Document)) (hData : AreEntries entries) :
    ∃ parts, writeEntries? entries = some parts := by
  cases entries with
  | nil => exact ⟨_, rfl⟩
  | cons entry rest =>
    obtain ⟨key, value⟩ := entry
    obtain ⟨⟨name, rfl⟩, hValue, hMore⟩ := hData
    obtain ⟨second, hSecond⟩ := exists_write? value hValue
    obtain ⟨others, hOthers⟩ := exists_writeEntries? rest hMore
    exact ⟨_, by rw [writeEntries?, hSecond, hOthers]; rfl⟩

end

end Json

theorem Format.exists_write? (format : Format) {document : Document} (hData : document.IsData)
    (hSized : document.isSized = true) : ∃ body, format.write? document = some body := by
  cases format with
  | cbor => exact Cbor.exists_write? document hData hSized
  | json => exact Json.exists_write? document hData

namespace Entity

/-- Whether every part of an entity can be written with its length. -/
def IsSized (entity : Entity) : Prop := entity.toDocument.isSized = true

instance (entity : Entity) : Decidable entity.IsSized := inferInstanceAs (Decidable (_ = true))

theorem exists_encode {entity : Entity} (hSized : entity.IsSized) (format : Format) :
    ∃ payload, entity.encode format = .ok payload := by
  obtain ⟨body, hBody⟩ := format.exists_write? entity.isData_toDocument hSized
  refine ⟨Frame.header format ++ body, ?_⟩
  rw [encode, Frame.encode, hBody]
  rfl

end Entity

end VersionedCatalog
