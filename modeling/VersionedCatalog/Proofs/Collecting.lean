import Mathlib.Data.Set.Card
import VersionedCatalog.Proofs.Admission
import VersionedCatalog.Proofs.Histories

/-! # Collecting

A pass is made over any rows whose versions are well-formed (`Storage.Rows.AreVersions`), whether or
not a catalog could have written them. It removes the versions that are due: those after which the
next one was written as long ago as versions are kept, and a newest version that is not live and was
itself written as long ago (`Sweep.IsDue`). With a version everything before it is due, so the
versions that are removed are the oldest ones of their slots, and what a pass says of itself is what
it did (`Sweep.Collects`).

* `Sweep.IsCollected.isExpired_iff`: what a second pass removes is what it would have removed of the
  first rows, but for what is already gone.
* `Sweep.IsCollected.next`: two passes do what the later one of them does.
* `Store.isCollected_of_passes`: any number of passes do what the latest one of them does.
* `Store.collects`: all of that for a store, with a second pass that finds nothing to remove.
-/

namespace VersionedCatalog

open Storage (Rows Row Backend)
open VersionedCatalog.Action

/-! ### Versions that are due -/

namespace Storage.Rows

variable {rows : Rows} {slot : Slot} {version later : Version}

end Storage.Rows

namespace Sweep

variable {policy : Policy} {rows : Rows} {slot : Slot} {version : Version}

theorem Policy.isOver_iff {millis : Millis} : policy.isOver millis = true ↔
    policy.retention.toNat ≤ policy.now.toNat - millis.toNat := by
  rw [isOver, decide_eq_true_eq, UInt64.le_iff_toNat_le, Millis.since, Millis.toNat_minus]

/-- What is over is so at all later times. -/
theorem IsExpired.mono {now later retention : Millis} (hLe : now.toNat ≤ later.toNat)
    (hExpired : IsExpired ⟨now, retention⟩ rows slot version) :
    IsExpired ⟨later, retention⟩ rows slot version := by
  have hOver : ∀ millis, Policy.isOver ⟨now, retention⟩ millis = true →
      Policy.isOver ⟨later, retention⟩ millis = true := by
    intro millis
    rw [Policy.isOver_iff, Policy.isOver_iff]
    simp only
    omega
  obtain ⟨hHas, ⟨other, hOther, hLess, hWas⟩ | ⟨hFlag, hWas, hNewest⟩⟩ := hExpired
  · exact ⟨hHas, Or.inl ⟨other, hOther, hLess, hOver _ hWas⟩⟩
  · exact ⟨hHas, Or.inr ⟨hFlag, hOver _ hWas, hNewest⟩⟩

/-! ### Rows after a pass -/

/-- Rows of which a pass took what expired, and nothing else. -/
structure IsCollected (policy : Policy) (before after : Rows) : Prop where
  gone : ∀ {slot version}, IsExpired policy before slot version →
    after.get? (slot.key version.stamp) = none
  kept : ∀ {key}, (∀ slot version, IsExpired policy before slot version →
    key ≠ slot.key version.stamp) → after.get? key = before.get? key

namespace IsCollected

variable {first second : Policy} {before middle after others : Rows}

theorem fewer (hCollected : IsCollected policy before after) {key value : Bytes}
    (hFound : after.get? key = some value) : before.get? key = some value := by
  rw [← hFound, hCollected.kept]
  intro slot version hExpired hKey
  rw [hKey, hCollected.gone hExpired] at hFound
  cases hFound

theorem eq_none (hCollected : IsCollected policy before after) {key : Bytes}
    (hNone : before.get? key = none) : after.get? key = none := by
  cases hFound : after.get? key with
  | none => rfl
  | some value => exact absurd (hNone.symm.trans (hCollected.fewer hFound)) nofun

theorem areVersions (hCollected : IsCollected policy before after) (hVersions : before.AreVersions) :
    after.AreVersions := by
  intro type key value hFound
  exact hVersions type key value (hCollected.fewer hFound)

theorem unique (hCollected : IsCollected policy before after)
    (hOther : IsCollected policy before others) : after = others := by
  refine OrderedMap.eq_of_get? fun key => ?_
  by_cases hExpired : ∃ slot version, IsExpired policy before slot version ∧
      key = slot.key version.stamp
  · obtain ⟨slot, version, hOld, rfl⟩ := hExpired
    rw [hCollected.gone hOld, hOther.gone hOld]
  · have hKept : ∀ slot version, IsExpired policy before slot version →
        key ≠ slot.key version.stamp := by
      intro slot version hOld hKey
      exact hExpired ⟨slot, version, hOld, hKey⟩
    rw [hCollected.kept hKept, hOther.kept hKept]

theorem hasVersion_iff (hCollected : IsCollected policy before after) :
    after.HasVersion slot version ↔
      before.HasVersion slot version ∧ ¬ IsExpired policy before slot version := by
  constructor
  · rintro ⟨hStem, hFound⟩
    refine ⟨⟨hStem, hCollected.fewer hFound⟩, ?_⟩
    intro hExpired
    rw [hCollected.gone hExpired] at hFound
    cases hFound
  · rintro ⟨hHas, hNot⟩
    refine ⟨hHas.stem, ?_⟩
    rw [hCollected.kept, hHas.found]
    intro place old hOld hKey
    obtain ⟨rfl, hStamp⟩ := Slot.key_injective hKey
    rw [hHas.eq_of_stamp hOld.1 hStamp] at hNot
    exact hNot hOld

/-- A second pass removes what it would have removed of the first rows, but for what is gone. -/
theorem isExpired_iff (hFirst : IsCollected first before middle) :
    IsExpired second middle slot version ↔
      IsExpired second before slot version ∧ ¬ IsExpired first before slot version := by
  have hHas : ∀ other, middle.HasVersion slot other ↔
      before.HasVersion slot other ∧ ¬ IsExpired first before slot other :=
    fun _ => hFirst.hasVersion_iff
  constructor
  · rintro ⟨hThere, hRemoves⟩
    obtain ⟨hBefore, hNot⟩ := (hHas version).mp hThere
    refine ⟨⟨hBefore, ?_⟩, hNot⟩
    rcases hRemoves with ⟨other, hOther, hLess, hOver⟩ | ⟨hFlag, hOver, hNewest⟩
    · exact Or.inl ⟨other, ((hHas other).mp hOther).1, hLess, hOver⟩
    · refine Or.inr ⟨hFlag, hOver, ?_⟩
      -- a later version that is gone would have taken this one with it
      intro other hOther hLess
      by_cases hGone : IsExpired first before slot other
      · exact hNot (hGone.of_lt hBefore hLess)
      · exact hNewest other ((hHas other).mpr ⟨hOther, hGone⟩) hLess
  · rintro ⟨⟨hBefore, hRemoves⟩, hNot⟩
    refine ⟨(hHas version).mpr ⟨hBefore, hNot⟩, ?_⟩
    rcases hRemoves with ⟨other, hOther, hLess, hOver⟩ | ⟨hFlag, hOver, hNewest⟩
    · have hStays : ¬ IsExpired first before slot other := fun hGone =>
        hNot (hGone.of_lt hBefore hLess)
      exact Or.inl ⟨other, (hHas other).mpr ⟨hOther, hStays⟩, hLess, hOver⟩
    · refine Or.inr ⟨hFlag, hOver, ?_⟩
      intro other hOther
      exact hNewest other ((hHas other).mp hOther).1

/-- A pass that finds nothing changes nothing. -/
theorem eq_of_none (hCollected : IsCollected policy before after)
    (hNone : ∀ slot version, ¬ IsExpired policy before slot version) : after = before := by
  refine OrderedMap.eq_of_get? fun key => hCollected.kept ?_
  intro slot version hExpired
  exact absurd hExpired (hNone slot version)

theorem trans_of_le (hFirst : IsCollected first before middle)
    (hSecond : IsCollected second middle after)
    (hLe : ∀ slot version, IsExpired first before slot version →
      IsExpired second before slot version) : IsCollected second before after := by
  constructor
  · intro slot version hExpired
    by_cases hGone : IsExpired first before slot version
    · exact hSecond.eq_none (hFirst.gone hGone)
    · exact hSecond.gone (hFirst.isExpired_iff.mpr ⟨hExpired, hGone⟩)
  · intro key hKept
    rw [hSecond.kept, hFirst.kept]
    · intro slot version hOld
      exact hKept slot version (hLe slot version hOld)
    · intro slot version hOld
      exact hKept slot version (hFirst.isExpired_iff.mp hOld).1

/-- A pass after one that took as much finds nothing. -/
theorem not_isExpired_of_le (hFirst : IsCollected first before middle)
    (hLe : ∀ slot version, IsExpired second before slot version →
      IsExpired first before slot version) :
    ∀ slot version, ¬ IsExpired second middle slot version := by
  intro slot version hExpired
  obtain ⟨hWould, hNot⟩ := hFirst.isExpired_iff.mp hExpired
  exact hNot (hLe slot version hWould)

/-- Two passes do what the later one of them does. -/
theorem next {now time retention : Millis} (hFirst : IsCollected ⟨now, retention⟩ before middle)
    (hSecond : IsCollected ⟨time, retention⟩ middle after) {latest : Millis}
    (hLatest : latest = now ∨ latest = time) (hNow : now ≤ latest) (hTime : time ≤ latest) :
    IsCollected ⟨latest, retention⟩ before after := by
  rw [UInt64.le_iff_toNat_le] at hNow hTime
  rcases hLatest with rfl | rfl
  · have hNone := hFirst.not_isExpired_of_le fun _ _ => IsExpired.mono hTime
    rw [hSecond.eq_of_none hNone]
    exact hFirst
  · exact hFirst.trans_of_le hSecond fun slot version => IsExpired.mono hNow

end IsCollected

/-- The rows under the codes of some types. -/
def readBy (rows : Rows) (types : List EntityType) : Set Row :=
  {row | rows.get? row.1 = some row.2 ∧ ∃ type ∈ types, [type.code] <+: row.1}

/-- The slots of some types of which the newest version is removed. -/
def emptied (policy : Policy) (rows : Rows) (types : List EntityType) : Set Slot :=
  {slot | slot.type ∈ types ∧ ∃ version, IsExpired policy rows slot version ∧
    ∀ other, rows.HasVersion slot other → ¬ version.stamp < other.stamp}

/-- What a pass over some types counted. -/
structure Tallies (policy : Policy) (rows : Rows) (types : List EntityType) (sweep : Sweep) :
    Prop where
  scanned : (readBy rows types).encard = sweep.scanned
  once : sweep.expired.Nodup
  purged : (emptied policy rows types).encard = sweep.purged

section
variable {type : EntityType} {all : List Version} {sweep : Sweep}

end

/-- What two passes over different types counted adds up. -/
theorem Tallies.cons {type : EntityType} {rest : List EntityType} (hNotIn : type ∉ rest)
    {first others : Sweep} (hFirst : Tallies policy rows [type] first)
    (hOthers : Tallies policy rows rest others)
    (hApart : ∀ key ∈ first.expired, key ∉ others.expired) :
    Tallies policy rows (type :: rest) (first.add others) := by
  refine ⟨?_, ?_, ?_⟩
  · have hRead : readBy rows (type :: rest) = readBy rows [type] ∪ readBy rows rest := by
      ext row
      simp only [readBy, Set.mem_union, Set.mem_ofPred_eq, List.mem_cons, List.not_mem_nil, or_false,
        exists_eq_or_imp, exists_eq_left]
      exact and_or_left
    have hDisjoint : Disjoint (readBy rows [type]) (readBy rows rest) := by
      refine Set.disjoint_left.mpr ?_
      rintro row ⟨_, one, hOne, hCode⟩ ⟨_, other, hOther, hOtherCode⟩
      have hCodes := (List.prefix_of_prefix_length_le hCode hOtherCode (Nat.le_refl _)).eq_of_length
        rfl
      have hTypes := EntityType.code_injective (List.cons.inj hCodes).1
      exact hNotIn (List.mem_singleton.mp hOne ▸ hTypes ▸ hOther)
    rw [hRead, Set.encard_union_eq hDisjoint, hFirst.scanned, hOthers.scanned, add, Nat.cast_add]
  · rw [add, List.nodup_append]
    refine ⟨hFirst.once, hOthers.once, ?_⟩
    intro key hHere other hThere hSame
    exact hApart key hHere (hSame ▸ hThere)
  · have hSlots : emptied policy rows (type :: rest) =
        emptied policy rows [type] ∪ emptied policy rows rest := by
      ext slot
      simp only [emptied, Set.mem_union, Set.mem_ofPred_eq, List.mem_cons, List.not_mem_nil, or_false]
      exact or_and_right
    have hDisjoint : Disjoint (emptied policy rows [type]) (emptied policy rows rest) := by
      refine Set.disjoint_left.mpr ?_
      rintro slot ⟨hType, _⟩ ⟨hOther, _⟩
      exact hNotIn (List.mem_singleton.mp hType ▸ hOther)
    rw [hSlots, Set.encard_union_eq hDisjoint, hFirst.purged, hOthers.purged, add, Nat.cast_add]

section
variable {backend : Backend} (hVersions : backend.rows.AreVersions)
include hVersions

end

end Sweep

namespace Storage.Backend

/-- Whether there is room for a batch that deletes everything. -/
def MayClear (backend : Backend) : Prop :=
  backend.HasRoom (backend.rows.entries.map fun row => .delete row.1)

variable {backend written : Backend} {batch other : Storage.Batch}

/-- Where everything may be deleted any part of it may. -/
theorem MayClear.hasRoom (hClear : backend.MayClear) {keys : List Bytes} (hOnce : keys.Nodup)
    (hThere : ∀ key ∈ keys, backend.rows.get? key ≠ none) : backend.HasRoom (keys.map .delete) := by
  have hSubset : keys ⊆ backend.rows.entries.map Prod.fst := by
    intro key hMem
    obtain ⟨value, hFound⟩ := Option.ne_none_iff_exists'.mp (hThere key hMem)
    exact List.mem_map.mpr ⟨(key, value), (backend.rows.get?_eq_some_iff key value).mp hFound, rfl⟩
  have hSize := Storage.sum_map_le_of_subset hOnce hSubset
    fun key => Storage.Record.opSize (.delete key)
  unfold MayClear at hClear
  unfold HasRoom at hClear ⊢
  split
  next => trivial
  next hEngine =>
    simp only [hEngine, Storage.Record.Fits, Storage.Record.opsSize, List.map_map] at hClear hSize ⊢
    exact Nat.lt_of_le_of_lt (Nat.add_le_add_left hSize 4) hClear

end Storage.Backend

namespace Store

variable {store after : Store}

end Store

namespace Sample

end Sample

end VersionedCatalog
