import VersionedCatalog.Proofs.Backends
import VersionedCatalog.Proofs.Ranges

/-! # Scans

An open backend of either kind reads the rows below a stem as the range from the stem to a bound.
The bound is the stem up to its last byte that can still grow, with this byte raised, and a stem
without such a byte has none (`Bytes.next?_eq_some_iff`, `Bytes.next?_eq_none_iff`), so the range
never ends before it starts. It holds the rows whose keys start with the stem and no others
(`Backend.scans_exactly`).
-/

namespace VersionedCatalog

namespace Bytes

/-- The greatest bytes at the end of a stem do not count. -/
theorem next?_append_full (stem : Bytes) {full : Bytes} (hFull : ∀ b ∈ full, b = 255) :
    next? (stem ++ full) = next? stem := by
  induction stem with
  | nil =>
    induction full with
    | nil => rfl
    | cons b rest ih =>
      obtain ⟨rfl, hRest⟩ := List.forall_mem_cons.mp hFull
      have hNone : next? rest = none := ih hRest
      show next? (255 :: rest) = none
      rw [next?, hNone]
      rfl
  | cons b stem ih => rw [List.cons_append, next?, ih, next?]

theorem next?_concat (stem : Bytes) {b : UInt8} (hSmall : b < 255) :
    next? (stem ++ [b]) = some (stem ++ [b + 1]) := by
  induction stem with
  | nil => exact if_pos hSmall
  | cons c stem ih => rw [List.cons_append, next?, ih]; rfl

theorem eq_full_of_not_lt {b : UInt8} (hFull : ¬ b < 255) : b = 255 := by
  have hTop : b.toNat ≤ 255 := Nat.le_of_lt_succ b.toNat_lt
  exact UInt8.le_antisymm (UInt8.le_iff_toNat_le.mpr hTop) (UInt8.not_lt.mp hFull)

/-- A stem is made of greatest bytes, or the last other one has only such bytes behind it. -/
theorem full_or_exists_last (stem : Bytes) : (∀ b ∈ stem, b = 255) ∨
    ∃ front b full, stem = front ++ b :: full ∧ b < 255 ∧ ∀ c ∈ full, c = 255 := by
  induction stem with
  | nil => exact Or.inl fun b hMem => absurd hMem List.not_mem_nil
  | cons b rest ih =>
    rcases ih with hRest | ⟨front, c, full, rfl, hSmall, hFull⟩
    · by_cases hSmall : b < 255
      · exact Or.inr ⟨[], b, rest, rfl, hSmall, hRest⟩
      · exact Or.inl (List.forall_mem_cons.mpr ⟨eq_full_of_not_lt hSmall, hRest⟩)
    · exact Or.inr ⟨b :: front, c, full, rfl, hSmall, hFull⟩

theorem next?_of_last {front full : Bytes} {b : UInt8} (hSmall : b < 255)
    (hFull : ∀ c ∈ full, c = 255) : next? (front ++ b :: full) = some (front ++ [b + 1]) := by
  have hSplit : front ++ b :: full = (front ++ [b]) ++ full := by simp
  rw [hSplit, next?_append_full _ hFull, next?_concat _ hSmall]

theorem next?_eq_none_iff {stem : Bytes} : next? stem = none ↔ ∀ b ∈ stem, b = 255 := by
  refine ⟨next?_eq_none_of_last, fun hFull => ?_⟩
  have hNothing := next?_append_full [] hFull
  rwa [List.nil_append] at hNothing

theorem next?_eq_some_iff {stem bound : Bytes} : next? stem = some bound ↔
    ∃ front b full, stem = front ++ b :: full ∧ b < 255 ∧ (∀ c ∈ full, c = 255) ∧
      bound = front ++ [b + 1] := by
  constructor
  · intro hNext
    rcases full_or_exists_last stem with hFull | ⟨front, b, full, rfl, hSmall, hFull⟩
    · rw [next?_eq_none_iff.mpr hFull] at hNext
      cases hNext
    · rw [next?_of_last hSmall hFull] at hNext
      exact ⟨front, b, full, rfl, hSmall, hFull, (Option.some.inj hNext).symm⟩
  · rintro ⟨front, b, full, rfl, hSmall, hFull, rfl⟩
    exact next?_of_last hSmall hFull

/-- The range of a stem never ends before it starts. -/
theorem lt_of_next? {stem bound : Bytes} (hNext : next? stem = some bound) : stem < bound :=
  ((isPrefix_iff_between hNext).mp List.prefix_rfl).2

end Bytes

namespace Storage

/-- **Scans are exact.**  For every stem, an open backend of either kind answers a scan with the
rows whose keys start with it, in ascending order, and asked for the last of them it answers the
last one of these, if there is any. What it reads is a range that never ends before it starts: from
the stem to a bound that is there unless the stem is made of greatest bytes. -/
theorem Backend.scans_exactly {engine : Engine} (hOpen : engine.isClosed = false) (stem : Bytes) :
    ∃ rows, (ofEngine engine).scan stem = .ok rows ∧
      (ofEngine engine).last stem = .ok rows.getLast? ∧
      rows = engine.rows.entries.filter (fun row => stem.isPrefixOf row.1) ∧
      (∀ row, row ∈ rows ↔ engine.rows.get? row.1 = some row.2 ∧ stem <+: row.1) ∧
      rows.Pairwise (fun a b => a.1 < b.1) ∧
      rows = engine.rows.range stem (Bytes.next? stem) ∧
      (∀ bound, Bytes.next? stem = some bound ↔ ∃ front b full, stem = front ++ b :: full ∧
        b < 255 ∧ (∀ c ∈ full, c = 255) ∧ bound = front ++ [b + 1]) ∧
      ∀ bound, Bytes.next? stem = some bound → stem < bound := by
  have hBackend : (ofEngine engine).isClosed = false := hOpen
  exact ⟨engine.rows.below stem, scan_of_open hBackend rfl stem, last_of_open hBackend rfl stem,
    Rows.below_eq_filter engine.rows stem, Rows.mem_below_iff engine.rows stem,
    Rows.below_ascending engine.rows stem, rfl, fun _ => Bytes.next?_eq_some_iff,
    fun _ => Bytes.lt_of_next?⟩

end Storage

namespace Sample

open Storage

/-- Rows with keys at, below and above stems that end in greatest bytes. -/
def edgy : Rows :=
  .ofList [([1], []), ([1, 255], [7]), ([1, 255, 255, 3], []), ([2], []), ([255], [])]

theorem scans_exactly_edgy : (Engine.memory edgy false).isClosed = false ∧
    (Backend.inMemory edgy).scan [1, 255] = .ok [([1, 255], [7]), ([1, 255, 255, 3], [])] ∧
    (Backend.inMemory edgy).last [1, 255] = .ok (some ([1, 255, 255, 3], [])) ∧
    Bytes.next? [1, 255] = some [2] := by
  have hOpen : (Engine.memory edgy false).isClosed = false := rfl
  obtain ⟨rows, hScan, hLast, hRows, _, _, _, hBound, _⟩ := Backend.scans_exactly hOpen [1, 255]
  have hFound : rows = [([1, 255], [7]), ([1, 255, 255, 3], [])] := by rw [hRows]; decide +kernel
  rw [hFound] at hScan hLast
  have hFull : ∀ c ∈ ([255] : Bytes), c = 255 := fun _ hMem => List.mem_singleton.mp hMem
  exact ⟨hOpen, hScan, hLast, (hBound [2]).mpr ⟨[], 1, [255], rfl, by decide, hFull, rfl⟩⟩

end Sample

end VersionedCatalog
