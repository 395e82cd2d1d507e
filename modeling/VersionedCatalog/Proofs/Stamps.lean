import Mathlib.Algebra.Group.Nat.Defs
import VersionedCatalog.History.Key

/-! # The order of stamps

A stamp has a rank, its place among all stamps, and stamps compare as their ranks do
(`Stamp.lt_iff_rank`). A stamp that is given out is above the last one and above the stamp of the
version that it follows, unless the last stamp of all has been reached (`Stamp.rank_lt_next`).
The bytes of stamps have the order of the stamps (`Stamp.bytes_lt_iff`), so among keys with one stem
the later version comes later.
-/

namespace VersionedCatalog

namespace Bytes

theorem append_lt_append_iff {a b : Bytes} (x y : Bytes) (hLength : a.length = b.length) :
    a ++ x < b ++ y ↔ a < b ∨ (a = b ∧ x < y) := by
  induction a generalizing b with
  | nil =>
    have hNil : b = [] := List.length_eq_zero_iff.mp hLength.symm
    simp [hNil]
  | cons c a ih =>
    cases b with
    | nil => cases hLength
    | cons d b =>
      rw [List.cons_append, List.cons_append, List.cons_lt_cons_iff, List.cons_lt_cons_iff,
        ih (Nat.succ.inj hLength), List.cons.injEq]
      constructor
      · rintro (hHead | ⟨hSame, hTail | ⟨hEq, hRest⟩⟩)
        · exact Or.inl (Or.inl hHead)
        · exact Or.inl (Or.inr ⟨hSame, hTail⟩)
        · exact Or.inr ⟨⟨hSame, hEq⟩, hRest⟩
      · rintro ((hHead | ⟨hSame, hTail⟩) | ⟨⟨hSame, hEq⟩, hRest⟩)
        · exact Or.inl hHead
        · exact Or.inr ⟨hSame, Or.inl hTail⟩
        · exact Or.inr ⟨hSame, Or.inr ⟨hEq, hRest⟩⟩

theorem big_succ (width n : Nat) :
    big (width + 1) n = big width (n / 256) ++ [UInt8.ofNat (n % 256)] := by
  simp [big, little]

theorem big_lt_of_lt {width m n : Nat} (hLt : m < n) (hFits : n < 256 ^ width) :
    big width m < big width n := by
  induction width generalizing m n with
  | zero => simp at hFits; omega
  | succ width ih =>
    rw [Nat.pow_succ] at hFits
    have hHigh : n / 256 < 256 ^ width := Nat.div_lt_of_lt_mul (by rwa [Nat.mul_comm])
    rw [big_succ, big_succ, append_lt_append_iff _ _ (by rw [length_big, length_big])]
    rcases Nat.lt_or_ge (m / 256) (n / 256) with hAbove | hNotAbove
    · exact Or.inl (ih hAbove hHigh)
    · have hSame : m / 256 = n / 256 := by omega
      refine Or.inr ⟨by rw [hSame], List.cons_lt_cons_iff.mpr (Or.inl ?_)⟩
      rw [UInt8.lt_iff_toNat_lt]
      simp
      omega

theorem big_lt_iff {width m n : Nat} (hM : m < 256 ^ width) (hN : n < 256 ^ width) :
    big width m < big width n ↔ m < n := by
  refine ⟨fun hLt => ?_, fun hLt => big_lt_of_lt hLt hN⟩
  rcases Nat.lt_trichotomy m n with hBelow | hSame | hAbove
  · exact hBelow
  · rw [hSame] at hLt
    exact absurd hLt (List.lt_irrefl _)
  · exact absurd (List.lt_trans hLt (big_lt_of_lt hAbove hM)) (List.lt_irrefl _)

end Bytes

namespace Stamp

/-- The last stamp of all. -/
def last : Stamp := ⟨0xFFFFFFFFFFFFFFFF, 0xFFFFFFFF⟩

/-- How many stamps are before a stamp. -/
def rank (stamp : Stamp) : Nat := stamp.millis.toNat * 0x100000000 + stamp.seq.toNat

theorem rank_last : last.rank = 0x1000000000000000000000000 - 1 := rfl

theorem rank_injective {a b : Stamp} (hRank : a.rank = b.rank) : a = b := by
  have hA := a.seq.toNat_lt
  have hB := b.seq.toNat_lt
  simp only [rank] at hRank
  have hMillis : a.millis.toNat = b.millis.toNat := by omega
  have hSeq : a.seq.toNat = b.seq.toNat := by omega
  cases a
  cases b
  simp only [mk.injEq]
  exact ⟨UInt64.toNat_inj.mp hMillis, UInt32.toNat_inj.mp hSeq⟩

theorem rank_le_last (stamp : Stamp) : stamp.rank ≤ last.rank := by
  have hMillis := stamp.millis.toNat_lt
  have hSeq := stamp.seq.toNat_lt
  rw [rank_last]
  simp only [rank]
  omega

theorem rank_lt_last {stamp : Stamp} (hNotLast : stamp ≠ last) : stamp.rank < last.rank :=
  Nat.lt_of_le_of_ne (rank_le_last stamp) fun hEq => hNotLast (rank_injective hEq)

theorem lt_iff_rank {a b : Stamp} : a < b ↔ a.rank < b.rank := by
  have hA := a.seq.toNat_lt
  have hB := b.seq.toNat_lt
  show a.millis < b.millis ∨ (a.millis = b.millis ∧ a.seq < b.seq) ↔ _
  rw [UInt64.lt_iff_toNat_lt, UInt32.lt_iff_toNat_lt, ← UInt64.toNat_inj]
  simp only [rank]
  omega

theorem not_lt_self (stamp : Stamp) : ¬ stamp < stamp := fun hLt =>
  Nat.lt_irrefl _ (lt_iff_rank.mp hLt)

theorem rank_later (a b : Stamp) : (a.later b).rank = max a.rank b.rank := by
  unfold later
  split
  next hLt => rw [lt_iff_rank] at hLt; omega
  next hNotLt => rw [lt_iff_rank] at hNotLt; omega

theorem later_eq_or (a b : Stamp) : a.later b = a ∨ a.later b = b := by
  unfold later
  split
  next => exact Or.inr rfl
  next => exact Or.inl rfl

/-- The latest of some stamps. -/
def latestOf : List Stamp → Stamp
  | [] => zero
  | stamp :: rest => stamp.later (latestOf rest)

theorem rank_le_latestOf {stamp : Stamp} {stamps : List Stamp} (hMem : stamp ∈ stamps) :
    stamp.rank ≤ (latestOf stamps).rank := by
  induction stamps with
  | nil => cases hMem
  | cons first rest ih =>
    rw [latestOf, rank_later]
    rcases List.mem_cons.mp hMem with rfl | hRest
    · exact Nat.le_max_left _ _
    · exact Nat.le_trans (ih hRest) (Nat.le_max_right _ _)

/-- What holds of some stamps and of the first of all holds of the latest of them. -/
theorem latestOf_of_forall {holds : Stamp → Prop} (hZero : holds zero) {stamps : List Stamp}
    (hAll : ∀ stamp ∈ stamps, holds stamp) : holds (latestOf stamps) := by
  induction stamps with
  | nil => exact hZero
  | cons first rest ih =>
    obtain ⟨hFirst, hRest⟩ := List.forall_mem_cons.mp hAll
    rw [latestOf]
    rcases later_eq_or first (latestOf rest) with hEq | hEq
    · rw [hEq]; exact hFirst
    · rw [hEq]; exact ih hRest

theorem rank_successor {stamp : Stamp} (hNotLast : stamp ≠ last) :
    stamp.successor.rank = stamp.rank + 1 := by
  have hBelow := rank_lt_last hNotLast
  have hSeq := stamp.seq.toNat_lt
  have hMillis := stamp.millis.toNat_lt
  rw [rank_last] at hBelow
  unfold successor
  split
  next hRoom =>
    rw [UInt32.lt_iff_toNat_lt] at hRoom
    simp at hRoom
    simp only [rank, UInt32.toNat_add]
    simp
    omega
  next hFull =>
    rw [UInt32.lt_iff_toNat_lt] at hFull
    simp at hFull
    have hTop : stamp.seq.toNat = UInt32.size - 1 := by simp; omega
    simp only [rank, hTop] at hBelow
    simp only [rank, Millis.toNat_plus, hTop]
    simp at hBelow ⊢
    omega

/-- The stamp that is given out is above the last one and above the one that it follows. -/
theorem rank_lt_next {limit now : Millis} {lastStamp issued : Stamp} {latest : Option Stamp}
    (hNext : next limit now lastStamp latest = .ok issued) (hLast : lastStamp ≠ last)
    (hLatest : ∀ stamp ∈ latest, stamp ≠ last) :
    lastStamp.rank < issued.rank ∧ ∀ stamp ∈ latest, stamp.rank < issued.rank := by
  -- the floor is the greater of both, and a time after its time or its successor is above it
  have hAbove : ∀ floor : Stamp, floor ≠ last →
      floor.rank < (if floor.millis < now then ⟨now, 0⟩ else floor.successor).rank := by
    intro floor hFloor
    split
    next hTime =>
      rw [UInt64.lt_iff_toNat_lt] at hTime
      have hSeq := floor.seq.toNat_lt
      simp only [rank]
      simp
      omega
    next => rw [rank_successor hFloor]; omega
  cases latest with
  | none =>
    simp only [next, Except.ok.injEq] at hNext
    rw [← hNext]
    exact ⟨hAbove lastStamp hLast, by simp⟩
  | some stamp =>
    simp only [next] at hNext
    split at hNext
    next => cases hNext
    next =>
      simp only [Except.ok.injEq] at hNext
      have hFloor : lastStamp.later stamp ≠ last := by
        rcases later_eq_or lastStamp stamp with hEq | hEq
        · rw [hEq]; exact hLast
        · rw [hEq]; exact hLatest stamp rfl
      have hRank := hAbove _ hFloor
      rw [hNext, rank_later] at hRank
      refine ⟨by omega, fun other hOther => ?_⟩
      cases hOther
      omega

/-- A stamp is given out unless the clock is behind the present version by more than the skew. -/
theorem exists_next_iff {limit now : Millis} {lastStamp : Stamp} {latest : Option Stamp} :
    (∃ stamp, next limit now lastStamp latest = .ok stamp) ↔
      ∀ floor ∈ latest, floor.millis.toNat ≤ now.toNat + limit.toNat := by
  cases latest with
  | none => simp [next]
  | some floor =>
    have hPlus := Millis.toNat_plus now limit
    have hWord : floor.millis.toNat < UInt64.size := floor.millis.toNat_lt
    simp only [next, Option.mem_def, Option.some.injEq, forall_eq', UInt64.lt_iff_toNat_lt]
    split
    next hBehind =>
      simp only [reduceCtorEq, exists_false, false_iff]
      omega
    next hTimely =>
      simp only [Except.ok.injEq, exists_eq', true_iff]
      omega

/-- A stamp that follows the latest of some stamps is later than all of them. -/
theorem lt_of_next_latestOf {limit now : Millis} {lastStamp issued : Stamp} {stamps : List Stamp}
    (hNext : next limit now lastStamp (some (latestOf stamps)) = .ok issued)
    (hLast : lastStamp ≠ last) (hNotLast : ∀ stamp ∈ stamps, stamp ≠ last) :
    ∀ stamp ∈ stamps, stamp < issued := by
  intro stamp hMem
  have hLatest : ∀ latest ∈ some (latestOf stamps), latest ≠ last := by
    rintro latest ⟨rfl⟩
    exact @latestOf_of_forall (· ≠ last) (by decide) _ hNotLast
  have hAbove := (rank_lt_next hNext hLast hLatest).2 _ rfl
  exact lt_iff_rank.mpr (Nat.lt_of_le_of_lt (rank_le_latestOf hMem) hAbove)

theorem bytes_lt_iff {a b : Stamp} : a.bytes < b.bytes ↔ a < b := by
  have hMillis : ∀ stamp : Stamp, stamp.millis.toNat < 256 ^ 8 := fun stamp =>
    stamp.millis.toNat_lt
  have hSeq : ∀ stamp : Stamp, stamp.seq.toNat < 256 ^ 4 := fun stamp => stamp.seq.toNat_lt
  have hSame : Bytes.big 8 a.millis.toNat = Bytes.big 8 b.millis.toNat ↔
      a.millis.toNat = b.millis.toNat := by
    refine ⟨fun hEq => ?_, fun hEq => by rw [hEq]⟩
    have hA := Bytes.big_lt_iff (hMillis a) (hMillis b)
    have hB := Bytes.big_lt_iff (hMillis b) (hMillis a)
    rw [hEq] at hA hB
    have hIrrefl := List.lt_irrefl (Bytes.big 8 b.millis.toNat)
    rw [iff_false_left hIrrefl] at hA hB
    omega
  show _ ↔ a.millis < b.millis ∨ (a.millis = b.millis ∧ a.seq < b.seq)
  rw [bytes, bytes, Bytes.append_lt_append_iff _ _ (by rw [Bytes.length_big, Bytes.length_big]),
    Bytes.big_lt_iff (hMillis a) (hMillis b), Bytes.big_lt_iff (hSeq a) (hSeq b), hSame,
    UInt64.lt_iff_toNat_lt, UInt32.lt_iff_toNat_lt, UInt64.toNat_inj]

theorem bytes_injective {a b : Stamp} (hBytes : a.bytes = b.bytes) : a = b := by
  have hDecode := ofBytes?_bytes a
  rw [hBytes, ofBytes?_bytes b] at hDecode
  exact (Option.some.inj hDecode).symm

end Stamp

namespace Key

theorem version_lt_version_iff (stem : Bytes) {a b : Stamp} :
    version stem a < version stem b ↔ a < b := by
  rw [version, version, Bytes.append_lt_append_iff _ _ rfl, Stamp.bytes_lt_iff]
  simp [List.lt_irrefl]

theorem version_injective {stem other : Bytes} {a b : Stamp}
    (hKey : version stem a = version other b) : stem = other ∧ a = b := by
  have hParts := List.append_inj' hKey (by rw [Stamp.length_bytes, Stamp.length_bytes])
  exact ⟨hParts.1, Stamp.bytes_injective hParts.2⟩

end Key

end VersionedCatalog
