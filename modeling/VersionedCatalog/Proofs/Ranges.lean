import VersionedCatalog.Storage.Rows

/-! # Stems and ranges

The rows below a stem are asked for as a range of keys, from the stem up to the least byte string
above its extensions. `Rows.below_eq_filter` says that the range holds the rows whose keys start
with the stem and no others, and `Rows.lastBelow?_eq_some_iff` which of them is the last one. Both
rest on `Bytes.isPrefix_iff_between`: among the keys from the stem on, those before the bound are
the extensions.
-/

namespace VersionedCatalog

namespace Bytes

theorem not_lt_of_isPrefix {stem key : Bytes} (hStem : stem <+: key) : ¬ key < stem := by
  obtain ⟨rest, rfl⟩ := hStem
  exact List.not_lt.mpr (List.le_append_left)

theorem next?_eq_none_of_last {stem : Bytes} (hNone : next? stem = none) :
    ∀ b ∈ stem, b = 255 := by
  induction stem with
  | nil => simp
  | cons b rest ih =>
    rw [next?] at hNone
    split at hNone
    next => cases hNone
    next hRest =>
      split at hNone
      next => cases hNone
      next hFull =>
        intro c hMem
        rcases List.mem_cons.mp hMem with rfl | hMem
        · exact UInt8.toNat_inj.mp (by
            have hTop := c.toNat_lt
            rw [UInt8.lt_iff_toNat_lt] at hFull
            simp at hFull
            show c.toNat = 255
            omega)
        · exact ih hRest c hMem

/-- A string of greatest bytes has nothing above its extensions. -/
theorem isPrefix_of_next?_none {stem key : Bytes} (hNone : next? stem = none)
    (hFrom : ¬ key < stem) : stem <+: key := by
  have hFull := next?_eq_none_of_last hNone
  clear hNone
  induction stem generalizing key with
  | nil => exact List.nil_prefix
  | cons b rest ih =>
    have hB : b = 255 := hFull b List.mem_cons_self
    cases key with
    | nil => exact absurd (List.nil_lt_cons b rest) hFrom
    | cons c others =>
      rw [List.cons_lt_cons_iff] at hFrom
      have hC : c = b := by
        subst hB
        have hNotLt : ¬ c < 255 := fun hLt => hFrom (Or.inl hLt)
        exact UInt8.toNat_inj.mp (by
          have hTop := c.toNat_lt
          rw [UInt8.lt_iff_toNat_lt] at hNotLt
          simp at hNotLt
          show c.toNat = 255
          omega)
      subst hC
      have hRest : ¬ others < rest := fun hLt => hFrom (Or.inr ⟨rfl, hLt⟩)
      have hTail := ih hRest fun d hMem => hFull d (List.mem_cons_of_mem c hMem)
      exact List.cons_prefix_cons.mpr ⟨rfl, hTail⟩

/-- From a stem on, the byte strings before the bound above its extensions are its extensions. -/
theorem isPrefix_iff_between {stem bound key : Bytes} (hBound : next? stem = some bound) :
    stem <+: key ↔ ¬ key < stem ∧ key < bound := by
  refine ⟨fun hStem => ⟨not_lt_of_isPrefix hStem, ?_⟩, ?_⟩
  · obtain ⟨rest, rfl⟩ := hStem
    induction stem generalizing bound with
    | nil => cases hBound
    | cons b stem ih =>
      rw [next?] at hBound
      split at hBound
      next above hAbove =>
        cases hBound
        exact List.cons_lt_cons_iff.mpr (Or.inr ⟨rfl, ih hAbove⟩)
      next =>
        split at hBound
        next hSmall =>
          cases hBound
          refine List.cons_lt_cons_iff.mpr (Or.inl ?_)
          rw [UInt8.lt_iff_toNat_lt] at hSmall ⊢
          simp at hSmall ⊢
          omega
        next => cases hBound
  · rintro ⟨hFrom, hBefore⟩
    induction stem generalizing bound key with
    | nil => exact List.nil_prefix
    | cons b stem ih =>
      cases key with
      | nil => exact absurd (List.nil_lt_cons b stem) hFrom
      | cons c key =>
        rw [List.cons_lt_cons_iff] at hFrom
        rw [next?] at hBound
        split at hBound
        next above hAbove =>
          cases hBound
          rcases List.cons_lt_cons_iff.mp hBefore with hLt | ⟨rfl, hRest⟩
          · exact absurd (Or.inl hLt) hFrom
          · exact List.cons_prefix_cons.mpr
              ⟨rfl, ih hAbove (fun hLt => hFrom (Or.inr ⟨rfl, hLt⟩)) hRest⟩
        next hLast =>
          split at hBound
          next hSmall =>
            cases hBound
            rcases List.cons_lt_cons_iff.mp hBefore with hLt | ⟨_, hNil⟩
            · have hSame : c = b := by
                have hNotLt : ¬ c < b := fun hLess => hFrom (Or.inl hLess)
                rw [UInt8.lt_iff_toNat_lt] at hSmall hLt hNotLt
                simp at hSmall hLt
                exact UInt8.toNat_inj.mp (by omega)
              subst hSame
              exact List.cons_prefix_cons.mpr
                ⟨rfl, isPrefix_of_next?_none hLast fun hLess => hFrom (Or.inr ⟨rfl, hLess⟩)⟩
            · exact absurd hNil (List.not_lt_nil key)
          next => cases hBound

/-- What lies between two extensions of a stem is an extension too. -/
theorem isPrefix_of_between {stem low key high : Bytes} (hLow : stem <+: low)
    (hHigh : stem <+: high) (hAbove : ¬ key < low) (hBelow : ¬ high < key) : stem <+: key := by
  have hFrom : ¬ key < stem := by
    obtain ⟨rest, rfl⟩ := hLow
    intro hLt
    exact hAbove (Std.lt_of_lt_of_le hLt List.le_append_left)
  cases hNext : next? stem with
  | none => exact isPrefix_of_next?_none hNext hFrom
  | some bound =>
    have hBound := ((isPrefix_iff_between hNext).mp hHigh).2
    exact (isPrefix_iff_between hNext).mpr
      ⟨hFrom, List.lt_of_le_of_lt (List.not_lt.mp hBelow) hBound⟩

end Bytes

namespace Storage.Rows

/-- In ascending order, dropping while a test holds that is lost for good is dropping all of it. -/
theorem dropWhile_eq_filter {l : List Row} {p : Row → Bool}
    (hLost : l.Pairwise fun a b => p b = true → p a = true) :
    l.dropWhile p = l.filter fun e => !p e := by
  induction l with
  | nil => rfl
  | cons e rest ih =>
    obtain ⟨hHead, hRest⟩ := List.pairwise_cons.mp hLost
    cases hTest : p e with
    | true => rw [List.dropWhile_cons_of_pos hTest, List.filter_cons_of_neg (by simp [hTest]),
        ih hRest]
    | false =>
      rw [List.dropWhile_cons_of_neg (by simp [hTest]), List.filter_cons_of_pos (by simp [hTest])]
      refine congrArg (e :: ·) (List.filter_eq_self.mpr fun x hMem => ?_).symm
      cases hLater : p x with
      | true => exact absurd (hHead x hMem hLater) (by simp [hTest])
      | false => rfl

theorem takeWhile_eq_filter {l : List Row} {p : Row → Bool}
    (hLost : l.Pairwise fun a b => p b = true → p a = true) : l.takeWhile p = l.filter p := by
  induction l with
  | nil => rfl
  | cons e rest ih =>
    obtain ⟨hHead, hRest⟩ := List.pairwise_cons.mp hLost
    cases hTest : p e with
    | true => rw [List.takeWhile_cons_of_pos hTest, List.filter_cons_of_pos hTest, ih hRest]
    | false =>
      rw [List.takeWhile_cons_of_neg (by simp [hTest]), List.filter_cons_of_neg (by simp [hTest])]
      refine (List.filter_eq_nil_iff.mpr fun x hMem hLater => ?_).symm
      exact absurd (hHead x hMem hLater) (by simp [hTest])

/-- The range of a stem holds the rows whose keys start with it. -/
theorem below_eq_filter (rows : Rows) (stem : Bytes) :
    rows.below stem = rows.entries.filter fun row => stem.isPrefixOf row.1 := by
  have hLow : rows.entries.Pairwise fun a b =>
      decide (b.1 < stem) = true → decide (a.1 < stem) = true := by
    refine rows.ascending.imp fun {a b} hLt hLess => ?_
    exact decide_eq_true (List.lt_trans hLt (of_decide_eq_true hLess))
  rw [below, OrderedMap.range, dropWhile_eq_filter hLow,
    takeWhile_eq_filter, List.filter_filter]
  · refine List.filter_congr fun row _ => ?_
    rw [Bool.eq_iff_iff, List.isPrefixOf_iff_prefix, Bool.and_eq_true, Bool.not_eq_true',
      decide_eq_false_iff_not]
    cases hNext : Bytes.next? stem with
    | none =>
      simp only [true_and]
      exact ⟨Bytes.isPrefix_of_next?_none hNext, Bytes.not_lt_of_isPrefix⟩
    | some bound =>
      rw [Bytes.isPrefix_iff_between hNext, decide_eq_true_iff]
      exact And.comm
  · refine (rows.ascending.filter _).imp fun {a b} hLt hLess => ?_
    cases hNext : Bytes.next? stem with
    | none => rfl
    | some bound =>
      rw [hNext] at hLess
      exact decide_eq_true (List.lt_trans hLt (of_decide_eq_true hLess))

theorem mem_below_iff (rows : Rows) (stem : Bytes) (row : Row) :
    row ∈ rows.below stem ↔ rows.get? row.1 = some row.2 ∧ stem <+: row.1 := by
  rw [below_eq_filter, List.mem_filter, List.isPrefixOf_iff_prefix, OrderedMap.get?_eq_some_iff]

theorem below_ascending (rows : Rows) (stem : Bytes) :
    (rows.below stem).Pairwise fun a b => a.1 < b.1 := by
  rw [below_eq_filter]
  exact rows.ascending.filter _

/-- In ascending order the last row is the one that no other row is behind. -/
theorem getLast?_eq_some_iff {l : List Row} (hAsc : l.Pairwise fun a b => a.1 < b.1) (row : Row) :
    l.getLast? = some row ↔ row ∈ l ∧ ∀ other ∈ l, ¬ row.1 < other.1 := by
  constructor
  · intro hLast
    obtain ⟨front, rfl⟩ := List.getLast?_eq_some_iff.mp hLast
    refine ⟨by simp, fun other hMem hLt => ?_⟩
    rcases List.mem_append.mp hMem with hFront | hSame
    · have hBefore := (List.pairwise_append.mp hAsc).2.2 other hFront row (by simp)
      exact List.lt_irrefl _ (List.lt_trans hLt hBefore)
    · rw [List.mem_singleton.mp hSame] at hLt
      exact List.lt_irrefl _ hLt
  · rintro ⟨hMem, hGreatest⟩
    cases hLast : l.getLast? with
    | none => rw [List.getLast?_eq_none_iff.mp hLast] at hMem; cases hMem
    | some last =>
      obtain ⟨front, rfl⟩ := List.getLast?_eq_some_iff.mp hLast
      rcases List.mem_append.mp hMem with hFront | hSame
      · have hBefore := (List.pairwise_append.mp hAsc).2.2 row hFront last (by simp)
        exact absurd hBefore (hGreatest last (by simp))
      · rw [List.mem_singleton.mp hSame]

theorem lastBelow?_eq_some_iff (rows : Rows) (stem : Bytes) (row : Row) :
    rows.lastBelow? stem = some row ↔
      (rows.get? row.1 = some row.2 ∧ stem <+: row.1) ∧
        ∀ other : Row, rows.get? other.1 = some other.2 → stem <+: other.1 →
          ¬ row.1 < other.1 := by
  rw [lastBelow?, getLast?_eq_some_iff (below_ascending rows stem), mem_below_iff]
  refine and_congr_right fun _ => ?_
  constructor
  · intro hGreatest other hGet hStem
    exact hGreatest other ((mem_below_iff rows stem other).mpr ⟨hGet, hStem⟩)
  · intro hGreatest other hMem
    obtain ⟨hGet, hStem⟩ := (mem_below_iff rows stem other).mp hMem
    exact hGreatest other hGet hStem

theorem lastBelow?_eq_none_iff (rows : Rows) (stem : Bytes) :
    rows.lastBelow? stem = none ↔
      ∀ row : Row, rows.get? row.1 = some row.2 → ¬ stem <+: row.1 := by
  rw [lastBelow?, List.getLast?_eq_none_iff, List.eq_nil_iff_forall_not_mem]
  refine forall_congr' fun row => ?_
  rw [mem_below_iff]
  exact not_and

end Storage.Rows

end VersionedCatalog
