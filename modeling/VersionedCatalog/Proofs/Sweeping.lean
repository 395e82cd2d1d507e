import VersionedCatalog.Proofs.Growth
import VersionedCatalog.Proofs.Lookups
import VersionedCatalog.Store.Collection

/-! # What a sweep removes

A pass over the rows removes a version when a later version of its slot is over, or when it is the
newest one, not live and over itself (`Sweep.IsExpired`, `Sweep.mem_expired_iff`). What is over
stays over for everything before it. So where the newest version is removed nothing is left, and
this version was not live: a pass leaves what is live as it is (`Sweep.isThinned_swept`), and the
rows sound (`Rows.IsThinned.isSound`). That holds whenever the pass is carried out, as long as the
history did nothing but grow since it was made.
-/

namespace VersionedCatalog

open Storage (Rows Backend)

namespace Version

def key (version : Version) : Bytes := Key.version version.stem version.stamp

end Version

namespace Sweep

namespace Policy

/-- Whether a version is removed, given all versions of its slot. -/
def Removes (policy : Policy) (versions : Version → Prop) (version : Version) : Prop :=
  (∃ other, versions other ∧ version.stamp < other.stamp ∧
    policy.isOver other.stamp.millis = true) ∨
  (version.flag ≠ .live ∧ policy.isOver version.stamp.millis = true ∧
    ∀ other, versions other → ¬ version.stamp < other.stamp)

variable {policy : Policy}

/-- What is over was over for all times before. -/
theorem isOver_of_le {time earlier : Millis} (hLe : earlier.toNat ≤ time.toNat)
    (hOver : policy.isOver time = true) : policy.isOver earlier = true := by
  rw [isOver, decide_eq_true_eq, UInt64.le_iff_toNat_le, Millis.since, Millis.toNat_minus] at hOver ⊢
  omega

theorem isOver_of_lt {stamp earlier : Stamp} (hLt : earlier < stamp)
    (hOver : policy.isOver stamp.millis = true) : policy.isOver earlier.millis = true := by
  refine isOver_of_le ?_ hOver
  rcases hLt with hMillis | ⟨hMillis, _⟩
  · exact Nat.le_of_lt (UInt64.lt_iff_toNat_lt.mp hMillis)
  · exact Nat.le_of_eq (congrArg UInt64.toNat hMillis)

/-- Whether a version is removed as the newest of its slot. -/
def expiresNewest (policy : Policy) (version : Version) : Bool :=
  version.flag ≠ .live && policy.isOver version.stamp.millis

/-- Whether a version is removed, by the one that comes next in the order of keys. -/
def expires (policy : Policy) (version : Version) : Option Version → Bool
  | some next =>
    if next.stem = version.stem then policy.isOver next.stamp.millis
    else policy.expiresNewest version
  | none => policy.expiresNewest version

/-- The versions that are removed of versions in the order of their keys. -/
def removable (policy : Policy) : List Version → List Version
  | [] => []
  | version :: rest =>
    if policy.expires version rest.head? then version :: removable policy rest
    else removable policy rest

theorem removable_sublist (versions : List Version) :
    (policy.removable versions).Sublist versions := by
  induction versions with
  | nil => exact .slnil
  | cons version rest ih =>
    rw [removable]
    split
    next => exact ih.cons_cons version
    next => exact ih.cons version

/-- Versions of one slot are treated apart from those of another one behind them. -/
theorem removable_append {stem : Bytes} {group rest : List Version}
    (hGroup : ∀ version ∈ group, version.stem = stem)
    (hRest : ∀ next ∈ rest.head?, next.stem ≠ stem) :
    policy.removable (group ++ rest) = policy.removable group ++ policy.removable rest := by
  induction group with
  | nil => rfl
  | cons version more ih =>
    obtain ⟨hFirst, hMore⟩ := List.forall_mem_cons.mp hGroup
    have hExpires : policy.expires version (more ++ rest).head? =
        policy.expires version more.head? := by
      cases more with
      | cons next others => rfl
      | nil =>
        cases rest with
        | nil => rfl
        | cons next others =>
          have hOther := hRest next rfl
          rw [← hFirst] at hOther
          exact if_neg hOther
    rw [List.cons_append, removable, removable, hExpires, ih hMore]
    split <;> rfl

theorem expiresNewest_iff {version : Version} : policy.expiresNewest version = true ↔
    version.flag ≠ .live ∧ policy.isOver version.stamp.millis = true := by
  rw [expiresNewest, Bool.and_eq_true, decide_eq_true_eq]

section
variable {first : Version} {rest : List Version}
  (hAsc : (first :: rest).Pairwise fun a b => a.toRow.1 < b.toRow.1)
  (hSlots : ∀ version ∈ first :: rest, ∃ slot : Slot, version.stem = slot.stem)
include hAsc

/-- Behind a version there are only later ones of its slot. -/
theorem lt_of_mem_rest {other : Version} (hMem : other ∈ rest) (hStem : other.stem = first.stem) :
    first.stamp < other.stamp := by
  have hLt := (List.pairwise_cons.mp hAsc).1 other hMem
  rw [Version.toRow, Version.toRow, hStem] at hLt
  exact (Key.version_lt_version_iff first.stem).mp hLt

include hSlots

/-- The next version decides about the first one as all versions do. -/
theorem expires_iff_removes : policy.expires first rest.head? = true ↔
    policy.Removes (fun other => other ∈ first :: rest ∧ other.stem = first.stem) first := by
  cases rest with
  | nil =>
    rw [List.head?_nil, expires, expiresNewest_iff]
    constructor
    · rintro ⟨hFlag, hOver⟩
      refine Or.inr ⟨hFlag, hOver, ?_⟩
      rintro other ⟨hMem, _⟩
      rw [List.mem_singleton.mp hMem]
      exact Stamp.not_lt_self _
    · rintro (⟨other, ⟨hMem, _⟩, hLater, _⟩ | ⟨hFlag, hOver, _⟩)
      · rw [List.mem_singleton.mp hMem] at hLater
        exact absurd hLater (Stamp.not_lt_self _)
      · exact ⟨hFlag, hOver⟩
  | cons next rest =>
    rw [List.head?_cons, expires]
    split
    next hSame =>
      have hLater := lt_of_mem_rest hAsc List.mem_cons_self hSame
      constructor
      · intro hOver
        exact Or.inl ⟨next, ⟨by simp, hSame⟩, hLater, hOver⟩
      · rintro (⟨other, ⟨hMem, hStem⟩, hAfter, hOver⟩ | ⟨_, _, hNewest⟩)
        · rcases List.mem_cons.mp hMem with rfl | hMem
          · exact absurd hAfter (Stamp.not_lt_self _)
          · rcases List.mem_cons.mp hMem with rfl | hMem
            · exact hOver
            · refine isOver_of_lt ?_ hOver
              exact lt_of_mem_rest (List.pairwise_cons.mp hAsc).2 hMem (hStem.trans hSame.symm)
        · exact absurd hLater (hNewest next ⟨by simp, hSame⟩)
    next hOther =>
      have hApart := Version.stem_ne_of_next hAsc hSlots rfl hOther
      have hAlone : ∀ other, other ∈ first :: next :: rest ∧ other.stem = first.stem →
          other = first := by
        rintro other ⟨hMem, hStem⟩
        rcases List.mem_cons.mp hMem with rfl | hMem
        · rfl
        · exact absurd hStem (hApart other hMem)
      rw [expiresNewest_iff]
      constructor
      · rintro ⟨hFlag, hOver⟩
        refine Or.inr ⟨hFlag, hOver, fun other hAll => ?_⟩
        rw [hAlone other hAll]
        exact Stamp.not_lt_self _
      · rintro (⟨other, hAll, hAfter, _⟩ | ⟨hFlag, hOver, _⟩)
        · rw [hAlone other hAll] at hAfter
          exact absurd hAfter (Stamp.not_lt_self _)
        · exact ⟨hFlag, hOver⟩

end

/-- What is removed of all versions in the order of their keys. -/
theorem mem_removable_iff {versions : List Version}
    (hAsc : versions.Pairwise fun a b => a.toRow.1 < b.toRow.1)
    (hSlots : ∀ version ∈ versions, ∃ slot : Slot, version.stem = slot.stem) {version : Version} :
    version ∈ policy.removable versions ↔ version ∈ versions ∧
      policy.Removes (fun other => other ∈ versions ∧ other.stem = version.stem) version := by
  induction versions with
  | nil => simp [removable]
  | cons first rest ih =>
    obtain ⟨hFirst, hRest⟩ := List.pairwise_cons.mp hAsc
    obtain ⟨_, hRestSlots⟩ := List.forall_mem_cons.mp hSlots
    have hOthers := ih hRest hRestSlots
    by_cases hEq : version = first
    · subst hEq
      have hNotIn : version ∉ rest := fun hMem => List.lt_irrefl _ (hFirst version hMem)
      have hNotRemoved : version ∉ policy.removable rest := fun hMem =>
        hNotIn ((removable_sublist rest).subset hMem)
      rw [← expires_iff_removes hAsc hSlots, removable]
      split
      next hExpires => simp [hExpires]
      next hNot => simp [hNot, hNotRemoved]
    · have hSame : version ∈ policy.removable (first :: rest) ↔ version ∈ policy.removable rest := by
        rw [removable]
        split
        next => rw [List.mem_cons, or_iff_right hEq]
        next => rfl
      rw [hSame, hOthers, List.mem_cons, or_iff_right hEq]
      refine and_congr_right fun hMem => ?_
      -- the first version is before all others of its slot
      have hEarly : first.stem = version.stem → ¬ version.stamp < first.stamp := by
        intro hStem hLt
        have hLater := lt_of_mem_rest hAsc hMem hStem.symm
        rw [Stamp.lt_iff_rank] at hLt hLater
        omega
      refine or_congr ⟨?_, ?_⟩ (and_congr_right fun _ => and_congr_right fun _ => ⟨?_, ?_⟩)
      · rintro ⟨other, ⟨hIn, hStem⟩, hAfter⟩
        exact ⟨other, ⟨List.mem_cons_of_mem _ hIn, hStem⟩, hAfter⟩
      · rintro ⟨other, ⟨hIn, hStem⟩, hAfter, hOver⟩
        rcases List.mem_cons.mp hIn with rfl | hIn
        · exact absurd hAfter (hEarly hStem)
        · exact ⟨other, ⟨hIn, hStem⟩, hAfter, hOver⟩
      · rintro hNewest other ⟨hIn, hStem⟩
        rcases List.mem_cons.mp hIn with rfl | hIn
        · exact hEarly hStem
        · exact hNewest other ⟨hIn, hStem⟩
      · rintro hNewest other ⟨hIn, hStem⟩
        exact hNewest other ⟨List.mem_cons_of_mem _ hIn, hStem⟩

/-- With a version of a slot everything before it is over. -/
theorem isOver_of_expires {stem : Bytes} {first : Version} {rest : List Version}
    (hGroup : ∀ version ∈ first :: rest, version.stem = stem)
    (hAsc : (first :: rest).Pairwise fun a b => a.toRow.1 < b.toRow.1)
    (hExpires : policy.expires first rest.head? = true) :
    policy.isOver first.stamp.millis = true := by
  cases rest with
  | nil => exact (expiresNewest_iff.mp hExpires).2
  | cons next others =>
    obtain ⟨hFirst, hRest⟩ := List.forall_mem_cons.mp hGroup
    have hSame : next.stem = first.stem := (hRest next List.mem_cons_self).trans hFirst.symm
    rw [List.head?_cons, expires, if_pos hSame] at hExpires
    exact isOver_of_lt (lt_of_mem_rest hAsc List.mem_cons_self hSame) hExpires

/-- Of the versions of one slot all are removed exactly if the newest one is. -/
theorem length_filter_newest {stem : Bytes} {group : List Version} (hSome : group ≠ [])
    (hGroup : ∀ version ∈ group, version.stem = stem)
    (hAsc : group.Pairwise fun a b => a.toRow.1 < b.toRow.1) :
    (if (policy.removable group).length = group.length then 1 else 0) =
      ((Version.newest group).filter policy.expiresNewest).length := by
  induction group with
  | nil => exact absurd rfl hSome
  | cons version rest ih =>
    obtain ⟨hFirst, hRest⟩ := List.forall_mem_cons.mp hGroup
    have hLater := (List.pairwise_cons.mp hAsc).2
    cases rest with
    | nil =>
      rw [removable, List.head?_nil, expires, Version.newest]
      cases hExpires : policy.expiresNewest version <;> simp [hExpires, removable]
    | cons next others =>
      have hSame : next.stem = version.stem :=
        (hRest next List.mem_cons_self).trans hFirst.symm
      have hOthers := ih (List.cons_ne_nil _ _) hRest hLater
      rw [Version.newest_cons_cons, if_pos hSame, ← hOthers, removable, List.head?_cons, expires,
        if_pos hSame]
      split
      next => simp only [List.length_cons, Nat.add_right_cancel_iff]
      next hNotOver =>
        -- the next version stays too, or this one would be over
        have hShort := (@removable_sublist policy others).length_le
        have hStays : ¬ policy.expires next others.head? = true := fun hExpires =>
          hNotOver (isOver_of_expires hRest hLater hExpires)
        have hFewer : (policy.removable (next :: others)).length ≤ others.length := by
          rw [removable, if_neg hStays]
          exact hShort
        rw [if_neg (by simp only [List.length_cons]; omega),
          if_neg (by simp only [List.length_cons]; omega)]

end Policy

open Policy

variable {policy : Policy}

/-! ### The pass over a list of versions -/

/-- How a version stands in the list of its entity. -/
def entry (version : Version) : Stamp × Storage.Row := (version.stamp, version.toRow)

theorem newestExpired_value (version : Version) :
    newestExpired policy version.stamp (Version.encodeValue version.flag version.payload) =
      .ok (policy.expiresNewest version) := by
  simp only [newestExpired, Version.decodeValue_encodeValue, Outcome.ok_bind]
  rfl

theorem expiredOf_entries {stem : Bytes} {group : List Version}
    (hGroup : ∀ version ∈ group, version.stem = stem) :
    expiredOf policy (group.map entry) = .ok ((policy.removable group).map Version.key) := by
  induction group with
  | nil => rfl
  | cons version rest ih =>
    obtain ⟨hFirst, hRest⟩ := List.forall_mem_cons.mp hGroup
    cases rest with
    | nil =>
      have hOne : expiredOf policy [entry version] = .ok
          (if policy.expiresNewest version then [version.key] else []) := by
        simp only [expiredOf, entry, Version.toRow, newestExpired_value, Outcome.ok_bind]
        rfl
      rw [List.map_cons, List.map_nil, hOne, removable, List.head?_nil, expires]
      split <;> rfl
    | cons next others =>
      have hNext : next.stem = version.stem :=
        (hRest next List.mem_cons_self).trans hFirst.symm
      have hOthers := ih hRest
      rw [removable, List.head?_cons, expires, if_pos hNext]
      simp only [List.map_cons] at hOthers ⊢
      rw [entry, Version.toRow, expiredOf, entry]
      rw [entry] at hOthers
      simp only [hOthers, Outcome.ok_bind, Outcome.pure_eq_ok]
      split <;> rfl

/-- What a pass over some versions finds. An entity is left without any if its newest version is
removed. -/
structure Finds (policy : Policy) (versions : List Version) (sweep : Sweep) : Prop where
  scanned : sweep.scanned = versions.length
  expired : sweep.expired = (policy.removable versions).map Version.key
  purged : sweep.purged = ((Version.newest versions).filter policy.expiresNewest).length

theorem ofEntity_entries {stem : Bytes} {group : List Version} (hSome : group ≠ [])
    (hGroup : ∀ version ∈ group, version.stem = stem)
    (hAsc : group.Pairwise fun a b => a.toRow.1 < b.toRow.1) :
    ∃ sweep, ofEntity policy (group.map entry) = .ok sweep ∧ Finds policy group sweep := by
  rw [ofEntity, expiredOf_entries hGroup, Outcome.ok_bind]
  refine ⟨_, rfl, by rw [List.length_map], rfl, ?_⟩
  simp only [List.length_map]
  exact length_filter_newest hSome hGroup hAsc

theorem continueEntity_entries {stem : Bytes} {group rest : List Version} (hSome : group ≠ [])
    (hGroup : ∀ version ∈ group, version.stem = stem)
    (hAsc : (group ++ rest).Pairwise fun a b => a.toRow.1 < b.toRow.1)
    (hStems : ∀ version ∈ rest, version.stem ≠ []) :
    ∃ sweep, continueEntity policy stem (group.map entry) (rest.map Version.toRow) = .ok sweep ∧
      Finds policy (group ++ rest) sweep := by
  induction rest generalizing stem group with
  | nil =>
    rw [List.append_nil] at hAsc ⊢
    exact ofEntity_entries hSome hGroup hAsc
  | cons version rest ih =>
    obtain ⟨hFirst, hRest⟩ := List.forall_mem_cons.mp hStems
    have hSplit : Key.split version.toRow.1 = .ok (version.stem, version.stamp) :=
      Key.split_version version.stem version.stamp hFirst
    rw [List.map_cons, continueEntity, hSplit, Outcome.ok_bind]
    simp only
    split
    next hSame =>
      have hMore : ∀ found ∈ group ++ [version], found.stem = stem := by
        intro found hFound
        rcases List.mem_append.mp hFound with hIn | hIn
        · exact hGroup found hIn
        · rw [List.mem_singleton.mp hIn]
          exact hSame
      have hSplitAsc : ((group ++ [version]) ++ rest).Pairwise
          fun a b => a.toRow.1 < b.toRow.1 := by
        rw [List.append_assoc]
        exact hAsc
      obtain ⟨sweep, hSweep, hFinds⟩ := ih (by simp) hMore hSplitAsc hRest
      rw [List.map_append] at hSweep
      rw [List.append_assoc] at hFinds
      exact ⟨sweep, hSweep, hFinds⟩
    next hOther =>
      obtain ⟨hHereAsc, hThereAsc, _⟩ := List.pairwise_append.mp hAsc
      obtain ⟨first, hHere, hFinds⟩ := @ofEntity_entries policy stem group hSome hGroup hHereAsc
      obtain ⟨others, hThere, hFindsRest⟩ := @ih version.stem [version] (List.cons_ne_nil _ _)
        (List.forall_mem_singleton.mpr rfl) hThereAsc hRest
      have hApart : ∀ next ∈ (version :: rest).head?, next.stem ≠ stem := by
        rintro next ⟨rfl⟩
        exact hOther
      rw [hHere, Outcome.ok_bind]
      simp only [List.map_cons, List.map_nil] at hThere
      rw [entry] at hThere
      rw [hThere, Outcome.ok_bind]
      refine ⟨_, rfl, ?_, ?_, ?_⟩
      · simp [add, hFinds.scanned, hFindsRest.scanned]
      · rw [add, hFinds.expired, hFindsRest.expired, List.singleton_append,
          removable_append hGroup hApart, List.map_append]
      · rw [add, hFinds.purged, hFindsRest.purged, List.singleton_append,
          Version.newest_append hSome hGroup hApart, List.filter_append, List.length_append]

theorem ofRows_versions {versions : List Version}
    (hAsc : versions.Pairwise fun a b => a.toRow.1 < b.toRow.1)
    (hSlots : ∀ version ∈ versions, ∃ slot : Slot, version.stem = slot.stem) :
    ∃ sweep, ofRows policy (versions.map Version.toRow) = .ok sweep ∧
      Finds policy versions sweep := by
  have hStems : ∀ version ∈ versions, version.stem ≠ [] := by
    intro version hMem
    obtain ⟨slot, hStem⟩ := hSlots version hMem
    rw [hStem]
    exact slot.stem_ne_nil
  cases versions with
  | nil => exact ⟨nothing, rfl, rfl, rfl, rfl⟩
  | cons version rest =>
    obtain ⟨hFirst, hRest⟩ := List.forall_mem_cons.mp hStems
    have hSplit : Key.split version.toRow.1 = .ok (version.stem, version.stamp) :=
      Key.split_version version.stem version.stamp hFirst
    rw [List.map_cons, ofRows, hSplit, Outcome.ok_bind]
    exact @continueEntity_entries policy version.stem [version] rest (List.cons_ne_nil _ _)
      (List.forall_mem_singleton.mpr rfl) hAsc hRest

/-! ### The pass over a backend -/

theorem Policy.Removes.congr {some others : Version → Prop} {version : Version}
    (hRemoves : policy.Removes some version) (hSame : ∀ other, some other ↔ others other) :
    policy.Removes others version := by
  rcases hRemoves with ⟨other, hOther, hLater⟩ | ⟨hFlag, hOver, hNewest⟩
  · exact Or.inl ⟨other, (hSame other).mp hOther, hLater⟩
  · exact Or.inr ⟨hFlag, hOver, fun other hOther => hNewest other ((hSame other).mpr hOther)⟩

/-- Whether a pass removes a version of a slot. -/
def IsExpired (policy : Policy) (rows : Rows) (slot : Slot) (version : Version) : Prop :=
  rows.HasVersion slot version ∧ policy.Removes (rows.HasVersion slot) version

/-- With a version all versions before it expire. -/
theorem IsExpired.of_lt {rows : Rows} {slot : Slot} {version earlier : Version}
    (hExpired : IsExpired policy rows slot version) (hHas : rows.HasVersion slot earlier)
    (hLt : earlier.stamp < version.stamp) : IsExpired policy rows slot earlier := by
  refine ⟨hHas, Or.inl ?_⟩
  rcases hExpired.2 with ⟨later, hLater, hBehind, hOver⟩ | ⟨_, hOver, _⟩
  · refine ⟨later, hLater, ?_, hOver⟩
    rw [Stamp.lt_iff_rank] at hLt hBehind ⊢
    omega
  · exact ⟨version, hExpired.1, hLt, hOver⟩

/-- The versions of all slots of a type, in the order of their keys. -/
structure IsHistory (rows : Rows) (type : EntityType) (all : List Version) : Prop where
  scanned : rows.below [type.code] = all.map Version.toRow
  slots : ∀ version ∈ all, ∃ slot : Slot, version.stem = slot.stem
  ascending : all.Pairwise fun a b => a.toRow.1 < b.toRow.1
  mem_iff : ∀ version, version ∈ all ↔ ∃ slot : Slot, slot.type = type ∧ rows.HasVersion slot version

/-- The versions of one slot are those with its stem. -/
theorem IsHistory.mem_slot_iff {rows : Rows} {type : EntityType} {all : List Version}
    (hHistory : IsHistory rows type all) {slot : Slot} {version : Version} (hType : slot.type = type)
    (hHas : rows.HasVersion slot version) (other : Version) :
    other ∈ all ∧ other.stem = version.stem ↔ rows.HasVersion slot other := by
  constructor
  · rintro ⟨hIn, hStem⟩
    obtain ⟨place, _, hOther⟩ := (hHistory.mem_iff other).mp hIn
    have hPlace := Slot.stem_injective (hOther.stem.symm.trans (hStem.trans hHas.stem))
    exact hPlace ▸ hOther
  · intro hOther
    exact ⟨(hHistory.mem_iff other).mpr ⟨slot, hType, hOther⟩, hOther.stem.trans hHas.stem.symm⟩

section
variable {backend : Backend} (hVersions : backend.rows.AreVersions)
include hVersions

/-- A pass over the rows of a type goes over its history. -/
theorem exists_history (policy : Policy) (type : EntityType) :
    ∃ all sweep, IsHistory backend.rows type all ∧
      ofRows policy (backend.rows.below [type.code]) = .ok sweep ∧ Finds policy all sweep := by
  obtain ⟨all, hAll, hSlots⟩ := Catalog.exists_versions hVersions type []
  have hAsc := Rows.below_ascending backend.rows (Key.typed type [])
  rw [hAll, List.pairwise_map] at hAsc
  have hRange : backend.rows.below [type.code] = all.map Version.toRow := hAll
  obtain ⟨sweep, hSweep, hFinds⟩ := @ofRows_versions policy all hAsc hSlots
  rw [← hRange] at hSweep
  refine ⟨all, sweep, ⟨hRange, hSlots, hAsc, fun version => ?_⟩, hSweep, hFinds⟩
  rw [Catalog.mem_versions_iff (Nat.zero_le _) hAll hSlots]
  exact exists_congr fun slot => and_congr_right fun _ => and_iff_right List.nil_prefix

theorem history_of_ofRows {type : EntityType} {sweep : Sweep}
    (hOk : ofRows policy (backend.rows.below [type.code]) = .ok sweep) :
    ∃ all, IsHistory backend.rows type all ∧ Finds policy all sweep := by
  obtain ⟨all, found, hHistory, hFound, hFinds⟩ := exists_history hVersions policy type
  rw [hFound] at hOk
  cases hOk
  exact ⟨all, hHistory, hFinds⟩

theorem mem_expired_ofRows_iff {type : EntityType} {sweep : Sweep}
    (hOk : ofRows policy (backend.rows.below [type.code]) = .ok sweep) {key : Bytes} :
    key ∈ sweep.expired ↔ ∃ slot version, slot.type = type ∧
      IsExpired policy backend.rows slot version ∧ key = slot.key version.stamp := by
  obtain ⟨all, hHistory, hFinds⟩ := history_of_ofRows hVersions hOk
  have hRemovable : ∀ version, version ∈ policy.removable all ↔ version ∈ all ∧
      policy.Removes (fun other => other ∈ all ∧ other.stem = version.stem) version :=
    fun _ => mem_removable_iff hHistory.ascending hHistory.slots
  rw [hFinds.expired, List.mem_map]
  constructor
  · rintro ⟨version, hMem, rfl⟩
    obtain ⟨hIn, hRemoves⟩ := (hRemovable version).mp hMem
    obtain ⟨slot, hType, hHas⟩ := (hHistory.mem_iff version).mp hIn
    refine ⟨slot, version, hType, ⟨hHas, hRemoves.congr (hHistory.mem_slot_iff hType hHas)⟩, ?_⟩
    rw [Version.key, hHas.stem]
    rfl
  · rintro ⟨slot, version, hType, ⟨hHas, hRemoves⟩, rfl⟩
    refine ⟨version, (hRemovable version).mpr ⟨?_, ?_⟩, ?_⟩
    · exact (hHistory.mem_iff version).mpr ⟨slot, hType, hHas⟩
    · exact hRemoves.congr fun other => (hHistory.mem_slot_iff hType hHas other).symm
    · rw [Version.key, hHas.stem]
      rfl

omit hVersions in
/-- A pass over some types is one over the first and one over the others. -/
theorem ofTypes_cons_eq_ok {type : EntityType} {rest : List EntityType} {sweep : Sweep}
    (hOk : ofTypes policy backend (type :: rest) = .ok sweep) :
    ∃ first others, ofRows policy (backend.rows.below [type.code]) = .ok first ∧
      ofTypes policy backend rest = .ok others ∧ sweep = first.add others := by
  obtain ⟨rows, hRows, hRest⟩ := Outcome.bind_eq_ok hOk
  obtain ⟨first, hFirst, hRest⟩ := Outcome.bind_eq_ok hRest
  obtain ⟨others, hOthers, hLast⟩ := Outcome.bind_eq_ok hRest
  cases hLast
  rw [Backend.scan_eq_ok (Outcome.mapError_eq_ok hRows)] at hFirst
  exact ⟨first, others, Outcome.mapError_eq_ok hFirst, hOthers, rfl⟩

theorem mem_expired_ofTypes_iff {types : List EntityType} {sweep : Sweep}
    (hOk : ofTypes policy backend types = .ok sweep) {key : Bytes} :
    key ∈ sweep.expired ↔ ∃ slot version, slot.type ∈ types ∧
      IsExpired policy backend.rows slot version ∧ key = slot.key version.stamp := by
  induction types generalizing sweep with
  | nil => cases hOk; simp [nothing]
  | cons type rest ih =>
    obtain ⟨first, others, hFirst, hOthers, rfl⟩ := ofTypes_cons_eq_ok hOk
    rw [add, List.mem_append, mem_expired_ofRows_iff hVersions hFirst, ih hOthers]
    constructor
    · rintro (⟨slot, version, hType, hExpired⟩ | ⟨slot, version, hIn, hExpired⟩)
      · exact ⟨slot, version, hType ▸ List.mem_cons_self, hExpired⟩
      · exact ⟨slot, version, List.mem_cons_of_mem _ hIn, hExpired⟩
    · rintro ⟨slot, version, hIn, hExpired⟩
      rcases List.mem_cons.mp hIn with hType | hIn
      · exact Or.inl ⟨slot, version, hType, hExpired⟩
      · exact Or.inr ⟨slot, version, hIn, hExpired⟩

/-- A pass removes the versions that expired, and nothing else. -/
theorem mem_expired_iff {sweep : Sweep} (hOk : ofBackend policy backend = .ok sweep)
    {key : Bytes} : key ∈ sweep.expired ↔ ∃ slot version,
      IsExpired policy backend.rows slot version ∧ key = slot.key version.stamp := by
  rw [mem_expired_ofTypes_iff hVersions hOk]
  constructor
  · rintro ⟨slot, version, _, hExpired⟩
    exact ⟨slot, version, hExpired⟩
  · rintro ⟨slot, version, hExpired⟩
    exact ⟨slot, version, slot.type.mem_all, hExpired⟩

end

end Sweep

/-! ### The rows after a pass -/

namespace Storage.Rows

theorem get?_apply_deletes (rows : Rows) (keys : List Bytes) (key : Bytes) :
    (rows.apply (keys.map .delete)).get? key = if key ∈ keys then none else rows.get? key := by
  induction keys generalizing rows with
  | nil => rfl
  | cons first rest ih =>
    have hStep : rows.apply ((first :: rest).map .delete) =
        (rows.applyOp (.delete first)).apply (rest.map .delete) := rfl
    rw [hStep, ih, get?_applyOp]
    by_cases hRest : key ∈ rest
    · simp [hRest]
    · by_cases hFirst : key = first <;> simp [hRest, hFirst, Op.key, Op.value?]

/-- Rows of which versions were taken out, the newest one of a slot only if it is not live. -/
structure IsThinned (rows others : Rows) : Prop where
  fewer : ∀ {key value}, others.get? key = some value → rows.get? key = some value
  index : ∀ id, others.get? (Key.id id) = rows.get? (Key.id id)
  newest : ∀ slot, others.newest? slot = rows.newest? slot ∨
    (others.newest? slot = none ∧ ¬ rows.IsLive slot)

namespace IsThinned

variable {rows others : Rows} (hThinned : IsThinned rows others)
include hThinned

theorem holds_iff {slot : Slot} {entity : Entity} :
    others.Holds slot entity ↔ rows.Holds slot entity := by
  rcases hThinned.newest slot with hSame | ⟨hNone, hDead⟩
  · exact holds_congr hSame
  · constructor
    · rintro ⟨version, hNewest, _⟩
      rw [hNone] at hNewest
      cases hNewest
    · exact fun hHolds => absurd (.of_holds hHolds) hDead

theorem isLive_iff {slot : Slot} : others.IsLive slot ↔ rows.IsLive slot := by
  rcases hThinned.newest slot with hSame | ⟨hNone, hDead⟩
  · exact isLive_congr hSame
  · constructor
    · rintro ⟨version, hNewest, _⟩
      rw [hNone] at hNewest
      cases hNewest
    · exact fun hLive => absurd hLive hDead

theorem isSound (hSound : rows.IsSound) : others.IsSound := by
  refine ⟨fun key value hFound => hSound.shaped key value (hThinned.fewer hFound),
    fun hParent hLive => ?_, fun {id stem} => ?_⟩
  · exact hThinned.isLive_iff.mpr (hSound.parents hParent (hThinned.isLive_iff.mp hLive))
  · rw [hThinned.index, hSound.index]
    simp only [hThinned.holds_iff]

end IsThinned

end Storage.Rows

namespace Sweep

/-- A pass puts nothing. -/
theorem not_mem_batch (sweep : Sweep) (key value : Bytes) : .put key value ∉ sweep.batch := by
  intro hPut
  obtain ⟨_, _, hOp⟩ := List.mem_map.mp hPut
  cases hOp

variable {policy : Policy} {backend : Backend} {sweep : Sweep} {others : Rows}
  (hShaped : backend.rows.IsShaped) (hOk : ofBackend policy backend = .ok sweep)
include hShaped hOk

/-- What a pass found, taken out of any rows, leaves every version that had not expired. -/
theorem hasVersion_swept_iff {slot : Slot} {version : Version} :
    (others.apply sweep.batch).HasVersion slot version ↔ others.HasVersion slot version ∧
      ∀ expired, IsExpired policy backend.rows slot expired →
        expired.stamp ≠ version.stamp := by
  have hKept : (others.apply sweep.batch).get? (slot.key version.stamp) =
      if slot.key version.stamp ∈ sweep.expired then none
      else others.get? (slot.key version.stamp) := Rows.get?_apply_deletes _ _ _
  constructor
  · rintro ⟨hStem, hFound⟩
    rw [hKept] at hFound
    split at hFound
    next => cases hFound
    next hNotExpired =>
      refine ⟨⟨hStem, hFound⟩, fun expired hExpired hStamp => hNotExpired ?_⟩
      exact (mem_expired_iff hShaped.areVersions hOk).mpr ⟨slot, expired, hExpired, by rw [hStamp]⟩
  · rintro ⟨hHas, hKeep⟩
    refine ⟨hHas.stem, ?_⟩
    rw [hKept, if_neg fun hExpired => ?_]
    · exact hHas.found
    · obtain ⟨place, expired, hOld, hKey⟩ := (mem_expired_iff hShaped.areVersions hOk).mp hExpired
      obtain ⟨rfl, hStamp⟩ := Slot.key_injective hKey
      exact hKeep expired hOld hStamp.symm

/-- Where the newest version is one that expired all versions are, as they are older. -/
theorem newest?_swept_of_expired (hOthers : others.IsShaped)
    (hGrows : backend.rows.Grows others) {slot : Slot} {version : Version}
    (hNewest : others.newest? slot = some version)
    (hExpired : IsExpired policy backend.rows slot version) :
    (∀ other, ¬ (others.apply sweep.batch).HasVersion slot other) ∧ version.flag ≠ .live := by
  have hHas := hExpired.1
  obtain ⟨_, hLatest⟩ := (Rows.newest?_eq_some_iff hOthers).mp hNewest
  rcases hExpired.2 with ⟨other, hOther, hLater, _⟩ | ⟨hFlag, _, _⟩
  · exact absurd hLater (hLatest other (hGrows.kept hOther))
  · refine ⟨fun other hOther => ?_, hFlag⟩
    obtain ⟨hThere, hKeep⟩ := (hasVersion_swept_iff hShaped hOk).mp hOther
    -- a version that came after the pass would be the newest one
    have hOld : backend.rows.HasVersion slot other := by
      rcases hGrows.later hThere with hOld | hNew
      · exact hOld
      · exact absurd (hNew version hHas) (hLatest other hThere)
    by_cases hSame : version.stamp = other.stamp
    · exact hKeep version hExpired hSame
    · refine hKeep other (hExpired.of_lt hOld ?_) rfl
      have hNotLater := hLatest other hThere
      rw [Stamp.lt_iff_rank] at hNotLater ⊢
      have hRanks : version.stamp.rank ≠ other.stamp.rank := fun hEq =>
        hSame (Stamp.rank_injective hEq)
      omega

/-- The batch of a pass thins the rows, also when the history has grown in between. -/
theorem isThinned_swept (hOthers : others.IsShaped) (hGrows : backend.rows.Grows others) :
    Rows.IsThinned others (others.apply sweep.batch) := by
  have hFewer : ∀ {key value}, (others.apply sweep.batch).get? key = some value →
      others.get? key = some value := by
    intro key value hFound
    rw [batch, Rows.get?_apply_deletes] at hFound
    split at hFound
    next => cases hFound
    next => exact hFound
  have hAfter : (others.apply sweep.batch).IsShaped := fun key value hFound =>
    hOthers key value (hFewer hFound)
  refine ⟨hFewer, fun id => ?_, fun slot => ?_⟩
  · rw [batch, Rows.get?_apply_deletes, if_neg fun hExpired => ?_]
    obtain ⟨slot, version, _, hKey⟩ := (mem_expired_iff hShaped.areVersions hOk).mp hExpired
    exact slot.key_ne_id version.stamp id hKey.symm
  · cases hNewest : others.newest? slot with
    | none =>
      refine Or.inl ((Rows.newest?_eq_none_iff hAfter).mpr fun version hHas => ?_)
      have hThere := ((hasVersion_swept_iff hShaped hOk).mp hHas).1
      exact (Rows.newest?_eq_none_iff hOthers).mp hNewest version hThere
    | some version =>
      obtain ⟨hHas, hLatest⟩ := (Rows.newest?_eq_some_iff hOthers).mp hNewest
      by_cases hExpired : IsExpired policy backend.rows slot version
      · obtain ⟨hNone, hFlag⟩ :=
          newest?_swept_of_expired hShaped hOk hOthers hGrows hNewest hExpired
        refine Or.inr ⟨(Rows.newest?_eq_none_iff hAfter).mpr hNone, ?_⟩
        rintro ⟨found, hFound, hLive⟩
        cases Option.some.inj (hNewest.symm.trans hFound)
        exact hFlag (of_decide_eq_true hLive)
      · refine Or.inl ((Rows.newest?_eq_some_iff hAfter).mpr ⟨?_, fun other hOther => ?_⟩)
        · refine (hasVersion_swept_iff hShaped hOk).mpr ⟨hHas, fun expired hOld hStamp => ?_⟩
          cases hHas.eq_of_stamp (hGrows.kept hOld.1) hStamp.symm
          exact hExpired hOld
        · exact hLatest other ((hasVersion_swept_iff hShaped hOk).mp hOther).1

end Sweep

end VersionedCatalog
