import VersionedCatalog.Proofs.Amending

/-! # What altering does to what is held

Altering carries entities from one slot to another: the root to the slot of its new name, and what is
alive below it to the same places below that (`Slot.Goes`). The root becomes what it was updated to,
and everything else gets another name (`Slot.Becomes`). What this asks for and what is held afterwards
(`Storage.Rows.MayAlter`, `Storage.Rows.Alters`) does not speak of stamps, payloads and batches any more.
So two alterations one after the other can be compared with one that does both: it asks for no more
than they did (`Storage.Rows.Alters.mayAlter_trans`), and whatever the name was between them, the same
is held afterwards (`Storage.Rows.Alters.holds_trans`).

What altering finds and writes alters what is held in this way (`Store.Amends.exists_alters`). Of the
stamps that are written over it only matters that they are earlier than the given one and not ahead of
the clock by more than the skew (`Store.IsEarly`), and where they are, altering finds what to write
(`Store.exists_amends`).
-/

namespace VersionedCatalog

open Storage (Rows Backend)

namespace Slot

variable {source target goal old middle new slot : Slot}

/-- What an entity becomes that goes from one slot to another: the root what it was updated to, and
everything else what it was, under another name. -/
structure Becomes (source : Slot) (updated : Entity) (old new : Slot) (before after : Entity) :
    Prop where
  root : old = source → after = updated
  below : old ≠ source → after = { before with name := new.name }

theorem exists_becomes (source : Slot) (updated : Entity) (old new : Slot) (before : Entity) :
    ∃ after, Becomes source updated old new before after := by
  by_cases hRoot : old = source
  · exact ⟨updated, fun _ => rfl, fun hOther => absurd hRoot hOther⟩
  · exact ⟨_, fun hSame => absurd hSame hRoot, fun _ => rfl⟩

theorem Becomes.eq {updated before after other : Entity}
    (hBecomes : Becomes source updated old new before after)
    (hOther : Becomes source updated old new before other) : after = other := by
  by_cases hRoot : old = source
  · rw [hBecomes.root hRoot, hOther.root hRoot]
  · rw [hBecomes.below hRoot, hOther.below hRoot]

/-- What came to a middle slot becomes there what it becomes without it. -/
theorem Becomes.trans_iff {updated between : Entity} {before found after : Entity}
    (hGoes : Goes source target old middle) (hType : target.type = source.type)
    (hFirst : Becomes source between old middle before found) :
    Becomes target updated middle new found after ↔ Becomes source updated old new before after := by
  have hRoot := hGoes.root_iff hType
  constructor
  · intro hSecond
    refine ⟨fun hSame => hSecond.root (hRoot.mp hSame), fun hOther => ?_⟩
    rw [hSecond.below fun hSame => hOther (hRoot.mpr hSame), hFirst.below hOther]
  · intro hBoth
    refine ⟨fun hSame => hBoth.root (hRoot.mpr hSame), fun hOther => ?_⟩
    have hBelow : old ≠ source := fun hSame => hOther (hRoot.mp hSame)
    rw [hBoth.below hBelow, hFirst.below hBelow]

end Slot

namespace Storage.Rows

open Slot (Goes Becomes)

/-- An entity that altering writes: the root in any case, and what is below it if the root moves. -/
structure Carries (rows : Rows) (source target old new : Slot) (before : Entity) : Prop where
  goes : Goes source target old new
  holds : rows.Holds old before
  renewed : old = source ∨ target ≠ source

/-- What altering asks for: the target is free, what is written over is not too late, and what will be
there can be written. -/
structure MayAlter (rows : Rows) (isEarly : Stamp → Prop) (isWritable : Entity → Prop)
    (source target : Slot) (updated : Entity) : Prop where
  type : target.type = source.type
  free : target = source ∨ ¬ rows.IsLive target
  early : ∀ {old new before}, rows.Carries source target old new before →
    ∀ slot version, slot = old ∨ slot = new → rows.newest? slot = some version →
      isEarly version.stamp
  writable : ∀ {old new before after}, rows.Carries source target old new before →
    Becomes source updated old new before after → isWritable after

/-- Rows before and after an alteration. -/
structure Alters (rows others : Rows) (isEarly : Stamp → Prop) (isWritable : Entity → Prop)
    (source target : Slot) (updated : Entity) : Prop extends
    MayAlter rows isEarly isWritable source target updated where
  holds_iff : ∀ {slot entity}, others.Holds slot entity ↔
    (∃ old before, Goes source target old slot ∧ rows.Holds old before ∧
      Becomes source updated old slot before entity) ∨
    (¬ slot.IsIn source ∧ rows.Holds slot entity)
  newest : ∀ slot, others.newest? slot = rows.newest? slot ∨
    ∀ version, rows.newest? slot = some version → isEarly version.stamp

variable {rows others after joined : Rows} {isEarly isSoon : Stamp → Prop}
  {isWritable isLegal : Entity → Prop} {source target goal slot : Slot}
  {between updated entity : Entity}

/-- What is early and can be written somewhere is so where more is. -/
theorem Alters.mono (hAlters : rows.Alters others isEarly isWritable source target updated)
    (hEarly : ∀ stamp, isEarly stamp → isSoon stamp)
    (hWritable : ∀ entity, isWritable entity → isLegal entity) :
    rows.Alters others isSoon isLegal source target updated := by
  refine ⟨⟨hAlters.type, hAlters.free, ?_, ?_⟩, hAlters.holds_iff, fun slot => ?_⟩
  · intro old new before hCarries slot version hSlot hNewest
    exact hEarly _ (hAlters.early hCarries slot version hSlot hNewest)
  · intro old new before after hCarries hBecomes
    exact hWritable _ (hAlters.writable hCarries hBecomes)
  · exact (hAlters.newest slot).imp_right fun hAll version hNewest =>
      hEarly _ (hAll version hNewest)

/-- What is held is in the subtree of the target only if it is in that of the source. -/
theorem MayAlter.not_isIn_target (hMay : rows.MayAlter isEarly isWritable source target updated)
    (hSound : rows.IsSound) (hHolds : rows.Holds slot entity) (hOutside : ¬ slot.IsIn source) :
    ¬ slot.IsIn target := by
  rcases hMay.free with hSame | hDead
  · rwa [hSame]
  · rintro (rfl | hBelow)
    · exact hDead (.of_holds hHolds)
    · exact hSound.not_isLive_below hBelow hDead (.of_holds hHolds)

section
variable (hFirst : rows.Alters others isEarly isWritable source target between)
include hFirst

/-- What was carried is held where it was carried to. -/
theorem Alters.exists_holds {old middle : Slot} {before : Entity}
    (hGoes : Goes source target old middle) (hHolds : rows.Holds old before) :
    ∃ found, others.Holds middle found ∧ Becomes source between old middle before found := by
  obtain ⟨found, hBecomes⟩ := Slot.exists_becomes source between old middle before
  exact ⟨found, hFirst.holds_iff.mpr (Or.inl ⟨old, before, hGoes, hHolds, hBecomes⟩), hBecomes⟩

variable (hSecond : others.Alters after isEarly isWritable target goal updated)
  (hSound : rows.IsSound)
include hSecond hSound

/-- What the second alteration can go to was free before the first one, or is where that one began. -/
theorem Alters.free_trans : goal = source ∨ ¬ rows.IsLive goal := by
  by_cases hBack : goal = source
  · exact Or.inl hBack
  · refine Or.inr fun hLive => ?_
    obtain ⟨entity, hHolds, _⟩ := hSound.shaped.holds_of_isLive hLive
    have hOutside : ¬ goal.IsIn source := fun hIn =>
      hBack (hIn.eq_of_type (Or.inl rfl) (hSecond.type.trans hFirst.type))
    rcases hSecond.free with hSame | hDead
    · exact hFirst.not_isIn_target hSound hHolds hOutside (Or.inl hSame)
    · exact hDead (.of_holds (hFirst.holds_iff.mpr (Or.inr ⟨hOutside, hHolds⟩)))

omit hSound in
/-- What both together write over was early for one of them. -/
theorem Alters.early_trans {old new : Slot} {before : Entity}
    (hCarries : rows.Carries source goal old new before) {version : Version}
    (hSlot : slot = old ∨ slot = new) (hNewest : rows.newest? slot = some version) :
    isEarly version.stamp := by
  obtain ⟨hGoes, hHolds, hRenewed⟩ := hCarries
  obtain ⟨middle, hTo⟩ := Slot.exists_goes hGoes.inside hFirst.type
  have hOn := (hTo.symm hFirst.type).trans hGoes
  -- the first alteration wrote over this version, or the second one finds it
  rcases hFirst.newest slot with hKept | hEarly
  · rcases hSlot with rfl | rfl
    · by_cases hStays : target = source
      · subst hStays
        cases hTo.eq_self
        exact hSecond.early ⟨hOn, (holds_congr hKept).mpr hHolds, hRenewed⟩ slot version (Or.inl rfl)
          (hKept.trans hNewest)
      · exact hFirst.early ⟨hTo, hHolds, Or.inr hStays⟩ slot version (Or.inl rfl) hNewest
    · by_cases hStays : goal = target
      · subst hStays
        cases hOn.eq_self
        exact hFirst.early ⟨hTo, hHolds, hRenewed⟩ slot version (Or.inr rfl) hNewest
      · obtain ⟨found, hThere, _⟩ := hFirst.exists_holds hTo hHolds
        exact hSecond.early ⟨hOn, hThere, Or.inr hStays⟩ slot version (Or.inr rfl)
          (hKept.trans hNewest)
  · exact hEarly version hNewest

omit hSound in
/-- What both together write was written by one of them. -/
theorem Alters.writable_trans {old new : Slot} {before after : Entity}
    (hCarries : rows.Carries source goal old new before)
    (hBecomes : Becomes source updated old new before after) : isWritable after := by
  obtain ⟨hGoes, hHolds, hRenewed⟩ := hCarries
  obtain ⟨middle, hTo⟩ := Slot.exists_goes hGoes.inside hFirst.type
  have hOn := (hTo.symm hFirst.type).trans hGoes
  by_cases hAgain : middle = target ∨ goal ≠ target
  · obtain ⟨found, hThere, hFound⟩ := hFirst.exists_holds hTo hHolds
    exact hSecond.writable ⟨hOn, hThere, hAgain⟩
      ((Becomes.trans_iff hTo hFirst.type hFound).mpr hBecomes)
  · -- only the root is written again, so this one was written for the last time before
    obtain ⟨hBelow, hStays⟩ := not_or.mp hAgain
    cases not_not.mp hStays
    cases hOn.eq_self
    have hOther : old ≠ source := fun hRoot => hBelow ((hTo.root_iff hFirst.type).mp hRoot)
    exact hFirst.writable ⟨hTo, hHolds, hRenewed⟩
      ⟨fun hRoot => absurd hRoot hOther, hBecomes.below⟩

/-- What two alterations ask for is all that one which does both asks for. -/
theorem Alters.mayAlter_trans : rows.MayAlter isEarly isWritable source goal updated where
  type := hSecond.type.trans hFirst.type
  free := hFirst.free_trans hSecond hSound
  early hCarries _ _ := hFirst.early_trans hSecond hCarries
  writable := hFirst.writable_trans hSecond

end

/-- After two alterations the same is held as after one which does both. -/
theorem Alters.holds_trans {isLate : Stamp → Prop} {isFit : Entity → Prop}
    (hFirst : rows.Alters others isEarly isWritable source target between)
    (hSecond : others.Alters after isSoon isLegal target goal updated) (hSound : rows.IsSound)
    (hJoined : rows.Alters joined isLate isFit source goal updated) :
    joined.Holds slot entity ↔ after.Holds slot entity := by
  have hType := hFirst.type
  rw [hJoined.holds_iff, hSecond.holds_iff]
  constructor
  · rintro (⟨old, before, hGoes, hHolds, hBecomes⟩ | ⟨hOutside, hHolds⟩)
    · obtain ⟨middle, hTo⟩ := Slot.exists_goes hGoes.inside hType
      obtain ⟨found, hThere, hFound⟩ := hFirst.exists_holds hTo hHolds
      exact Or.inl ⟨middle, found, (hTo.symm hType).trans hGoes, hThere,
        (Becomes.trans_iff hTo hType hFound).mpr hBecomes⟩
    · exact Or.inr ⟨hFirst.not_isIn_target hSound hHolds hOutside,
        hFirst.holds_iff.mpr (Or.inr ⟨hOutside, hHolds⟩)⟩
  · rintro (⟨middle, found, hOn, hThere, hBecomes⟩ | ⟨hOutside, hThere⟩)
    · rcases hFirst.holds_iff.mp hThere with ⟨old, before, hTo, hHolds, hFound⟩ | ⟨hApart, hHolds⟩
      · exact Or.inl ⟨old, before, hTo.trans hOn, hHolds,
          (Becomes.trans_iff hTo hType hFound).mp hBecomes⟩
      · exact absurd hOn.inside (hFirst.not_isIn_target hSound hHolds hApart)
    · rcases hFirst.holds_iff.mp hThere with ⟨old, before, hTo, _⟩ | hKept
      · exact absurd (hTo.inside_target hType) hOutside
      · exact Or.inr hKept

end Storage.Rows

/-! ### What is written -/

open Slot (Goes Becomes)

namespace Turn

variable {rows : Rows} {stamp : Stamp} {isEarly : Stamp → Prop} {isWritable : Entity → Prop}
  {updated : Entity}

/-- An entity that is written where it is. -/
theorem alters_stay {slot : Slot} {before : Entity} {payload : Bytes} (hSound : rows.IsSound)
    (hReady : AreReady rows stamp [.stay slot before updated payload])
    (hEarly : ∀ version, rows.newest? slot = some version → isEarly version.stamp)
    (hWritable : isWritable updated) :
    rows.Alters (rows.apply (batch stamp [.stay slot before updated payload] none)) isEarly isWritable
      slot slot updated := by
  have hWritten : written [.stay slot before updated payload] = [slot] := rfl
  have hOnly : ∀ {old new found}, rows.Carries slot slot old new found → old = slot ∧ new = slot := by
    rintro old new found ⟨hGoes, _, hRenewed⟩
    have hOld : old = slot := hRenewed.resolve_right fun hNe => hNe rfl
    exact ⟨hOld, hGoes.eq_self.trans hOld⟩
  refine ⟨⟨rfl, Or.inl rfl, ?_, ?_⟩, ?_, ?_⟩
  · intro old new found hCarries place version hPlace hNewest
    obtain ⟨rfl, rfl⟩ := hOnly hCarries
    cases or_self_iff.mp hPlace
    exact hEarly version hNewest
  · intro old new found after hCarries hBecomes
    rw [hBecomes.root (hOnly hCarries).1]
    exact hWritable
  · intro place entity
    rw [hReady.holds_iff hSound, hWritten, List.mem_singleton]
    constructor
    · rintro (⟨turn, hTurn, hTarget⟩ | ⟨hOther, hHolds⟩)
      · cases List.mem_singleton.mp hTurn
        cases hTarget
        exact Or.inl ⟨slot, before, .self (Or.inl rfl), (hReady.fits _ hTurn).1, fun _ => rfl,
          fun hOther => absurd rfl hOther⟩
      · by_cases hIn : place.IsIn slot
        · refine Or.inl ⟨place, entity, .self hIn, hHolds, fun hRoot => absurd hRoot hOther, ?_⟩
          intro _
          rw [← (hSound.shaped.name_of_holds hHolds).1]
        · exact Or.inr ⟨hIn, hHolds⟩
    · rintro (⟨old, found, hGoes, hHolds, hBecomes⟩ | ⟨hOutside, hHolds⟩)
      · cases hGoes.eq_self
        by_cases hRoot : place = slot
        · refine Or.inl ⟨_, List.mem_singleton_self _, ?_⟩
          rw [hBecomes.root hRoot, hRoot]
          rfl
        · refine Or.inr ⟨hRoot, ?_⟩
          rw [hBecomes.below hRoot, ← (hSound.shaped.name_of_holds hHolds).1]
          exact hHolds
      · exact Or.inr ⟨fun hRoot => hOutside (Or.inl hRoot), hHolds⟩
  · intro place
    by_cases hRoot : place = slot
    · exact Or.inr (hRoot ▸ hEarly)
    · refine Or.inl (hReady.newest?_other hSound.shaped ?_)
      rwa [hWritten, List.mem_singleton]

end Turn

namespace Move

variable {rows : Rows} {source target : Slot} {move : Move}

/-- The version that was in either slot of a move is not after its floor. -/
theorem Leads.rank_le_floor (hLeads : move.Leads rows source target)
    (hLives : move.resident.Lives rows) {slot : Slot} {version : Version}
    (hSlot : slot = move.resident.slot ∨ slot = move.target)
    (hNewest : rows.newest? slot = some version) : version.stamp.rank ≤ move.floor.rank := by
  rcases hSlot with rfl | rfl
  · cases Option.some.inj (hLives.newest.symm.trans hNewest)
    exact hLeads.after
  · exact hLeads.afterTarget version hNewest

end Move

/-- The moves of a subtree carry what is in it. -/
theorem IsSubtree.carries {rows : Rows} {source target : Slot} {moves : List Move}
    (hSubtree : IsSubtree rows source (moves.map (·.resident)))
    (hLeads : ∀ move ∈ moves, move.Leads rows source target) (hApart : target ≠ source) :
    ∀ move ∈ moves,
      rows.Carries source target move.resident.slot move.target move.resident.entity := by
  intro move hMove
  have hMem : move.resident ∈ moves.map (·.resident) := List.mem_map.mpr ⟨move, hMove, rfl⟩
  exact ⟨(hLeads move hMove).goes (hSubtree.inside _ hMem), (hSubtree.lives _ hMem).holds,
    Or.inr hApart⟩

namespace IsRelocation

variable {rows : Rows} {source target : Slot} {payload : Entity → Bytes} {moves : List Move}
  (hRelocation : IsRelocation rows source target payload moves)
include hRelocation

theorem becomes {updated : Entity}
    (hRoot : ∀ move ∈ moves, move.resident.slot = source → move.entity = updated) {move : Move}
    (hMove : move ∈ moves) :
    Becomes source updated move.resident.slot move.target move.resident.entity move.entity :=
  ⟨hRoot move hMove, (hRelocation.leads move hMove).kept⟩

end IsRelocation

namespace Turn

variable {rows : Rows} {stamp : Stamp} {isEarly : Stamp → Prop} {isWritable : Entity → Prop}
  {updated : Entity}

/-- A subtree that moves. -/
theorem alters_moveAll {source target : Slot} {payload : Entity → Bytes} {moves : List Move}
    (hSound : rows.IsSound) (hRelocation : IsRelocation rows source target payload moves)
    (hReady : AreReady rows stamp (moveAll payload moves))
    (hRoot : ∀ move ∈ moves, move.resident.slot = source → move.entity = updated)
    (hEarly : ∀ move ∈ moves, ∀ earlier : Stamp, earlier.rank ≤ move.floor.rank → isEarly earlier)
    (hWritable : ∀ move ∈ moves, isWritable move.entity) :
    rows.Alters (rows.apply (batch stamp (moveAll payload moves) none)) isEarly isWritable source
      target updated := by
  refine ⟨⟨hRelocation.type, Or.inr hRelocation.dead, ?_, ?_⟩, ?_, ?_⟩
  · rintro old new before ⟨hGoes, hHolds, _⟩ slot version hSlot hNewest
    obtain ⟨move, hMove, rfl, rfl, rfl⟩ := hRelocation.exists_move hGoes hHolds
    exact hEarly move hMove _ ((hRelocation.leads move hMove).rank_le_floor
      (hRelocation.lives hMove) hSlot hNewest)
  · rintro old new before after ⟨hGoes, hHolds, _⟩ hBecomes
    obtain ⟨move, hMove, rfl, rfl, rfl⟩ := hRelocation.exists_move hGoes hHolds
    rw [hBecomes.eq (hRelocation.becomes hRoot hMove)]
    exact hWritable move hMove
  · intro slot entity
    rw [hReady.holds_iff hSound]
    constructor
    · rintro (⟨turn, hTurn, hTarget⟩ | ⟨hOther, hHolds⟩)
      · obtain ⟨move, hMove, rfl⟩ := List.mem_map.mp hTurn
        cases hTarget
        exact Or.inl ⟨_, _, hRelocation.goes hMove, (hRelocation.lives hMove).holds,
          hRelocation.becomes hRoot hMove⟩
      · refine Or.inr ⟨fun hIn => hOther ?_, hHolds⟩
        obtain ⟨new, hGoes⟩ := Slot.exists_goes hIn hRelocation.type
        obtain ⟨move, hMove, rfl, _⟩ := hRelocation.exists_move hGoes hHolds
        exact mem_written_moveAll_iff.mpr ⟨move, hMove, Or.inr rfl⟩
    · rintro (⟨old, before, hGoes, hHolds, hBecomes⟩ | ⟨hOutside, hHolds⟩)
      · obtain ⟨move, hMove, rfl, rfl, rfl⟩ := hRelocation.exists_move hGoes hHolds
        refine Or.inl ⟨move.turn payload, List.mem_map.mpr ⟨move, hMove, rfl⟩, ?_⟩
        rw [hBecomes.eq (hRelocation.becomes hRoot hMove)]
        rfl
      · refine Or.inr ⟨fun hWritten => ?_, hHolds⟩
        obtain ⟨move, hMove, rfl | rfl⟩ := mem_written_moveAll_iff.mp hWritten
        · exact (hReady.fits _ (List.mem_map.mpr ⟨move, hMove, rfl⟩)).2.1 (.of_holds hHolds)
        · exact hOutside (hRelocation.goes hMove).inside
  · intro slot
    by_cases hWritten : slot ∈ written (moveAll payload moves)
    · obtain ⟨move, hMove, hSlot⟩ := mem_written_moveAll_iff.mp hWritten
      refine Or.inr fun version hNewest => ?_
      exact hEarly move hMove _ ((hRelocation.leads move hMove).rank_le_floor
        (hRelocation.lives hMove) hSlot.symm hNewest)
    · exact Or.inl (hReady.newest?_other hSound.shaped hWritten)

end Turn

/-! ### Stamps that come early enough -/

namespace Stamp

theorem millis_le_of_rank_le {earlier later : Stamp} (hRank : earlier.rank ≤ later.rank) :
    earlier.millis.toNat ≤ later.millis.toNat := by
  have hSeq := earlier.seq.toNat_lt
  have hLater := later.seq.toNat_lt
  simp only [rank] at hRank
  omega

/-- The stamp that is given out is not after any stamp that could have been. -/
theorem rank_next_le {limit now : Millis} {lastStamp floor issued other : Stamp}
    (hNext : next limit now lastStamp (some floor) = .ok issued)
    (hLast : lastStamp.rank < other.rank) (hFloor : floor.rank < other.rank)
    (hNow : now ≤ other.millis) : issued.rank ≤ other.rank := by
  have hLater : (lastStamp.later floor).rank < other.rank := by
    rw [rank_later]
    omega
  simp only [next] at hNext
  split at hNext
  next => cases hNext
  next =>
    cases Except.ok.inj hNext
    split
    next =>
      rw [UInt64.le_iff_toNat_le] at hNow
      simp only [rank]
      simp
      omega
    next =>
      have hNotLast : lastStamp.later floor ≠ last := fun hEq => by
        rw [hEq] at hLater
        exact absurd other.rank_le_last (Nat.not_le_of_lt hLater)
      rw [rank_successor hNotLast]
      exact hLater

end Stamp

namespace Store

variable {store : Store} {later stamp floor : Stamp}

/-- Whether a stamp is earlier than another one, and not ahead of the clock by more than the skew. -/
structure IsEarly (store : Store) (later stamp : Stamp) : Prop where
  before : stamp.rank < later.rank
  timely : stamp.millis.toNat ≤ store.clock.toNat + store.settings.skewMillis.toNat

/-- What comes no later than a floor comes early enough for the stamp that was given out after it. -/
theorem isEarly_of_issues (hIssues : store.Issues (some floor) later)
    (hLast : store.lastStamp ≠ .last) (hFloor : floor ≠ .last) (hBehind : stamp.rank ≤ floor.rank) :
    store.IsEarly later stamp := by
  have hAbove := (Stamp.rank_lt_next hIssues hLast fun _ hSame => Option.some.inj hSame ▸ hFloor).2
    floor rfl
  have hTimely := Stamp.exists_next_iff.mp ⟨later, hIssues⟩ floor rfl
  exact ⟨Nat.lt_of_le_of_lt hBehind hAbove,
    Nat.le_trans (Stamp.millis_le_of_rank_le hBehind) hTimely⟩

/-- After what comes early enough a stamp is given out, and in time. -/
theorem exists_issues (hEarly : store.IsEarly later floor) (hLast : store.lastStamp.rank < later.rank)
    (hNow : store.clock ≤ later.millis) :
    ∃ issued, store.Issues (some floor) issued ∧ issued.rank ≤ later.rank := by
  obtain ⟨issued, hNext⟩ := Stamp.exists_next_iff.mpr (fun _ hSame =>
    Option.some.inj hSame ▸ hEarly.timely : ∀ stamp ∈ some floor, stamp.millis.toNat ≤
      store.clock.toNat + store.settings.skewMillis.toNat)
  exact ⟨issued, hNext, Stamp.rank_next_le hNext hLast hEarly.before hNow⟩

/-! ### What is written and what is held -/

section
variable {updated : Entity} {batch : Storage.Batch} (hSound : store.backend.rows.IsSound)
  (hLast : store.lastStamp ≠ .last) (hStamp : stamp ≠ .last)
include hSound hLast hStamp

/-- An entity that keeps its name is altered where it is. -/
theorem Rewriting.alters_stay {resident : Resident}
    (hRead : IsRead store.backend.rows resident.slot.name resident updated)
    (hRewriting : store.Rewriting resident.slot.type resident.slot.name resident.slot.name
      resident.version.stamp updated stamp batch) :
    ∃ floor, floor ≠ .last ∧ store.Issues (some floor) stamp ∧
      store.backend.rows.Alters (store.backend.rows.apply batch) (store.IsEarly stamp) store.CanWrite
        resident.slot resident.slot updated := by
  obtain ⟨hIssues, hWritten, payload, hRewrites, rfl⟩ := hRewriting.exists_stay hRead
  have hFloor := Rows.allowed_of_newest? hSound.shaped hRead.lives.newest
  have hEarly := isEarly_of_issues hIssues hLast hFloor (Nat.le_refl _)
  refine ⟨_, hFloor, hIssues, Turn.alters_stay hSound
    (hRewrites.areReady hSound hStamp (Stamp.lt_iff_rank.mpr hEarly.before)) ?_ hWritten⟩
  intro version hNewest
  cases Option.some.inj (hRead.lives.newest.symm.trans hNewest)
  exact hEarly

/-- An entity that gets another name is altered with everything alive below it. -/
theorem Rewriting.alters_moveAll {resident : Resident} {target : Slot}
    (hType : target.type = resident.slot.type) (hMoved : target.name ≠ resident.slot.name)
    (hRead : IsRead store.backend.rows target.name resident updated)
    (hRewriting : store.Rewriting resident.slot.type resident.slot.name target.name
      resident.version.stamp updated stamp batch) :
    ∃ floor, floor ≠ .last ∧ store.Issues (some floor) stamp ∧
      store.backend.rows.Alters (store.backend.rows.apply batch) (store.IsEarly stamp) store.CanWrite
        resident.slot target updated := by
  obtain ⟨moves, hRelocation, rfl, hIssues, hRoot, hWritten⟩ :=
    hRewriting.exists_moves hSound.shaped hType hMoved hRead
  have hFloor := @Stamp.latestOf_of_forall (· ≠ .last) (by decide) _
    (List.forall_mem_map.mpr (hRelocation.floor_ne_last hSound.shaped))
  have hEarly : ∀ move ∈ moves, ∀ earlier : Stamp, earlier.rank ≤ move.floor.rank →
      store.IsEarly stamp earlier := fun move hMove earlier hBehind =>
    isEarly_of_issues hIssues hLast hFloor
      (Nat.le_trans hBehind (Stamp.rank_le_latestOf (List.mem_map.mpr ⟨move, hMove, rfl⟩)))
  have hReady := Turn.areReady_moveAll hSound hRelocation hStamp fun move hMove =>
    Stamp.lt_iff_rank.mpr (hEarly move hMove _ (Nat.le_refl _)).before
  exact ⟨_, hFloor, hIssues, Turn.alters_moveAll hSound hRelocation hReady hRoot hEarly hWritten⟩

/-- What was found is altered in what is held by writing what was found to be written. -/
theorem Amends.exists_alters {type : EntityType} {name : Name} {modifier : String}
    {changes : List Change}
    (hAmends : store.Amends type name modifier changes updated stamp batch) :
    ∃ (source target : Slot) (current : Entity), source.type = type ∧ source.name = name ∧
      target.name = targetName source.name changes ∧
      store.backend.rows.Holds source current ∧
      store.changed modifier changes current = .ok updated ∧
      ∃ floor, floor ≠ .last ∧ store.Issues (some floor) stamp ∧
        store.backend.rows.Alters (store.backend.rows.apply batch) (store.IsEarly stamp)
          store.CanWrite source target updated := by
  obtain ⟨resident, rfl, rfl, hChanged, hRead, hRewriting⟩ := hAmends.exists_read hSound.shaped
  obtain ⟨target, hType, hGoal⟩ := hRead.exists_target
  refine ⟨resident.slot, target, resident.entity, rfl, rfl, hGoal, hRead.lives.holds, hChanged, ?_⟩
  rw [← hGoal] at hRead hRewriting
  by_cases hSame : target.name = resident.slot.name
  · cases Slot.eq_of_parts hType hSame
    exact hRewriting.alters_stay hSound hLast hStamp hRead
  · exact hRewriting.alters_moveAll hSound hLast hStamp hType hSame hRead

end

section
variable {resident : Resident} {target : Slot} {updated : Entity}
  (hMay : store.backend.rows.MayAlter (store.IsEarly later) store.CanWrite resident.slot target updated)
  (hRead : IsRead store.backend.rows target.name resident updated)
  (hLast : store.lastStamp.rank < later.rank) (hNow : store.clock ≤ later.millis)
include hMay hRead hLast hNow

/-- What may be altered where it is can be written there, with a stamp no later than the given one. -/
theorem exists_rewriting_stay (hSame : target.name = resident.slot.name) :
    ∃ stamp batch, store.Rewriting resident.slot.type resident.slot.name target.name
      resident.version.stamp updated stamp batch ∧ stamp.rank ≤ later.rank := by
  have hCarries : store.backend.rows.Carries resident.slot target resident.slot target
      resident.entity := ⟨.root hMay.type, hRead.lives.holds, Or.inl rfl⟩
  obtain ⟨stamp, hIssues, hRank⟩ :=
    exists_issues (hMay.early hCarries _ _ (Or.inl rfl) hRead.lives.newest) hLast hNow
  obtain ⟨payload, hPayload⟩ :=
    hMay.writable hCarries ⟨fun _ => rfl, fun hOther => absurd rfl hOther⟩
  obtain ⟨op, hPut⟩ : ∃ op, store.putLive (Key.entity resident.slot.type resident.slot.name) stamp
      updated = .ok op := ⟨_, by rw [putLive, hPayload]; rfl⟩
  refine ⟨stamp, [op], ?_, hRank⟩
  rw [Rewriting, if_pos hSame]
  exact ⟨hIssues, op, hPut, rfl⟩

/-- What may be altered under another name can be written there, with everything alive below it. -/
theorem exists_rewriting_moveAll (hSound : store.backend.rows.IsSound)
    (hMayCall : ∀ call, store.backend.permit call = .ok ())
    (hMoved : target.name ≠ resident.slot.name) :
    ∃ stamp batch, store.Rewriting resident.slot.type resident.slot.name target.name
      resident.version.stamp updated stamp batch ∧ stamp.rank ≤ later.rank := by
  have hApart : target ≠ resident.slot := fun hEq => hMoved (congrArg Slot.name hEq)
  obtain ⟨relocations, hRelocate⟩ := Catalog.exists_relocateTree hSound.shaped hMayCall
    hMay.type.symm (hMay.free.resolve_left hApart) hRead.type resident.version.stamp
  obtain ⟨_, moves, rfl, hSubtree, hLeads, hRoot⟩ := Catalog.relocateTree_eq_ok hSound.shaped
    hMay.type.symm hRead.lives rfl hRead.keeps hRead.name hRelocate
  have hCarries := hSubtree.carries hLeads hApart
  have hEarly : ∀ move ∈ moves, store.IsEarly later move.floor := by
    intro move hMove
    have hBefore := hMay.early (hCarries move hMove)
    rcases (hLeads move hMove).found with hEq | ⟨version, hNewest, hEq⟩
    · rw [hEq]
      exact hBefore _ _ (Or.inl rfl)
        (hSubtree.lives _ (List.mem_map.mpr ⟨move, hMove, rfl⟩)).newest
    · rw [hEq]
      exact hBefore _ _ (Or.inr rfl) hNewest
  have hZero : store.IsEarly later .zero := ⟨Nat.zero_lt_of_lt hLast, Nat.zero_le _⟩
  have hFloor := Stamp.latestOf_of_forall hZero (List.forall_mem_map.mpr hEarly)
  rw [← Catalog.latestFloor_eq] at hFloor
  obtain ⟨stamp, hIssues, hRank⟩ := exists_issues hFloor hLast hNow
  obtain ⟨batch, hBatch⟩ : ∃ batch,
      Relocation.batch store stamp (moves.map Move.relocation) = .ok batch := by
    refine Relocation.exists_batch_iff.mpr fun relocation hRelocation => ?_
    obtain ⟨move, hMove, rfl⟩ := List.mem_map.mp hRelocation
    exact hMay.writable (hCarries move hMove) ⟨hRoot move hMove, (hLeads move hMove).kept⟩
  refine ⟨stamp, batch, ?_, hRank⟩
  rw [Rewriting, if_neg hMoved]
  exact ⟨_, hRelocate, hIssues, hBatch⟩

end

section
variable {source target : Slot} {modifier : String} {changes : List Change} {current updated : Entity}

/-- What may be altered is found by altering, with a stamp that is no later than the given one. -/
theorem exists_amends (hSound : store.backend.rows.IsSound) (hOpen : store.closed = false)
    (hMayCall : ∀ call, store.backend.permit call = .ok ())
    (hMay : store.backend.rows.MayAlter (store.IsEarly later) store.CanWrite source target updated)
    (hGoal : target.name = targetName source.name changes)
    (hHolds : store.backend.rows.Holds source current)
    (hChecked : Change.validateAll source.type changes = .ok ()) (hChanging : changes ≠ [])
    (hChanged : store.changed modifier changes current = .ok updated)
    (hLast : store.lastStamp.rank < later.rank) (hNow : store.clock ≤ later.millis) :
    ∃ stamp batch, store.Amends source.type source.name modifier changes updated stamp batch ∧
      stamp.rank ≤ later.rank := by
  obtain ⟨latest, hEntity⟩ := Catalog.entity?_of_holds hSound.shaped hHolds
  rw [hMayCall] at hEntity
  have hLoad : store.loadForChange source.type source.name = .ok (latest, current) := by
    simp [loadForChange, hEntity]
  obtain ⟨resident, rfl, rfl, rfl, hLives, _⟩ := loadForChange_eq_ok hSound.shaped hLoad
  have hRead := isRead_of_changed hSound.shaped hLives hChanged
  rw [← hGoal] at hRead
  obtain ⟨stamp, batch, hRewriting, hRank⟩ : ∃ stamp batch, store.Rewriting resident.slot.type
      resident.slot.name target.name resident.version.stamp updated stamp batch ∧
        stamp.rank ≤ later.rank := by
    by_cases hSame : target.name = resident.slot.name
    · exact exists_rewriting_stay hMay hRead hLast hNow hSame
    · exact exists_rewriting_moveAll hMay hRead hLast hNow hSound hMayCall hSame
  rw [hGoal] at hRewriting
  exact ⟨stamp, batch, ⟨hOpen, resident.slot.fits, hChecked, hChanging, _, _, hLoad, hChanged,
    hRewriting⟩, hRank⟩

end

end Store

end VersionedCatalog
