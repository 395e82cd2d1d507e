import VersionedCatalog.Proofs.Trying

/-! # Switching locations

A switch exchanges two of the locations of a fileset: those of two backup keys, or the primary one
and that of a backup key. It touches nothing else, and the same switch takes it back
(`Change.switches`). So however often locations are switched, a fileset has the same ones, each as
often as before.

What carries this is one fact about maps: with a new value for a key that was there, the values are
the old ones with the new in the place of the old one (`OrderedMap.perm_values_insert`).
-/

namespace VersionedCatalog

namespace OrderedMap

variable {κ ν : Type} [LT κ] [DecidableLT κ] [DecidableEq κ] [StrictLinear κ]

def values (m : OrderedMap κ ν) : List ν := m.entries.map (·.2)

/-- A new value for a key that is there takes the place of the old one. -/
theorem perm_values_insert {m : OrderedMap κ ν} {k : κ} {old : ν} (hFound : m.get? k = some old)
    (new : ν) : (old :: (m.insert k new).values).Perm (new :: m.values) := by
  have hNew := (perm_insert m k new).map (·.2)
  have hOld := (perm_insert m k old).map (·.2)
  rw [insert_of_get? hFound] at hOld
  calc List.Perm (old :: (m.insert k new).values)
        (old :: new :: (m.erase k).values) := hNew.cons old
    List.Perm _ (new :: old :: (m.erase k).values) := .swap _ _ _
    List.Perm _ (new :: m.values) := hOld.symm.cons new

theorem filter_insert {m : OrderedMap κ ν} {p : κ → ν → Bool} {k : κ} {v : ν}
    (hKept : p k v = true) : (m.insert k v).filter p = (m.filter p).insert k v := by
  refine eq_of_get? fun key => ?_
  rw [get?_filter, get?_insert, get?_insert, get?_filter]
  split
  next hSame => rw [hSame, Option.filter_some_pos hKept]
  next => rfl

end OrderedMap

namespace Entity

/-- The locations of a fileset: the primary one, if any, and the backup locations. -/
def locations (entity : Entity) : List String := entity.location?.toList ++ entity.backups.values

/-- Whether an entity is another one with the values of two properties exchanged. -/
structure Exchanges (before after : Entity) (first second : String) : Prop where
  there : after.properties.get? second = before.properties.get? first
  back : after.properties.get? first = before.properties.get? second
  others : ∀ key, key ≠ first → key ≠ second →
    after.properties.get? key = before.properties.get? key
  rest : after = { before with properties := after.properties }

namespace Exchanges

variable {before after other : Entity} {first second : String}
  (hExchanges : before.Exchanges after first second)
include hExchanges

theorem swap : before.Exchanges after second first :=
  ⟨hExchanges.back, hExchanges.there,
    fun key hSecond hFirst => hExchanges.others key hFirst hSecond, hExchanges.rest⟩

theorem symm : after.Exchanges before first second := by
  refine ⟨hExchanges.back.symm, hExchanges.there.symm,
    fun key hFirst hSecond => (hExchanges.others key hFirst hSecond).symm, ?_⟩
  rw [hExchanges.rest]

theorem unique (hOther : before.Exchanges other first second) : after = other := by
  have hSame : after.properties = other.properties := OrderedMap.eq_of_get? fun key => by
    by_cases hFirst : key = first
    · rw [hFirst, hExchanges.back, hOther.back]
    · by_cases hSecond : key = second
      · rw [hSecond, hExchanges.there, hOther.there]
      · rw [hExchanges.others key hFirst hSecond, hOther.others key hFirst hSecond]
  rw [hExchanges.rest, hOther.rest, hSame]

end Exchanges

/-- Whether a fileset is another one with its primary location and the value of a property
exchanged. -/
structure ExchangesPrimary (before after : Entity) (key : String) : Prop where
  there : after.properties.get? key = before.location?
  back : after.location? = before.properties.get? key
  others : ∀ other, other ≠ key → after.properties.get? other = before.properties.get? other
  kind : after.kind.fixed = before.kind.fixed
  rest : after = { before with properties := after.properties, kind := after.kind }

/-- A kind is what is fixed about it and, for a fileset, where it is. -/
theorem kind_eq_of_fixed {one other : Entity} (hType : one.type = .fileset)
    (hFixed : one.kind.fixed = other.kind.fixed) (hLocation : one.location? = other.location?) :
    one.kind = other.kind := by
  unfold location? at hLocation
  unfold type at hType
  cases hOne : one.kind <;> cases hTwo : other.kind <;> simp_all [Kind.fixed, Kind.type]

namespace ExchangesPrimary

variable {before after other : Entity} {key : String}
  (hExchanges : before.ExchangesPrimary after key)
include hExchanges

theorem symm : after.ExchangesPrimary before key := by
  refine ⟨hExchanges.back.symm, hExchanges.there.symm,
    fun other hOther => (hExchanges.others other hOther).symm, hExchanges.kind.symm, ?_⟩
  rw [hExchanges.rest]

theorem unique (hType : after.type = .fileset) (hOther : before.ExchangesPrimary other key) :
    after = other := by
  have hProperties : after.properties = other.properties := OrderedMap.eq_of_get? fun found => by
    by_cases hKey : found = key
    · rw [hKey, hExchanges.there, hOther.there]
    · rw [hExchanges.others found hKey, hOther.others found hKey]
  have hKind : after.kind = other.kind := kind_eq_of_fixed hType
    (hExchanges.kind.trans hOther.kind.symm) (hExchanges.back.trans hOther.back.symm)
  rw [hExchanges.rest, hOther.rest, hProperties, hKind]

end ExchangesPrimary

/-! ### The values that are exchanged -/

theorem exchanges_of_get? {entity : Entity} {first second firstValue secondValue : String}
    (hFirst : entity.properties.get? first = some firstValue)
    (hSecond : entity.properties.get? second = some secondValue) :
    entity.Exchanges ((entity.withProperty second firstValue).withProperty first secondValue)
      first second := by
  refine ⟨?_, ?_, fun key hNotFirst hNotSecond => ?_, rfl⟩
  · show ((entity.properties.insert second firstValue).insert first secondValue).get? second = _
    rw [OrderedMap.get?_insert, OrderedMap.get?_insert, if_pos rfl, hFirst]
    split
    next hSame =>
      -- one key given twice
      rw [← hSame, hSecond] at hFirst
      exact hFirst
    next => rfl
  · show ((entity.properties.insert second firstValue).insert first secondValue).get? first = _
    rw [OrderedMap.get?_insert, if_pos rfl, hSecond]
  · show ((entity.properties.insert second firstValue).insert first secondValue).get? key = _
    rw [OrderedMap.get?_insert, if_neg hNotFirst, OrderedMap.get?_insert, if_neg hNotSecond]

theorem exchangesPrimary_of_get? {entity : Entity} {key location primary : String}
    (hFound : entity.properties.get? key = some location)
    (hLocated : entity.location? = some primary) :
    entity.ExchangesPrimary ((entity.withLocation location).withProperty key primary) key := by
  have hType := type_of_location? hLocated
  refine ⟨?_, ?_, fun other hOther => ?_, (endures_withLocation entity location).kind, ?_⟩
  · rw [withProperty, OrderedMap.get?_insert, if_pos rfl, hLocated]
  · exact (location?_withLocation hType location).trans hFound.symm
  · rw [withProperty, OrderedMap.get?_insert, if_neg hOther, properties_withLocation]
  · unfold withLocation
    split <;> rfl

section Backups

variable {entity : Entity} {key : String} (hType : entity.type = .fileset)
  (hBackup : Change.isBackupKey key = true)
include hType hBackup

theorem backups_withProperty (value : String) :
    (entity.withProperty key value).backups = entity.backups.insert key value := by
  have hStem := (Bool.and_eq_true_iff.mp hBackup).1
  have hAfter : (entity.withProperty key value).type = .fileset := hType
  rw [backups, if_pos hAfter, backups, if_pos hType]
  exact OrderedMap.filter_insert hStem

theorem get?_backups : entity.backups.get? key = entity.properties.get? key := by
  have hStem := (Bool.and_eq_true_iff.mp hBackup).1
  rw [backups, if_pos hType, OrderedMap.get?_filter]
  cases entity.properties.get? key with
  | none => rfl
  | some value => exact Option.filter_some_pos hStem

omit hType hBackup in
theorem backups_withLocation (location : String) :
    (entity.withLocation location).backups = entity.backups := by
  have hType := (keeps_withLocation entity location).type
  rw [backups, backups, hType, properties_withLocation]

/-- The value that a backup location gets takes the place of the one that it had. -/
theorem perm_backups_withProperty {old : String} (hFound : entity.properties.get? key = some old)
    (new : String) : (old :: (entity.withProperty key new).backups.values).Perm
      (new :: entity.backups.values) := by
  rw [backups_withProperty hType hBackup]
  rw [← get?_backups hType hBackup] at hFound
  exact OrderedMap.perm_values_insert hFound new

end Backups

end Entity

namespace Change

open Entity

/-- Whether a change exchanges locations. -/
def isSwitch : Change → Bool
  | .switchBackups _ _ => true
  | .switchPrimary _ => true
  | _ => false

/-- A switch only gives the locations to each other. -/
theorem Makes.perm_locations {change : Change} {entity changed : Entity}
    (hMakes : change.Makes entity changed) (hSwitch : change.isSwitch = true)
    (hType : entity.type = .fileset) : changed.locations.Perm entity.locations := by
  cases hMakes with
  | @switchBackups first second firstLocation secondLocation backups found there =>
    have hBetween : (entity.withProperty second firstLocation).properties.get? first =
        some firstLocation := by
      rw [withProperty, OrderedMap.get?_insert, found]
      exact ite_self _
    have hSecond := perm_backups_withProperty hType backups.2 there firstLocation
    have hStill : (entity.withProperty second firstLocation).type = .fileset := hType
    have hFirst := perm_backups_withProperty hStill backups.1 hBetween secondLocation
    exact ((hFirst.trans hSecond).cons_inv).append_left _
  | @switchPrimary key location primary backup found located =>
    have hLocated := location?_withLocation hType location
    have hMoved : (entity.withLocation location).type = .fileset :=
      (keeps_withLocation entity location).type.trans hType
    rw [← properties_withLocation entity location] at found
    have hPerm := perm_backups_withProperty hMoved backup found primary
    rw [backups_withLocation] at hPerm
    have hAfter : ((entity.withLocation location).withProperty key primary).location? =
      some location := hLocated
    rw [locations, locations, hAfter, located]
    exact hPerm
  | _ => cases hSwitch

theorem perm_locations_applyAll {changes : List Change} {entity changed : Entity}
    (hSwitches : ∀ change ∈ changes, change.isSwitch = true) (hType : entity.type = .fileset)
    (hOk : applyAll changes entity = .ok changed) : changed.locations.Perm entity.locations := by
  induction changes generalizing entity with
  | nil => cases hOk; exact .refl _
  | cons change rest ih =>
    obtain ⟨hFirst, hRest⟩ := List.forall_mem_cons.mp hSwitches
    obtain ⟨between, _, hMakes, hLast⟩ := applyAll_cons_eq_ok hOk
    have hBetween := hMakes.keeps.type.trans hType
    exact (ih hRest hBetween hLast).trans (hMakes.perm_locations hFirst hType)

section Applied

variable {entity : Entity} (hType : entity.type = .fileset)
include hType

theorem exists_switchBackups {first second firstValue secondValue : String}
    (hFirst : isBackupKey first = true) (hSecond : isBackupKey second = true)
    (hHere : entity.properties.get? first = some firstValue)
    (hThere : entity.properties.get? second = some secondValue) :
    ∃ after, (switchBackups first second).apply entity = (.ok (), after) ∧
      entity.Exchanges after first second := by
  have hValid : (switchBackups first second).validate entity.type = .ok () := by
    simp only [validate, checkType, checkBackupKey, hType, hFirst, hSecond]
    rfl
  refine ⟨_, ?_, exchanges_of_get? hHere hThere⟩
  rw [apply, hValid]
  exact run_switchBackups hHere hThere

theorem exists_switchPrimary {key location primary : String} (hBackup : isBackupKey key = true)
    (hFound : entity.properties.get? key = some location)
    (hLocated : entity.location? = some primary) :
    ∃ after, (switchPrimary key).apply entity = (.ok (), after) ∧
      entity.ExchangesPrimary after key := by
  have hValid := validate_switchPrimary_iff.mpr ⟨hType, hBackup⟩
  refine ⟨_, ?_, exchangesPrimary_of_get? hFound hLocated⟩
  rw [apply, hValid]
  exact run_switchPrimary_of_located hType hFound hLocated

end Applied

/-- Switching two backup locations of a fileset exchanges their values and nothing else, in
whatever order the keys are given and also if they are one; switching the primary location of a
fileset that has one exchanges it with that of the backup key and nothing else. Either is taken back
by doing it again. So the locations after any switches are those from before, each as often. -/
theorem switches {entity : Entity} (hType : entity.type = .fileset) :
    (∀ first second, isBackupKey first = true → isBackupKey second = true →
      entity.properties.contains first = true → entity.properties.contains second = true →
      ∃ after, (switchBackups first second).apply entity = (.ok (), after) ∧
        entity.Exchanges after first second ∧
        (switchBackups second first).apply entity = (.ok (), after) ∧
        (switchBackups first second).apply after = (.ok (), entity)) ∧
    (∀ key, isBackupKey key = true → entity.properties.contains key = true →
      entity.location?.isSome = true →
      ∃ after, (switchPrimary key).apply entity = (.ok (), after) ∧
        entity.ExchangesPrimary after key ∧
        (switchPrimary key).apply after = (.ok (), entity)) ∧
    ∀ changes after, (∀ change ∈ changes, change.isSwitch = true) →
      applyAll changes entity = .ok after → after.locations.Perm entity.locations := by
  refine ⟨fun first second hFirst hSecond hHere hThere => ?_,
    fun key hBackup hFound hLocated => ?_,
    fun changes after hSwitches hOk => perm_locations_applyAll hSwitches hType hOk⟩
  · obtain ⟨firstValue, hFirstValue⟩ := Option.isSome_iff_exists.mp hHere
    obtain ⟨secondValue, hSecondValue⟩ := Option.isSome_iff_exists.mp hThere
    obtain ⟨after, hApply, hExchanges⟩ :=
      exists_switchBackups hType hFirst hSecond hFirstValue hSecondValue
    obtain ⟨other, hOther, hSwapped⟩ :=
      exists_switchBackups hType hSecond hFirst hSecondValue hFirstValue
    have hAfter : after.type = .fileset := by
      rw [hExchanges.rest]
      exact hType
    obtain ⟨again, hAgain, hBack⟩ := exists_switchBackups hAfter hFirst hSecond
      (hExchanges.back.trans hSecondValue) (hExchanges.there.trans hFirstValue)
    cases hSwapped.swap.unique hExchanges
    cases hBack.unique hExchanges.symm
    exact ⟨after, hApply, hExchanges, hOther, hAgain⟩
  · obtain ⟨location, hLocation⟩ := Option.isSome_iff_exists.mp hFound
    obtain ⟨primary, hPrimary⟩ := Option.isSome_iff_exists.mp hLocated
    obtain ⟨after, hApply, hExchanges⟩ := exists_switchPrimary hType hBackup hLocation hPrimary
    have hMoved := hExchanges.back.trans hLocation
    have hAfter := type_of_location? hMoved
    obtain ⟨again, hAgain, hBack⟩ :=
      exists_switchPrimary hAfter hBackup (hExchanges.there.trans hPrimary) hMoved
    cases hExchanges.symm.unique hType hBack
    exact ⟨after, hApply, hExchanges, hAgain⟩

end Change

/-! ### A fileset of three locations -/

namespace Sample

def otherKey : String := "backup-storage-location-2"

def moored : Entity :=
  { adrift with
    properties := OrderedMap.ofList [(spareKey, "/bak"), (otherKey, "/old"), ("owner", "alice")]
    kind := .fileset .managed (some "/primary") }

def movedAbout : Entity :=
  { moored with
    properties := OrderedMap.ofList [(spareKey, "/old"), (otherKey, "/primary"), ("owner", "alice")]
    kind := .fileset .managed (some "/bak") }

theorem switches_moored :
    (∃ after, (Change.switchBackups spareKey otherKey).apply moored = (.ok (), after) ∧
      moored.Exchanges after spareKey otherKey ∧
      (Change.switchBackups otherKey spareKey).apply moored = (.ok (), after) ∧
      (Change.switchBackups spareKey otherKey).apply after = (.ok (), moored)) ∧
    (∃ after, (Change.switchPrimary otherKey).apply moored = (.ok (), after) ∧
      moored.ExchangesPrimary after otherKey ∧
      (Change.switchPrimary otherKey).apply after = (.ok (), moored)) ∧
    Change.applyAll [.switchPrimary otherKey, .switchBackups otherKey spareKey,
      .switchPrimary otherKey, .switchBackups spareKey otherKey] moored = .ok movedAbout ∧
    movedAbout.locations.Perm moored.locations := by
  have hType : moored.type = .fileset := rfl
  have hOk : Change.applyAll [.switchPrimary otherKey, .switchBackups otherKey spareKey,
      .switchPrimary otherKey, .switchBackups spareKey otherKey] moored = .ok movedAbout := by
    decide +kernel
  have hBoth := Change.switches hType
  exact ⟨hBoth.1 spareKey otherKey (by decide) (by decide) (by decide +kernel) (by decide +kernel),
    hBoth.2.1 otherKey (by decide) (by decide +kernel) rfl, hOk,
    hBoth.2.2 _ _ (by decide) hOk⟩

end Sample

end VersionedCatalog
