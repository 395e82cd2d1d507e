import VersionedCatalog.Proofs.Histories

/-! # Retention

A stamp is never before the clock (`Stamp.le_millis_of_next`), however often the clock was set back
and however many stamps one time had to do for. So what becomes old by a write, or is a tombstone or
a marker, cannot have expired before the clock said the time of this write (`Rows.Lingers`). Writing
leaves that as it is and so does every pass that leaves the version, and a pass that comes sooner
than versions are kept leaves it (`Rows.Lingers.not_isExpired`). Passes compare words: where versions
are to be kept for longer than a word can say they are kept for as long as it can
(`Settings.toNat_retentionMillis`).
-/

namespace VersionedCatalog

open Storage (Rows Backend Call)

/-! ### Stamps and the clock -/

theorem Stamp.millis_le_successor (stamp : Stamp) :
    stamp.millis.toNat ≤ stamp.successor.millis.toNat := by
  have hFits := stamp.millis.toNat_lt
  unfold successor
  split
  next => exact Nat.le_refl _
  next =>
    simp only [Millis.toNat_plus]
    simp
    omega

/-- A stamp that is given out is not before the clock. -/
theorem Stamp.le_millis_of_next {limit now : Millis} {lastStamp issued : Stamp}
    {latest : Option Stamp} (hNext : next limit now lastStamp latest = .ok issued) :
    now ≤ issued.millis := by
  have hFloor : ∀ floor : Stamp,
      now ≤ (if floor.millis < now then ⟨now, 0⟩ else floor.successor : Stamp).millis := by
    intro floor
    split
    next => exact UInt64.le_refl now
    next hReached =>
      have hBehind := UInt64.le_iff_toNat_le.mp (UInt64.not_lt.mp hReached)
      exact UInt64.le_iff_toNat_le.mpr (Nat.le_trans hBehind (millis_le_successor floor))
  cases latest with
  | none =>
    cases Except.ok.inj hNext
    exact hFloor lastStamp
  | some stamp =>
    simp only [next] at hNext
    split at hNext
    next => cases hNext
    next =>
      cases Except.ok.inj hNext
      exact hFloor (lastStamp.later stamp)

/-- For how many milliseconds versions are to be kept. -/
def Settings.keepMillis (settings : Settings) : Nat :=
  (settings.deleteAfter.nanos + settings.skew.nanos) / 1000000

/-- Versions are kept for as long as they are to be, if a word can say it. -/
theorem Settings.toNat_retentionMillis (settings : Settings) :
    settings.retentionMillis.toNat = min settings.keepMillis (UInt64.size - 1) := by
  have hWord : settings.retentionMillis.toNat =
      min (min (settings.deleteAfter.nanos + settings.skew.nanos) Span.longest.nanos / 1000000)
        (UInt64.size - 1) := by
    refine UInt64.toNat_ofNat_of_lt' ?_
    have hSize : 0 < UInt64.size := by decide
    simp only [Span.millis]
    omega
  have hLongest : UInt64.size - 1 ≤ Span.longest.nanos / 1000000 := by decide +kernel
  rw [hWord, keepMillis]
  omega

/-! ### Versions that linger -/

namespace Storage.Rows

/-- A version of a slot that cannot have expired before a time: it was written then or later, or the
one that follows it was. -/
inductive Lingers (rows : Rows) (slot : Slot) (version : Version) (time : Millis) : Prop
  | written (has : rows.HasVersion slot version) (since : time ≤ version.stamp.millis)
  | followed {next : Version} (follows : rows.Follows slot version next)
      (since : time ≤ next.stamp.millis)

variable {rows others : Rows} {slot : Slot} {version next : Version} {time : Millis}

theorem Lingers.hasVersion (hLingers : rows.Lingers slot version time) :
    rows.HasVersion slot version := by
  cases hLingers with
  | written has => exact has
  | followed follows => exact follows.hasFirst

/-- What is written comes behind both. -/
theorem Follows.grows (hFollows : rows.Follows slot version next) (hGrows : rows.Grows others) :
    others.Follows slot version next := by
  refine ⟨hGrows.kept hFollows.hasFirst, hGrows.kept hFollows.hasSecond, hFollows.before,
    fun other hOther hAfter hUntil => ?_⟩
  rcases hGrows.later hOther with hOld | hBehind
  · exact hFollows.next other hOld hAfter hUntil
  · have hLater := hBehind next hFollows.hasSecond
    rw [Stamp.lt_iff_rank] at hUntil hLater
    omega

theorem Lingers.grows (hLingers : rows.Lingers slot version time) (hGrows : rows.Grows others) :
    others.Lingers slot version time := by
  cases hLingers with
  | written has since => exact .written (hGrows.kept has) since
  | followed follows since => exact .followed (follows.grows hGrows) since

end Storage.Rows

namespace Sweep

/-- What was written since a time is not over as long as the policy keeps what expired then. -/
theorem Policy.not_isOver {policy : Policy} {time millis : Millis} (hSince : time ≤ millis)
    (hSoon : policy.now.toNat - time.toNat < policy.retention.toNat) :
    ¬ policy.isOver millis = true := by
  rw [UInt64.le_iff_toNat_le] at hSince
  rw [isOver, decide_eq_true_eq, UInt64.le_iff_toNat_le, Millis.since, Millis.toNat_minus]
  omega

end Sweep

namespace Storage.Rows

variable {backend : Backend} {policy : Sweep.Policy} {sweep : Sweep} {slot : Slot}
  {version next : Version} {time : Millis}

/-- A pass that comes soon does not remove what lingers. -/
theorem Lingers.not_isExpired {rows : Rows} (hLingers : rows.Lingers slot version time)
    (hSoon : policy.now.toNat - time.toNat < policy.retention.toNat) :
    ¬ Sweep.IsExpired policy rows slot version := by
  rintro ⟨_, hRemoves⟩
  cases hLingers with
  | written _ since =>
    have hNotOver := Sweep.Policy.not_isOver since hSoon
    rcases hRemoves with ⟨other, _, hLater, hOver⟩ | ⟨_, hOver, _⟩
    · exact hNotOver (Sweep.Policy.isOver_of_lt hLater hOver)
    · exact hNotOver hOver
  | @followed next follows since =>
    have hNotOver := Sweep.Policy.not_isOver since hSoon
    rcases hRemoves with ⟨other, hOther, hLater, hOver⟩ | ⟨_, _, hNewest⟩
    · -- the one that follows is not behind any other later one
      by_cases hSame : other.stamp = next.stamp
      · exact hNotOver (hSame ▸ hOver)
      · have hNotBefore := follows.next other hOther hLater
        refine hNotOver (Sweep.Policy.isOver_of_lt (Stamp.lt_iff_rank.mpr ?_) hOver)
        rw [Stamp.lt_iff_rank] at hNotBefore
        exact Nat.lt_of_le_of_ne (Nat.not_lt.mp hNotBefore) fun hRank =>
          hSame (Stamp.rank_injective hRank).symm
    · exact hNewest next follows.hasSecond follows.before

section
variable (hShaped : backend.rows.IsShaped) (hOk : Sweep.ofBackend policy backend = .ok sweep)
include hShaped hOk

/-- As long as a version is left, so is the one that follows it. -/
theorem Follows.swept (hFollows : backend.rows.Follows slot version next)
    (hLeft : (backend.rows.apply sweep.batch).HasVersion slot version) :
    (backend.rows.apply sweep.batch).Follows slot version next := by
  have hKept := ((Sweep.hasVersion_swept_iff hShaped hOk).mp hLeft).2
  refine ⟨hLeft, (Sweep.hasVersion_swept_iff hShaped hOk).mpr ⟨hFollows.hasSecond, ?_⟩,
    hFollows.before, fun other hOther => ?_⟩
  · intro expired hExpired hSame
    cases hExpired.1.eq_of_stamp hFollows.hasSecond hSame
    exact hKept version (hExpired.of_lt hFollows.hasFirst hFollows.before) rfl
  · exact hFollows.next other ((Sweep.hasVersion_swept_iff hShaped hOk).mp hOther).1

/-- What lingers goes on to do so if a pass leaves it, and a pass that comes soon does. -/
theorem Lingers.swept (hLingers : backend.rows.Lingers slot version time)
    (hSpared : policy.now.toNat - time.toNat < policy.retention.toNat ∨
      (backend.rows.apply sweep.batch).HasVersion slot version) :
    (backend.rows.apply sweep.batch).Lingers slot version time := by
  have hLeft : (backend.rows.apply sweep.batch).HasVersion slot version := by
    refine hSpared.elim (fun hSoon => ?_) id
    refine (Sweep.hasVersion_swept_iff hShaped hOk).mpr ⟨hLingers.hasVersion, ?_⟩
    intro expired hExpired hSame
    cases hExpired.1.eq_of_stamp hLingers.hasVersion hSame
    exact hLingers.not_isExpired hSoon hExpired
  cases hLingers with
  | written _ since => exact .written hLeft since
  | followed follows since => exact .followed (follows.swept hShaped hOk hLeft) since

end

/-- Whether a version becomes old on the way from some rows to others, or comes to be there without
being live. -/
def Ends (rows others : Rows) (slot : Slot) (version : Version) : Prop :=
  (rows.newest? slot = some version ∧ others.newest? slot ≠ some version) ∨
  (version.flag ≠ .live ∧ others.HasVersion slot version ∧ ¬ rows.HasVersion slot version)

theorem not_ends_self (rows : Rows) (slot : Slot) (version : Version) :
    ¬ rows.Ends rows slot version := by
  rintro (⟨hNewest, hNot⟩ | ⟨_, hHas, hNot⟩)
  · exact hNot hNewest
  · exact hNot hHas

end Storage.Rows

/-- What turns end lingers since the time of their stamp. -/
theorem Turn.AreReady.lingers {rows : Rows} {stamp : Stamp} {turns : List Turn}
    (hReady : AreReady rows stamp turns) (raise : Option Bytes) (hShaped : rows.IsShaped)
    {time : Millis} (hSince : time ≤ stamp.millis) {slot : Slot} {version : Version}
    (hEnds : rows.Ends (rows.apply (batch stamp turns raise)) slot version) :
    (rows.apply (batch stamp turns raise)).Lingers slot version time := by
  rcases hEnds with ⟨hNewest, hReplaced⟩ | ⟨_, hHas, hNew⟩
  · obtain ⟨hHas, hLatest⟩ := (Rows.newest?_eq_some_iff hShaped).mp hNewest
    have hSlot : slot ∈ written turns := by
      by_contra hOther
      exact hReplaced ((hReady.newest?_other hShaped hOther).trans hNewest)
    obtain ⟨turn, hTurn, flag, payload, hWrite⟩ := exists_of_mem_written hSlot
    have hIn := List.mem_flatMap.mpr ⟨turn, hTurn, hWrite⟩
    have hFollows : (rows.apply (batch stamp turns raise)).Follows slot version
        ⟨slot.stem, stamp, flag, payload⟩ := by
      refine ⟨(hReady.grows raise hShaped).kept hHas, ⟨rfl, hReady.get?_version hIn⟩,
        hReady.lt_of_hasVersion hShaped hSlot hHas, fun other hOther hAfter hUntil => ?_⟩
      rcases hReady.hasVersion_cases hOther with hOld | ⟨_, hStamp⟩
      · exact hLatest other hOld hAfter
      · exact Stamp.not_lt_self stamp (hStamp ▸ hUntil)
    exact .followed hFollows hSince
  · rcases hReady.hasVersion_cases hHas with hOld | ⟨_, hStamp⟩
    · exact absurd hOld hNew
    · exact .written hHas (hStamp ▸ hSince)

/-! ### Commands -/

namespace Command

/-- The time of the pass, if a command makes one. -/
def passTime? (store : Store) : Command → Option Millis
  | .mutate _ => none
  | .collect => some store.clock
  | .sweep now => some now

/-- Whether a command is no pass, or one that comes sooner after a time than a bound. -/
def IsSoon (bound : Settings → Nat) (time : Millis) (store : Store) (command : Command) : Prop :=
  ∀ now ∈ command.passTime? store, now.toNat - time.toNat < bound store.settings

variable {command : Command} {store after : Store} {slot : Slot} {version : Version}

/-- What a mutation ends lingers since the time of the clock. -/
theorem Changes.lingers_of_ends {mutation : Mutation}
    (hChanges : (Command.mutate mutation).Changes store after) (hSound : store.backend.rows.IsSound)
    (hBefore : store.lastStamp ≠ .last) (hAfter : after.lastStamp ≠ .last)
    (hEnds : store.backend.rows.Ends after.backend.rows slot version) :
    after.backend.rows.Lingers slot version store.clock := by
  cases hChanges with
  | kept rows => exact absurd (rows ▸ hEnds) (Rows.not_ends_self _ slot version)
  | mutated _ _ does carries stamp rows =>
    rw [rows, carries.batch] at hEnds ⊢
    have hReady := does.areReady hSound carries.issues hBefore (stamp ▸ hAfter)
    exact hReady.lingers _ hSound.shaped (Stamp.le_millis_of_next carries.issues) hEnds
  | swept named => rcases named with hSame | ⟨hSame, _⟩ <;> cases hSame

/-- What lingers goes on to do so, unless a pass that comes late removes it. -/
theorem Changes.lingers (hChanges : command.Changes store after)
    (hSound : store.backend.rows.IsSound) (hBefore : store.lastStamp ≠ .last)
    (hAfter : after.lastStamp ≠ .last) {time : Millis}
    (hLingers : store.backend.rows.Lingers slot version time)
    (hSpared : command.IsSoon (fun settings => settings.retentionMillis.toNat) time store ∨
      after.backend.rows.HasVersion slot version) :
    after.backend.rows.Lingers slot version time := by
  cases hChanges with
  | kept rows => rw [rows]; exact hLingers
  | mutated _ _ does carries stamp rows =>
    rw [rows, carries.batch]
    have hReady := does.areReady hSound carries.issues hBefore (stamp ▸ hAfter)
    exact hLingers.grows (hReady.grows _ hSound.shaped)
  | @swept now sweep named found rows =>
    rw [rows] at hSpared ⊢
    refine hLingers.swept hSound.shaped found (hSpared.imp_left fun hSoon => hSoon now ?_)
    rcases named with rfl | ⟨rfl, rfl⟩ <;> rfl

end Command

/-! ### Runs -/

namespace Store

/-- The states that a store comes to while each pass comes sooner after a time than a bound, or
leaves a version where it is. -/
inductive Spares (bound : Settings → Nat) (slot : Slot) (version : Version) (time : Millis)
    (store : Store) : Store → Prop
  | here : Spares bound slot version time store store
  | call {middle after : Store} {outcome : Except StoreError Reply} (command : Command)
      (faults : List Call) (valid : command.IsValid)
      (before : Spares bound slot version time store middle)
      (ran : command.perform.runDuring faults middle = (outcome, after)) (inTime : after.InTime)
      (spared : command.IsSoon bound time middle ∨ after.backend.rows.HasVersion slot version) :
      Spares bound slot version time store after
  | tick {middle : Store} (now : Millis) (before : Spares bound slot version time store middle) :
      Spares bound slot version time store (middle.setClock now)
  | close {middle after : Store} {outcome : Except StoreError Unit} (faults : List Call)
      (before : Spares bound slot version time store middle)
      (ran : close.runDuring faults middle = (outcome, after)) :
      Spares bound slot version time store after
  | reopen {middle after : Store} {backend : Backend} {settings : Settings} {ids : IdSource}
      {clock : Millis} (before : Spares bound slot version time store middle)
      (opened : middle.backend.Reopens backend)
      (made : ofBackend backend settings ids clock = .ok after) :
      Spares bound slot version time store after

variable {slot : Slot} {version : Version} {time : Millis}

/-- What lingers does so to the end of a run that spares it. -/
theorem Spares.lingers {store later : Store}
    (hSpares : Spares (fun settings => settings.retentionMillis.toNat) slot version time store later)
    (hReached : Reachable InTime store) (hLingers : store.backend.rows.Lingers slot version time) :
    Reachable InTime later ∧ later.backend.rows.Lingers slot version time := by
  induction hSpares with
  | here => exact ⟨hReached, hLingers⟩
  | call command faults valid _ ran inTime spared ih =>
    obtain ⟨hMiddle, hHere⟩ := ih
    obtain ⟨left, rfl, hChanges⟩ := hMiddle.changes valid ran
    exact ⟨hMiddle.call command faults valid ran inTime,
      hChanges.lingers hMiddle.isSound hMiddle.allowed inTime hHere spared⟩
  | tick now _ ih =>
    obtain ⟨hMiddle, hHere⟩ := ih
    exact ⟨hMiddle.tick now hMiddle.allowed, hHere⟩
  | close faults _ ran ih =>
    obtain ⟨hMiddle, hHere⟩ := ih
    obtain ⟨hAfter, hRows⟩ := reachable_closed hMiddle ran
    exact ⟨hAfter, hRows ▸ hHere⟩
  | reopen _ opened made ih =>
    obtain ⟨hMiddle, hHere⟩ := ih
    obtain ⟨hAfter, hRows⟩ := reachable_reopened hMiddle opened made
    exact ⟨hAfter, hRows ▸ hHere⟩

/-- Every version that a slot has is listed under its name. -/
theorem mem_versions_of_hasVersion {store : Store} (hShaped : store.backend.rows.IsShaped)
    (hHas : store.backend.rows.HasVersion slot version) {listed : List (Stamp × VersionState)}
    (hOk : store.versions slot.type slot.name = .ok listed) :
    ∃ state, versionState slot.type version = .ok state ∧ (version.stamp, state) ∈ listed := by
  obtain ⟨versions, hEach, _, hMem⟩ := exists_listing hShaped hOk
  obtain ⟨i, hIndex, rfl⟩ := List.getElem_of_mem ((hMem version).mpr ⟨slot, rfl, rfl, hHas⟩)
  have hListed : i < listed.length := hEach.length_eq ▸ hIndex
  obtain ⟨hStamp, hState⟩ := hEach.get hIndex hListed
  exact ⟨_, hState, List.mem_iff_getElem.mpr ⟨i, hListed, Prod.ext hStamp rfl⟩⟩

/-- A version that became old by a mutation, or was written by it as a tombstone or a marker, is
there and listed at the end of every run in which each pass comes sooner after the time of the
mutation than versions are kept. A pass that came later does no harm if it left the version. -/
theorem Reachable.retains_versions {store after later : Store} (hReached : Reachable InTime store)
    {mutation : Mutation} {faults : List Call} {outcome : Except StoreError Reply}
    (hValid : mutation.name.IsValid)
    (hRan : (Command.mutate mutation).perform.runDuring faults store = (outcome, after))
    (hAfter : after.InTime) (hEnds : store.backend.rows.Ends after.backend.rows slot version)
    (hSpares : Spares (fun settings => min settings.keepMillis (UInt64.size - 1)) slot version
      store.clock after later) :
    later.backend.rows.HasVersion slot version ∧
    (later.closed = false → ∃ listed, later.versions slot.type slot.name = .ok listed) ∧
    ∀ (during : List Call) (listed : List (Stamp × VersionState)),
      (later.withFaults during).versions slot.type slot.name = .ok listed →
      ∃ state, versionState slot.type version = .ok state ∧ (version.stamp, state) ∈ listed := by
  have hCommand : (Command.mutate mutation).IsValid := hValid
  obtain ⟨left, rfl, hChanges⟩ := hReached.changes hCommand hRan
  have hLingers : (left.withFaults []).backend.rows.Lingers slot version store.clock :=
    hChanges.lingers_of_ends hReached.isSound hReached.allowed hAfter hEnds
  simp only [← Settings.toNat_retentionMillis] at hSpares
  have hThere := hReached.call (.mutate mutation) faults hValid hRan hAfter
  obtain ⟨hLater, hStill⟩ := hSpares.lingers hThere hLingers
  refine ⟨hStill.hasVersion, fun hOpen => ?_, fun during listed hOk => ?_⟩
  · exact exists_versions hLater.isSound.shaped hLater.isSteady hOpen slot.fits
  · have hShaped : (later.withFaults during).backend.rows.IsShaped := hLater.isSound.shaped
    exact mem_versions_of_hasVersion hShaped hStill.hasVersion hOk

end Store

namespace Sample

/-- The store whose metalake got another name at time zero. -/
def renamed : Store := (renameLake.perform.runDuring [] store).2

/-- The store after a pass just before the old version of the metalake has expired long enough. -/
def collected : Store := (Command.collect.perform.runDuring [] (renamed.setClock 1200999)).2

/-- The version that the metalake had under its first name is there and listed after the pass. -/
theorem retains_versions_collected : ∃ version,
    store.backend.rows.newest? lakeSlot = some version ∧
    collected.backend.rows.HasVersion lakeSlot version ∧
    ∃ listed, collected.versions .metalake lake = .ok listed ∧
      ∃ state, (version.stamp, state) ∈ listed := by
  have hSome : (store.backend.rows.newest? lakeSlot).isSome = true := by decide +kernel
  obtain ⟨version, hNewest⟩ := Option.isSome_iff_exists.mp hSome
  have hReplaced : renamed.backend.rows.newest? lakeSlot ≠ store.backend.rows.newest? lakeSlot := by
    decide +kernel
  have hEnds : store.backend.rows.Ends renamed.backend.rows lakeSlot version :=
    Or.inl ⟨hNewest, fun hSame => hReplaced (hSame.trans hNewest.symm)⟩
  have hSoon : Command.collect.IsSoon (fun settings => min settings.keepMillis (UInt64.size - 1))
      store.clock (renamed.setClock 1200999) := by
    rintro now ⟨rfl⟩
    decide +kernel
  have hSpares : Store.Spares (fun settings => min settings.keepMillis (UInt64.size - 1)) lakeSlot
      version store.clock renamed collected :=
    (Store.Spares.here.tick 1200999).call .collect [] trivial (Prod.eta _).symm (by decide +kernel)
      (Or.inl hSoon)
  have hValid : (Mutation.alter .metalake lake "me" [.rename "sea"]).name.IsValid := by
    decide +kernel
  have hRan : renameLake.perform.runDuring [] store =
      ((renameLake.perform.runDuring [] store).1, renamed) := (Prod.eta _).symm
  have hInTime : renamed.InTime := by decide +kernel
  obtain ⟨hHas, hOpen, hListed⟩ :=
    reachable_store.retains_versions hValid hRan hInTime hEnds hSpares
  obtain ⟨listed, hVersions⟩ := hOpen (by decide +kernel)
  have hFaultless : collected.withFaults [] = collected := Store.withFaults_runDuring [] _ _
  obtain ⟨state, _, hMem⟩ := hListed [] listed (hFaultless.symm ▸ hVersions)
  exact ⟨version, hNewest, hHas, listed, hVersions, state, hMem⟩

/-- Settings that ask for more than a word can say. -/
def lasting : Settings := { Settings.inMemory with deleteAfter := .ofMillis (UInt64.size - 1) }

/-- A store with such settings and a metalake. -/
def lone : Store := (makeLake.perform.runDuring [] (.fresh backend lasting (.counter 1) 0 0)).2

def dropLake : Mutation := .drop .metalake lake false

/-- The store without the metalake. -/
def bare : Store := ((Command.mutate dropLake).perform.runDuring [] lone).2

/-- The store without the metalake after a pass at the last time of all. -/
def emptied : Store := (Command.collect.perform.runDuring [] (bare.setClock Millis.last)).2

/-- Where versions are to be kept for longer than a word can say, a pass at the last time removes
what became old at time zero. -/
theorem not_retained_longer : ¬ ∀ {store after later : Store} {mutation : Mutation}
    {faults : List Call} {outcome : Except StoreError Reply} {slot : Slot} {version : Version},
    Store.Reachable Store.InTime store → mutation.name.IsValid →
    (Command.mutate mutation).perform.runDuring faults store = (outcome, after) → after.InTime →
    store.backend.rows.Ends after.backend.rows slot version →
    after.Spares Settings.keepMillis slot version store.clock later →
    later.backend.rows.HasVersion slot version := by
  intro hAll
  have hBlank : Store.Reachable Store.InTime (.fresh backend lasting (.counter 1) 0 0) :=
    @Store.Reachable.start _ .log "lake" Storage.Journal.defaultThreshold backend _ lasting
      (.counter 1) 0 _ rfl rfl (by decide +kernel)
  have hLone : Store.Reachable Store.InTime lone :=
    hBlank.call makeLake [] (by decide +kernel) (Prod.eta _).symm (by decide +kernel)
  have hStamps : (lone.backend.rows.newest? lakeSlot).map (·.stamp) = some ⟨0, 1⟩ := by
    decide +kernel
  obtain ⟨version, hNewest, hStamp⟩ := Option.map_eq_some_iff.mp hStamps
  have hReplaced : bare.backend.rows.newest? lakeSlot ≠ lone.backend.rows.newest? lakeSlot := by
    decide +kernel
  have hEnds : lone.backend.rows.Ends bare.backend.rows lakeSlot version :=
    Or.inl ⟨hNewest, fun hSame => hReplaced (hSame.trans hNewest.symm)⟩
  have hSoon : Command.collect.IsSoon Settings.keepMillis lone.clock (bare.setClock Millis.last) := by
    rintro now ⟨rfl⟩
    decide +kernel
  have hSpares : bare.Spares Settings.keepMillis lakeSlot version lone.clock emptied :=
    (Store.Spares.here.tick Millis.last).call .collect [] trivial (Prod.eta _).symm
      (by decide +kernel) (Or.inl hSoon)
  have hRan : (Command.mutate dropLake).perform.runDuring [] lone =
      (((Command.mutate dropLake).perform.runDuring [] lone).1, bare) := (Prod.eta _).symm
  have hValid : dropLake.name.IsValid := by decide +kernel
  have hInTime : bare.InTime := by decide +kernel
  have hFound := (hAll hLone hValid hRan hInTime hEnds hSpares).found
  have hGone : emptied.backend.rows.get? (lakeSlot.key ⟨0, 1⟩) = none := by decide +kernel
  rw [hStamp, hGone] at hFound
  cases hFound

end Sample

end VersionedCatalog
