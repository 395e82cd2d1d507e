import VersionedCatalog.Proofs.Retention

/-! # The clock that gives out stamps

A store is asked for stamps at times that the wall clock says, in any order and as often as one
likes (`Store.ask`). It refuses exactly if the wall clock is behind the present version by more than
the skew, and goes on as if it had not been asked. Otherwise it gives out the first stamp behind the
present version and all stamps given out before that is not before the time
(`Store.gives_first`).

The zero stamp counts as given out from the start, so the first stamp of all is not zero even when
the wall clock says zero. When the last stamp of all has to be followed there is none left, and
from then on the order is lost (`Sample.not_always_first`).
-/

namespace VersionedCatalog

open VersionedCatalog.Action

/-- What a clock is asked for: a stamp at a time, behind the one of the present version if there is
one. -/
structure Demand where
  now : Millis
  latest : Option Stamp
  deriving DecidableEq

namespace Stamp

/-- Whether a stamp may be given out on a demand when some were given out earlier. -/
structure MayFollow (earlier : List Stamp) (demand : Demand) (stamp : Stamp) : Prop where
  fresh : ∀ other ∈ earlier, other < stamp
  newer : ∀ other ∈ demand.latest, other < stamp
  timely : ¬ stamp < ⟨demand.now, 0⟩

structure IsFirst (earlier : List Stamp) (demand : Demand) (stamp : Stamp) : Prop where
  mayFollow : MayFollow earlier demand stamp
  first : ∀ other, MayFollow earlier demand other → ¬ other < stamp

/-- Whether a stamp is one of some stamps and none of them is behind it. -/
structure IsLatest (stamps : List Stamp) (stamp : Stamp) : Prop where
  mem : stamp ∈ stamps
  le : ∀ other ∈ stamps, other.rank ≤ stamp.rank

/-- The stamp at a time that has to be behind another one. -/
def behind (now : Millis) (floor : Stamp) : Stamp :=
  if floor.millis < now then ⟨now, 0⟩ else floor.successor

theorem rank_behind (now : Millis) {floor : Stamp} (hFloor : floor ≠ last) :
    (behind now floor).rank = max (rank ⟨now, 0⟩) (floor.rank + 1) := by
  have hSeq := floor.seq.toNat_lt
  by_cases hTime : floor.millis < now
  · rw [behind, if_pos hTime]
    rw [UInt64.lt_iff_toNat_lt] at hTime
    simp only [rank]
    simp
    omega
  · rw [behind, if_neg hTime, rank_successor hFloor]
    rw [UInt64.lt_iff_toNat_lt] at hTime
    simp only [rank]
    simp
    omega

/-- Times do not go round, not even when there is no stamp behind the floor. -/
theorem le_millis_behind (now : Millis) (floor : Stamp) :
    now ≤ (behind now floor).millis ∧ floor.millis ≤ (behind now floor).millis := by
  have hSuccessor := UInt64.le_iff_toNat_le.mpr (millis_le_successor floor)
  by_cases hTime : floor.millis < now
  · rw [behind, if_pos hTime]
    exact ⟨UInt64.le_refl now, UInt64.le_of_lt hTime⟩
  · rw [behind, if_neg hTime]
    exact ⟨UInt64.le_trans (UInt64.not_lt.mp hTime) hSuccessor, hSuccessor⟩

theorem IsLatest.later {stamps : List Stamp} {stamp : Stamp} (hLatest : IsLatest stamps stamp)
    (other : Stamp) : IsLatest (stamps ++ [other]) (stamp.later other) := by
  have hRank := rank_later stamp other
  refine ⟨?_, ?_⟩
  · rcases later_eq_or stamp other with hEq | hEq
    · rw [hEq]
      exact List.mem_append_left _ hLatest.mem
    · rw [hEq]
      exact List.mem_append_right _ (List.mem_singleton_self other)
  · intro found hFound
    rcases List.mem_append.mp hFound with hOld | hNew
    · have hLe := hLatest.le found hOld
      omega
    · rw [List.mem_singleton.mp hNew]
      omega

theorem IsLatest.of_lt {stamps : List Stamp} {stamp next : Stamp} (hLatest : IsLatest stamps stamp)
    (hLt : stamp.rank < next.rank) : IsLatest (stamps ++ [next]) next := by
  refine ⟨List.mem_append_right _ (List.mem_singleton_self next), ?_⟩
  intro other hOther
  rcases List.mem_append.mp hOther with hOld | hNew
  · have hLe := hLatest.le other hOld
    omega
  · exact Nat.le_of_eq (congrArg rank (List.mem_singleton.mp hNew))

/-- What comes right behind the latest stamp, or at the time if that is later, is the first one. -/
theorem IsLatest.isFirst {earlier : List Stamp} {demand : Demand} {floor stamp : Stamp}
    (hFloor : IsLatest (earlier ++ demand.latest.toList) floor)
    (hRank : stamp.rank = max (rank ⟨demand.now, 0⟩) (floor.rank + 1)) :
    IsFirst earlier demand stamp := by
  refine ⟨⟨?_, ?_, ?_⟩, ?_⟩
  · intro other hOther
    have hLe := hFloor.le other (List.mem_append_left _ hOther)
    rw [lt_iff_rank]
    omega
  · intro other hOther
    have hLe := hFloor.le other (List.mem_append_right _ (Option.mem_toList.mpr hOther))
    rw [lt_iff_rank]
    omega
  · rw [lt_iff_rank]
    omega
  · rintro other ⟨hFresh, hNewer, hTimely⟩ hLess
    -- the floor is one of those that the other one has to be behind
    have hAbove : floor < other := by
      rcases List.mem_append.mp hFloor.mem with hEarlier | hLatest
      · exact hFresh floor hEarlier
      · exact hNewer floor (Option.mem_toList.mp hLatest)
    rw [lt_iff_rank] at hAbove hTimely hLess
    omega

end Stamp

namespace Store

/-- Asks for a stamp when the wall clock says the time of a demand. -/
def ask (store : Store) (demand : Demand) : Except StoreError Stamp × Store :=
  (issueStamp demand.latest).run (store.setClock demand.now)

/-- A store that was asked for stamps, one after another. -/
def asked (store : Store) : List Demand → Store
  | [] => store
  | demand :: rest => (store.ask demand).2.asked rest

/-- The demands that were met, each with the stamp that was given out. -/
def met (store : Store) : List Demand → List (Demand × Stamp)
  | [] => []
  | demand :: rest =>
    match (store.ask demand).1 with
    | .ok stamp => (demand, stamp) :: (store.ask demand).2.met rest
    | .error _ => (store.ask demand).2.met rest

def given (store : Store) (demands : List Demand) : List Stamp := (store.met demands).map (·.2)

/-- Whether the wall clock of a demand is behind the present version by more than the skew. -/
def IsBehind (store : Store) (demand : Demand) : Prop :=
  ∃ latest ∈ demand.latest,
    min (demand.now.toNat + store.settings.skewMillis.toNat) (UInt64.size - 1) < latest.millis.toNat

/-- Whether the last stamp has not come up in the demands that were met. -/
def LeavesRoom (store : Store) (demands : List Demand) : Prop :=
  ∀ pair ∈ store.met demands, pair.2 ≠ .last ∧ .last ∉ pair.1.latest

instance (store : Store) (demands : List Demand) : Decidable (store.LeavesRoom demands) :=
  inferInstanceAs (Decidable (∀ pair ∈ store.met demands, _))

variable {store : Store} {demand : Demand}

/-! ### One demand -/

theorem ask_of_isBehind (hBehind : store.IsBehind demand) :
    ∃ latest ∈ demand.latest, demand.now < latest.millis ∧ store.ask demand =
      (.error (.skew ⟨latest.millis, demand.now, store.settings.skewMillis⟩),
        store.setClock demand.now) := by
  obtain ⟨latest, hLatest, hLess⟩ := hBehind
  rw [← Millis.toNat_plus, ← UInt64.lt_iff_toNat_lt] at hLess
  refine ⟨latest, hLatest, ?_, ?_⟩
  · rw [UInt64.lt_iff_toNat_lt] at hLess ⊢
    have hPlus := Millis.toNat_plus demand.now store.settings.skewMillis
    have hNow : demand.now.toNat < UInt64.size := demand.now.toNat_lt
    omega
  · have hSome : demand.latest = some latest := hLatest
    have hRefused : Stamp.next store.settings.skewMillis demand.now store.lastStamp (some latest) =
        .error ⟨latest.millis, demand.now, store.settings.skewMillis⟩ := if_pos hLess
    rw [ask, run_issueStamp, hSome]
    simp only [setClock, hRefused]

/-- Which stamp the next one has to be behind. -/
def floorOf (store : Store) (demand : Demand) : Stamp :=
  match demand.latest with
  | some latest => store.lastStamp.later latest
  | none => store.lastStamp

theorem ask_of_not_isBehind (hTimely : ¬ store.IsBehind demand) :
    store.ask demand = (.ok (.behind demand.now (store.floorOf demand)),
      { store.setClock demand.now with
        lastStamp := .behind demand.now (store.floorOf demand) }) := by
  have hNext : Stamp.next store.settings.skewMillis demand.now store.lastStamp demand.latest =
      .ok (.behind demand.now (store.floorOf demand)) := by
    rw [floorOf]
    cases hLatest : demand.latest with
    | none => rfl
    | some latest =>
      have hNot : ¬ demand.now.plus store.settings.skewMillis < latest.millis := by
        intro hLess
        rw [UInt64.lt_iff_toNat_lt, Millis.toNat_plus] at hLess
        exact hTimely ⟨latest, hLatest, hLess⟩
      exact if_neg hNot
  rw [ask, run_issueStamp]
  simp only [setClock, hNext]

theorem ask_fails_iff :
    (∃ error, (store.ask demand).1 = .error error) ↔ store.IsBehind demand := by
  constructor
  · rintro ⟨error, hError⟩
    by_contra hTimely
    rw [ask_of_not_isBehind hTimely] at hError
    cases hError
  · intro hBehind
    obtain ⟨latest, _, _, hAsk⟩ := ask_of_isBehind hBehind
    exact ⟨_, by rw [hAsk]⟩

theorem settings_ask (store : Store) (demand : Demand) :
    (store.ask demand).2.settings = store.settings := by
  by_cases hBehind : store.IsBehind demand
  · obtain ⟨latest, _, _, hAsk⟩ := ask_of_isBehind hBehind
    rw [hAsk]
    rfl
  · rw [ask_of_not_isBehind hBehind]
    rfl

/-- What the wall clock said before makes no difference. -/
theorem ask_asked_setClock (store : Store) (time : Millis) (demands : List Demand)
    (demand : Demand) :
    ((store.setClock time).asked demands).ask demand = (store.asked demands).ask demand := by
  cases demands with
  | nil => rfl
  | cons first rest => rfl

theorem asked_append (store : Store) (demands others : List Demand) :
    store.asked (demands ++ others) = (store.asked demands).asked others := by
  induction demands generalizing store with
  | nil => rfl
  | cons first rest ih => exact ih _

theorem settings_asked (store : Store) (demands : List Demand) :
    (store.asked demands).settings = store.settings := by
  induction demands generalizing store with
  | nil => rfl
  | cons first rest ih =>
    rw [asked, ih]
    exact settings_ask store first

/-! ### Many demands -/

/-- The floor is the latest of what was given out and the present version. -/
theorem isLatest_floorOf {earlier : List Stamp} (hLatest : Stamp.IsLatest earlier store.lastStamp)
    (demand : Demand) :
    Stamp.IsLatest (earlier ++ demand.latest.toList) (store.floorOf demand) := by
  rw [floorOf]
  cases demand.latest with
  | none =>
    rw [Option.toList_none, List.append_nil]
    exact hLatest
  | some latest => exact hLatest.later latest

theorem millis_le_floorOf {latest : Stamp} (hLatest : latest ∈ demand.latest) :
    latest.millis ≤ (store.floorOf demand).millis := by
  have hSome : demand.latest = some latest := hLatest
  have hRank := Stamp.rank_later store.lastStamp latest
  have hSeq := (store.lastStamp.later latest).seq.toNat_lt
  rw [floorOf, hSome, UInt64.le_iff_toNat_le]
  show latest.millis.toNat ≤ (store.lastStamp.later latest).millis.toNat
  simp only [Stamp.rank] at hRank
  omega

theorem le_millis_of_ask {stamp : Stamp} (hStamp : (store.ask demand).1 = .ok stamp) :
    demand.now ≤ stamp.millis ∧ ∀ latest ∈ demand.latest, latest.millis ≤ stamp.millis := by
  by_cases hBehind : store.IsBehind demand
  · obtain ⟨error, hError⟩ := ask_fails_iff.mpr hBehind
    cases hError.symm.trans hStamp
  · rw [ask_of_not_isBehind hBehind] at hStamp
    cases hStamp
    obtain ⟨hNow, hFloor⟩ := Stamp.le_millis_behind demand.now (store.floorOf demand)
    refine ⟨hNow, ?_⟩
    intro latest hLatest
    exact UInt64.le_trans (millis_le_floorOf hLatest) hFloor

theorem floorOf_ne_last (hLast : store.lastStamp ≠ .last) (hRoom : .last ∉ demand.latest) :
    store.floorOf demand ≠ .last := by
  intro hEq
  rw [floorOf] at hEq
  cases hLatest : demand.latest with
  | none =>
    rw [hLatest] at hEq
    exact hLast hEq
  | some latest =>
    rw [hLatest] at hEq hRoom
    rcases Stamp.later_eq_or store.lastStamp latest with hOr | hOr
    · exact hLast (hOr.symm.trans hEq)
    · exact hRoom (congrArg some (hOr.symm.trans hEq))

/-- A clock whose last stamp is the latest of some stamps stays so with those that it gives out. -/
theorem isLatest_asked {earlier : List Stamp} (hLatest : Stamp.IsLatest earlier store.lastStamp)
    (hLast : store.lastStamp ≠ .last) {demands : List Demand} (hRoom : store.LeavesRoom demands) :
    Stamp.IsLatest (earlier ++ store.given demands) (store.asked demands).lastStamp ∧
      (store.asked demands).lastStamp ≠ .last := by
  induction demands generalizing store earlier with
  | nil =>
    rw [given, met, List.map_nil, List.append_nil]
    exact ⟨hLatest, hLast⟩
  | cons demand rest ih =>
    by_cases hBehind : store.IsBehind demand
    · obtain ⟨latest, _, _, hAsk⟩ := ask_of_isBehind hBehind
      have hMet : store.met (demand :: rest) = (store.setClock demand.now).met rest := by
        rw [met, hAsk]
      rw [LeavesRoom, hMet] at hRoom
      rw [given, hMet, asked, hAsk]
      exact ih hLatest hLast hRoom
    · have hAsk := ask_of_not_isBehind hBehind
      generalize hStamp : Stamp.behind demand.now (store.floorOf demand) = stamp at hAsk
      have hMet : store.met (demand :: rest) = (demand, stamp) ::
          ({ store.setClock demand.now with lastStamp := stamp } : Store).met rest := by
        rw [met, hAsk]
      rw [LeavesRoom, hMet] at hRoom
      obtain ⟨⟨hStampNotLast, hDemand⟩, hRest⟩ := List.forall_mem_cons.mp hRoom
      have hRank := Stamp.rank_behind demand.now (@floorOf_ne_last store demand hLast hDemand)
      have hFloor := (isLatest_floorOf hLatest demand).le store.lastStamp
        (List.mem_append_left _ hLatest.mem)
      have hNext : Stamp.IsLatest (earlier ++ [stamp]) stamp := by
        refine hLatest.of_lt ?_
        rw [← hStamp]
        omega
      have hAfter := @ih { store.setClock demand.now with lastStamp := stamp } _ hNext hStampNotLast
        hRest
      rw [List.append_assoc] at hAfter
      rw [given, hMet, asked, hAsk]
      exact hAfter

theorem isLatest_zero (hStart : store.lastStamp = .zero) :
    Stamp.IsLatest [.zero] store.lastStamp := by
  rw [hStart]
  refine ⟨List.mem_singleton_self _, ?_⟩
  intro other hOther
  exact Nat.le_of_eq (congrArg Stamp.rank (List.mem_singleton.mp hOther))

theorem ne_last_of_zero (hStart : store.lastStamp = .zero) : store.lastStamp ≠ .last := by
  rw [hStart]
  decide

theorem isBehind_asked (before : List Demand) :
    (store.asked before).IsBehind demand ↔ store.IsBehind demand := by
  rw [IsBehind, IsBehind, settings_asked]

/-- A demand that is refused is in conflict with a present version that the wall clock is behind. -/
theorem conflict_of_ask {error : StoreError} (hError : (store.ask demand).1 = .error error) :
    error.toClass = .conflict ∧ ∃ latest ∈ demand.latest,
      error = .skew ⟨latest.millis, demand.now, store.settings.skewMillis⟩ ∧
      demand.now.toNat + (latest.millis - demand.now).toNat = latest.millis.toNat := by
  obtain ⟨latest, hLatest, hLess, hAsk⟩ := ask_of_isBehind (ask_fails_iff.mp ⟨error, hError⟩)
  rw [hAsk] at hError
  cases hError
  refine ⟨rfl, latest, hLatest, rfl, ?_⟩
  have hLe := UInt64.le_of_lt hLess
  rw [UInt64.toNat_sub_of_le _ _ hLe]
  rw [UInt64.le_iff_toNat_le] at hLe
  omega

/-- What comes after a demand that was refused is as if it had not been made. -/
theorem ask_skip {before later : List Demand} {next : Demand} {error : StoreError}
    (hError : ((store.asked before).ask demand).1 = .error error) :
    ((store.asked (before ++ demand :: later)).ask next).1 =
      ((store.asked (before ++ later)).ask next).1 := by
  obtain ⟨latest, _, _, hAsk⟩ := ask_of_isBehind (ask_fails_iff.mp ⟨error, hError⟩)
  rw [asked_append, asked_append, asked, hAsk, ask_asked_setClock]

/-- **Stamps.**  A demand is refused exactly if the wall clock is too far behind the present version,
and then it is as if it had not been made. As long as the last stamp of all has not come up, every
other demand is met with the first stamp that may follow, and no sum or difference of words on the
way goes round. -/
theorem gives_first (hStart : store.lastStamp = .zero) (before : List Demand) (demand : Demand) :
    ((∃ error, ((store.asked before).ask demand).1 = .error error) ↔ store.IsBehind demand) ∧
    (∀ error, ((store.asked before).ask demand).1 = .error error →
      error.toClass = .conflict ∧
      (∃ latest ∈ demand.latest,
        error = .skew ⟨latest.millis, demand.now, store.settings.skewMillis⟩ ∧
        demand.now.toNat + (latest.millis - demand.now).toNat = latest.millis.toNat) ∧
      ∀ (later : List Demand) (next : Demand),
        ((store.asked (before ++ demand :: later)).ask next).1 =
          ((store.asked (before ++ later)).ask next).1) ∧
    (∀ stamp, ((store.asked before).ask demand).1 = .ok stamp →
      demand.now ≤ stamp.millis ∧ ∀ latest ∈ demand.latest, latest.millis ≤ stamp.millis) ∧
    (¬ store.IsBehind demand → store.LeavesRoom before → .last ∉ demand.latest →
      ∃ stamp floor, ((store.asked before).ask demand).1 = .ok stamp ∧
        Stamp.IsFirst (.zero :: store.given before) demand stamp ∧
        Stamp.IsLatest (.zero :: store.given before ++ demand.latest.toList) floor ∧
        stamp.rank = max (demand.now.toNat * 2 ^ 32) (floor.rank + 1)) := by
  rw [← isBehind_asked before]
  refine ⟨ask_fails_iff, ?_, fun _ => le_millis_of_ask, ?_⟩
  · intro error hError
    obtain ⟨hConflict, latest, hLatest, hSkew, hApart⟩ := conflict_of_ask hError
    rw [settings_asked] at hSkew
    exact ⟨hConflict, ⟨latest, hLatest, hSkew, hApart⟩, fun _ _ => ask_skip hError⟩
  · intro hTimely hRoom hDemand
    obtain ⟨hLatest, hNotLast⟩ := isLatest_asked (isLatest_zero hStart) (ne_last_of_zero hStart) hRoom
    have hFloor := isLatest_floorOf hLatest demand
    have hRank := Stamp.rank_behind demand.now (floorOf_ne_last hNotLast hDemand)
    refine ⟨_, _, by rw [ask_of_not_isBehind hTimely], hFloor.isFirst hRank, hFloor, ?_⟩
    rw [hRank]
    simp [Stamp.rank]

end Store

namespace Sample

/-- A stamp in time, one behind a version that has used up all numbers of its time, and a demand
that is refused. -/
def demands : List Demand := [⟨5, none⟩, ⟨4, some ⟨7, 0xFFFFFFFF⟩⟩, ⟨5, some ⟨2000, 0⟩⟩]

/-- The clock was set back, and the stamp is the first behind all others. -/
theorem gives_first_blank :
    ((blank.asked demands).ask ⟨3, some ⟨8, 3⟩⟩).1 = .ok ⟨8, 4⟩ ∧
    Stamp.IsFirst [.zero, ⟨5, 0⟩, ⟨8, 0⟩] ⟨3, some ⟨8, 3⟩⟩ ⟨8, 4⟩ ∧
    ∃ error, ((blank.asked demands).ask ⟨5, some ⟨2000, 0⟩⟩).1 = .error error ∧
      error.toClass = .conflict := by
  have hStart : blank.lastStamp = .zero := rfl
  have hRoom : blank.LeavesRoom demands := by decide +kernel
  have hGiven : blank.given demands = [⟨5, 0⟩, ⟨8, 0⟩] := by decide +kernel
  have hTimely : ¬ blank.IsBehind ⟨3, some ⟨8, 3⟩⟩ := by
    rintro ⟨latest, ⟨rfl⟩, hLess⟩
    exact absurd hLess (by decide +kernel)
  have hBehind : blank.IsBehind ⟨5, some ⟨2000, 0⟩⟩ := ⟨⟨2000, 0⟩, rfl, by decide +kernel⟩
  have hStamp : ((blank.asked demands).ask ⟨3, some ⟨8, 3⟩⟩).1 = .ok ⟨8, 4⟩ := by decide +kernel
  obtain ⟨_, _, _, hGives⟩ := Store.gives_first hStart demands ⟨3, some ⟨8, 3⟩⟩
  obtain ⟨stamp, _, hAsk, hFirst, _⟩ := hGives hTimely hRoom (by decide)
  obtain ⟨hRefused, hConflict, _⟩ := Store.gives_first hStart demands ⟨5, some ⟨2000, 0⟩⟩
  obtain ⟨error, hError⟩ := hRefused.mpr hBehind
  cases hStamp.symm.trans hAsk
  rw [hGiven] at hFirst
  exact ⟨hStamp, hFirst, error, hError, (hConflict error hError).1⟩

/-- Two stamps at the last millisecond of all, and one behind the last stamp of all. -/
def lateDemands : List Demand := [⟨.last, none⟩, ⟨.last, none⟩, ⟨.last, some .last⟩]

/-- When the clock says zero the first stamp is the one behind zero. When the last stamp has come up
and there was none behind it, a stamp that was given out before is given out again. -/
theorem not_always_first :
    (¬ ∀ (demands : List Demand) (demand : Demand), ¬ blank.IsBehind demand →
      .last ∉ (blank.given demands).getLast? → .last ∉ demand.latest →
      ∃ stamp, ((blank.asked demands).ask demand).1 = .ok stamp ∧
        Stamp.IsFirst (blank.given demands) demand stamp) ∧
    ¬ ∀ (demands : List Demand) (demand : Demand), (∀ other ∈ demand :: demands, 0 < other.now) →
      ¬ blank.IsBehind demand → .last ∉ (blank.given demands).getLast? → .last ∉ demand.latest →
      ∃ stamp, ((blank.asked demands).ask demand).1 = .ok stamp ∧
        Stamp.IsFirst (blank.given demands) demand stamp := by
  have hTimely : ∀ now, ¬ blank.IsBehind ⟨now, none⟩ := by
    rintro now ⟨latest, hNone, _⟩
    cases hNone
  constructor
  · intro hAll
    obtain ⟨stamp, hAsk, hFirst⟩ := hAll [] ⟨0, none⟩ (hTimely 0) (by decide) (by decide)
    have hStamp : ((blank.asked []).ask ⟨0, none⟩).1 = .ok ⟨0, 1⟩ := by decide +kernel
    cases hStamp.symm.trans hAsk
    have hZero : Stamp.MayFollow [] ⟨0, none⟩ .zero := ⟨nofun, nofun, by decide⟩
    exact hFirst.first .zero hZero (by decide)
  · intro hAll
    have hGiven : blank.given lateDemands = [⟨.last, 0⟩, ⟨.last, 1⟩, ⟨.last, 0⟩] := by
      decide +kernel
    have hStamp : ((blank.asked lateDemands).ask ⟨.last, none⟩).1 = .ok ⟨.last, 1⟩ := by
      decide +kernel
    obtain ⟨stamp, hAsk, hFirst⟩ := hAll lateDemands ⟨.last, none⟩ (by decide) (hTimely .last)
      (by rw [hGiven]; decide) (by decide)
    cases hStamp.symm.trans hAsk
    rw [hGiven] at hFirst
    exact Stamp.not_lt_self _ (hFirst.mayFollow.fresh ⟨.last, 1⟩ (by simp))

end Sample

end VersionedCatalog
