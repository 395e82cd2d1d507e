import VersionedCatalog.Proofs.Locations

/-! # The columns of tables

The name of a column is meant to be unique in its table. A column that is added is checked against
the columns that are there, one that is deleted takes all columns of its name with it, and the other
changes leave the names alone, so no alteration makes a name stand twice that stood once
(`Change.count_applyAll`). But the columns that a new table comes with are taken over as they are.

So a name stands more than once in a table only if it stands as often among the columns that some
command of the run made a table with, and if all of these were distinct, so are the columns of every
table (`Store.Performed.columns_of_table`). A table that is made with two columns of one name has
them (`Sample.not_always_distinct`).
-/

namespace VersionedCatalog

namespace Entity

/-- The names of the columns in their order. -/
def columnNames (entity : Entity) : List String := entity.columns.map Column.name

theorem columnNames_withLocation (entity : Entity) (location : String) :
    (entity.withLocation location).columnNames = entity.columnNames := by
  unfold withLocation
  split
  next hKind => simp only [columnNames, columns, hKind]
  next => rfl

/-- Only tables take columns over. -/
theorem columns_withColumns (entity : Entity) (columns : List Column) :
    (entity.withColumns columns).columns = columns ∨ entity.withColumns columns = entity := by
  unfold withColumns
  split
  next => exact Or.inl rfl
  next => exact Or.inr rfl

theorem count_withColumns {entity : Entity} {columns : List Column} {name : String}
    (hCount : (columns.map Column.name).count name ≤ max 1 (entity.columnNames.count name)) :
    (entity.withColumns columns).columnNames.count name ≤
      max 1 (entity.columnNames.count name) := by
  rcases entity.columns_withColumns columns with hTaken | hSame
  · rw [columnNames, hTaken]
    exact hCount
  · rw [hSame]
    exact Nat.le_max_right _ _

end Entity

namespace Change

open Entity

theorem count_of_not_hasColumn {entity : Entity} {name : String}
    (hAbsent : hasColumn name entity.columns = false) : entity.columnNames.count name = 0 := by
  refine List.count_eq_zero.mpr fun hMem => ?_
  obtain ⟨column, hColumn, hName⟩ := List.mem_map.mp hMem
  exact List.any_eq_false.mp hAbsent column hColumn (decide_eq_true hName)

theorem map_name_commentColumn (name comment : String) (columns : List Column) :
    (commentColumn name comment columns).map Column.name = columns.map Column.name := by
  induction columns with
  | nil => rfl
  | cons column rest ih =>
    rw [commentColumn]
    split
    next => rfl
    next => rw [List.map_cons, List.map_cons, ih]

/-- A change makes no name stand twice that stood once. -/
theorem Makes.count_le {change : Change} {entity changed : Entity}
    (hMakes : change.Makes entity changed) (name : String) :
    changed.columnNames.count name ≤ max 1 (entity.columnNames.count name) := by
  cases hMakes with
  | updateLocation | switchPrimary =>
    have hSame : ∀ location, (entity.withLocation location).columnNames.count name =
        entity.columnNames.count name := fun location => by rw [columnNames_withLocation]
    exact Nat.le_trans (Nat.le_of_eq (hSame _)) (Nat.le_max_right _ _)
  | @addColumn column absent =>
    refine count_withColumns ?_
    rw [List.map_append, List.count_append, List.map_singleton, List.count_singleton]
    split
    next hSame =>
      have hNone := count_of_not_hasColumn absent
      rw [beq_iff_eq.mp hSame] at hNone
      have hZero : (entity.columns.map Column.name).count name = 0 := hNone
      omega
    next => exact Nat.le_max_right _ _
  | @deleteColumn other =>
    have hFewer := (List.filter_sublist (p := fun column => column.name ≠ other)
      (l := entity.columns)).map Column.name
    exact count_withColumns (Nat.le_trans (hFewer.count_le name) (Nat.le_max_right _ _))
  | updateColumnComment =>
    refine count_withColumns ?_
    rw [map_name_commentColumn]
    exact Nat.le_max_right _ _
  | _ => exact Nat.le_max_right _ _

theorem count_applyAll {changes : List Change} {entity changed : Entity}
    (hOk : applyAll changes entity = .ok changed) (name : String) :
    changed.columnNames.count name ≤ max 1 (entity.columnNames.count name) := by
  induction changes generalizing entity with
  | nil => cases hOk; exact Nat.le_max_right _ _
  | cons change rest ih =>
    obtain ⟨between, _, hMakes, hLast⟩ := applyAll_cons_eq_ok hOk
    have hFirst := hMakes.count_le name
    have hRest := ih hLast
    omega

end Change

/-- The kind of a new table is the one that was asked for. -/
theorem Catalog.table_of_resolveKind {backend : Storage.Backend} {name : Name}
    {parent : Option Entity} {kind : Kind} {columns : List Column} {partitioning : List String}
    (hOk : resolveKind backend name parent kind = .ok (.table columns partitioning)) :
    kind = .table columns partitioning := by
  unfold resolveKind at hOk
  split at hOk
  next =>
    split at hOk
    next =>
      cases parent with
      | none => cases hOk
      | some schema =>
        obtain ⟨_, _, hLast⟩ := Outcome.bind_eq_ok hOk
        cases hLast
    next => cases hOk
  next => cases hOk; rfl

/-! ### What runs do to columns -/

namespace Command

/-- Whether a command asks for a table with these columns. -/
inductive Drafts (columns : List Column) : Command → Prop
  | create {name : Name} {draft : Draft} {partitioning : List String}
      (table : draft.kind = .table columns partitioning) :
      Drafts columns (.mutate (.create name draft))

/-- How often a name may stand in a table after some commands: once, or as often as it stands among
the columns that a table was asked for with. -/
def AllowsCount (commands : List Command) (name : String) (count : Nat) : Prop :=
  1 < count → ∃ command ∈ commands, ∃ columns, command.Drafts columns ∧
    count ≤ (columns.map Column.name).count name

theorem AllowsCount.append {commands : List Command} {name : String} {count : Nat}
    (hAllows : AllowsCount commands name count) (command : Command) :
    AllowsCount (commands ++ [command]) name count := fun hTwice => by
  obtain ⟨found, hMem, hDrafts⟩ := hAllows hTwice
  exact ⟨found, List.mem_append_left _ hMem, hDrafts⟩

theorem AllowsCount.mono {commands : List Command} {name : String} {count fewer : Nat}
    (hAllows : AllowsCount commands name count) (hFewer : fewer ≤ max 1 count) :
    AllowsCount commands name fewer := fun hTwice => by
  obtain ⟨found, hMem, columns, hDrafts, hCount⟩ := hAllows (by omega)
  exact ⟨found, hMem, columns, hDrafts, by omega⟩

/-- What a command writes has no more columns of a name than it may have then. -/
theorem allowsCount_of_mayWrite {commands : List Command} {command : Command} {store : Store}
    {name : String}
    (hBefore : ∀ slot before, store.backend.rows.Holds slot before →
      AllowsCount commands name (before.columnNames.count name)) {entity : Entity}
    (hWrites : command.MayWrite store entity) :
    AllowsCount (commands ++ [command]) name (entity.columnNames.count name) := by
  cases command with
  | mutate mutation =>
    cases hWrites with
    | @create _ draft parent kind id found resolved =>
      intro hTwice
      cases kind with
      | table columns partitioning =>
        have hDraft := Catalog.table_of_resolveKind resolved
        exact ⟨_, List.mem_append_right _ (List.mem_singleton_self _), columns, .create hDraft,
          Nat.le_refl _⟩
      | _ => exact absurd hTwice (Nat.not_lt_zero 1)
    | @alter slot before after modifier changes holds changed =>
      obtain ⟨updated, hUpdated, hLast⟩ := Outcome.bind_eq_ok changed
      cases hLast
      have hCount := Change.count_applyAll (Outcome.mapError_eq_ok hUpdated) name
      exact ((hBefore slot before holds).append _).mono hCount
    | @move source slot before goal modifier changes renames below holds moved =>
      exact (hBefore slot before holds).append _
  | collect => cases hWrites
  | sweep now => cases hWrites

end Command

/-- A name stands more than once among the columns of a live table only if it stands as often among
the columns that some command of the run asked for a table with. So if the columns of all these
tables were distinct, those of every live table are. -/
theorem Store.Performed.columns_of_table {commands : List Command} {store : Store}
    (hRun : store.Performed commands) {slot : Slot} {entity : Entity}
    (hHolds : store.backend.rows.Holds slot entity) :
    (∀ name, 1 < entity.columnNames.count name →
      ∃ command ∈ commands, ∃ columns, command.Drafts columns ∧
        entity.columnNames.count name ≤ (columns.map Column.name).count name) ∧
    ((∀ command ∈ commands, ∀ columns, command.Drafts columns →
        (columns.map Column.name).Nodup) → entity.columnNames.Nodup) := by
  have hAllows : ∀ name, Command.AllowsCount commands name (entity.columnNames.count name) :=
    fun name => @stored_induction
      (fun commands entity => Command.AllowsCount commands name (entity.columnNames.count name))
      (fun command hAllows => hAllows.append command)
      (fun hBefore hWrites => Command.allowsCount_of_mayWrite hBefore hWrites) commands store hRun
      slot entity (hHolds.stores hRun.reachable.isFormed)
  refine ⟨hAllows, fun hDistinct => List.nodup_iff_count_le_one.mpr fun name => ?_⟩
  by_contra hTwice
  obtain ⟨command, hMem, columns, hDrafts, hCount⟩ := hAllows name (Nat.lt_of_not_le hTwice)
  have hOnce := List.nodup_iff_count_le_one.mp (hDistinct command hMem columns hDrafts) name
  omega

/-! ### A table with columns of one name -/

namespace Sample

def clicks : Name := ⟨⟨["lake", "hive", "raw"]⟩, "clicks"⟩

def clicksSlot : Slot := ⟨.table, clicks, rfl, by decide +kernel⟩

def intColumn (name : String) : Column := ⟨name, "int", none, true⟩

def makeClicks (names : List String) : Command :=
  .mutate (.create clicks (.of (.table (names.map intColumn) [])))

/-- Adds a column and takes one away again. -/
def alterClicks : Command :=
  .mutate (.alter .table clicks "me" [.addColumn (intColumn "at"), .deleteColumn "who" true])

def tabled (names : List String) : Store :=
  (alterClicks.perform.runDuring []
    ((makeClicks names).perform.runDuring [] (makeRaw.perform.runDuring [] store).2).2).2

theorem performed_tabled (names : List String) : (tabled names).Performed
    [makeLake, makeHive, makeRaw, makeClicks names, alterClicks] := by
  have hRaw := performed_store.call makeRaw [] (by decide +kernel) (Prod.eta _).symm
  have hValid : (makeClicks names).IsValid := show clicks.IsValid by decide +kernel
  have hClicks := hRaw.call (makeClicks names) [] hValid (Prod.eta _).symm
  exact hClicks.call alterClicks [] (by decide +kernel) (Prod.eta _).symm

theorem holds_of_columnNames {after : Store} {names : List String}
    (hLoad : (after.load .table clicks).toOption.map Entity.columnNames = some names) :
    ∃ entity, after.backend.rows.Holds clicksSlot entity ∧ entity.columnNames = names := by
  cases hFound : after.load .table clicks with
  | error error => rw [hFound] at hLoad; cases hLoad
  | ok entity =>
    rw [hFound] at hLoad
    exact ⟨entity, @Store.load_eq_ok _ clicksSlot _ hFound, Option.some.inj hLoad⟩

/-- Made with distinct columns and altered, the table has distinct columns. -/
theorem columns_of_tabled : ∃ entity,
    (tabled ["id", "who"]).backend.rows.Holds clicksSlot entity ∧
    entity.columnNames = ["id", "at"] ∧
    (∀ name, 1 < entity.columnNames.count name →
      ∃ command ∈ [makeLake, makeHive, makeRaw, makeClicks ["id", "who"], alterClicks],
        ∃ columns, command.Drafts columns ∧
          entity.columnNames.count name ≤ (columns.map Column.name).count name) ∧
    ((∀ command ∈ [makeLake, makeHive, makeRaw, makeClicks ["id", "who"], alterClicks],
        ∀ columns, command.Drafts columns → (columns.map Column.name).Nodup) →
      entity.columnNames.Nodup) := by
  obtain ⟨entity, hHolds, hNames⟩ :=
    @holds_of_columnNames (tabled ["id", "who"]) ["id", "at"] (by decide +kernel)
  exact ⟨entity, hHolds, hNames, (performed_tabled ["id", "who"]).columns_of_table hHolds⟩

/-- Made with two columns of one name, it has both of them. -/
theorem not_always_distinct : ¬ ∀ (commands : List Command) (after : Store) (slot : Slot)
    (entity : Entity), after.Performed commands → slot.type = .table →
      after.backend.rows.Holds slot entity → entity.columnNames.Nodup := by
  intro hAll
  obtain ⟨entity, hHolds, hNames⟩ :=
    @holds_of_columnNames (tabled ["id", "id"]) ["id", "id", "at"] (by decide +kernel)
  have hDistinct := hAll _ _ clicksSlot entity (performed_tabled ["id", "id"]) rfl hHolds
  rw [hNames] at hDistinct
  revert hDistinct
  decide

end Sample

end VersionedCatalog
