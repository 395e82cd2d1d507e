import VersionedCatalog.Proofs.Legibility
import VersionedCatalog.Proofs.Rebasing

/-! # How names are spelled

Every way of making a name checks what is new in it and takes over the rest from names and
namespaces that were made before, so the names that can be made are the valid ones
(`Name.isMade_iff`), and all of them can be read back from their texts. A text is that of a name
just if every piece between its dots may be a part of one (`Name.exists_parse_iff`). A marker holds
the text of a name, hence it leads to the name that it was written for (`Name.spells_exactly`).
-/

namespace VersionedCatalog

theorem NamePart.isSound_iff {value : String} :
    IsSound value ↔ value ≠ "" ∧ ∀ c ∈ value.toList, c ∉ reserved := by
  rw [IsSound, String.isEmpty_eq_false_iff, List.find?_eq_none]
  simp only [isReserved, List.contains_iff_mem]

/-! ### Names that can be made -/

mutual

/-- A namespace that checked steps lead to. -/
inductive Namespace.IsMade : Namespace → Prop
  | root : Namespace.IsMade .root
  | ofLevels {levels : List String} {scope : Namespace}
      (made : Namespace.ofLevels levels = .ok scope) : scope.IsMade
  | child {scope below : Namespace} {level : String} (before : scope.IsMade)
      (made : scope.child level = .ok below) : below.IsMade
  | parent {scope above : Namespace} (before : scope.IsMade) (made : scope.parent? = some above) :
      above.IsMade
  | scope {name : Name} (before : name.IsMade) : name.scope.IsMade
  | inside {name : Name} (before : name.IsMade) : name.inside.IsMade

/-- A name that checked steps lead to. -/
inductive Name.IsMade : Name → Prop
  | of {scope : Namespace} {leaf : String} {name : Name} (before : scope.IsMade)
      (made : Name.of scope leaf = .ok name) : name.IsMade
  | ofPath {path : List String} {name : Name} (made : Name.ofPath path = .ok name) : name.IsMade
  | parse {text : String} {name : Name} (made : Name.parse text = .ok name) : name.IsMade
  | withLeaf {name other : Name} {leaf : String} (before : name.IsMade)
      (made : name.withLeaf leaf = .ok other) : other.IsMade
  | parent {name above : Name} (before : name.IsMade) (made : name.parent? = some above) :
      above.IsMade
  | rebase {name source target moved : Name} (before : name.IsMade) (goal : target.IsMade)
      (made : name.rebase? source target = some moved) : moved.IsMade
  | innermost {scope : Namespace} {name : Name} (before : scope.IsMade)
      (made : scope.name? = some name) : name.IsMade

end

theorem Namespace.of_child {scope below : Namespace} {level : String}
    (hChild : scope.child level = .ok below) :
    below = ⟨scope.levels ++ [level]⟩ ∧ NamePart.IsSound level := by
  obtain ⟨_, hCheck, hLast⟩ := Outcome.bind_eq_ok hChild
  exact ⟨(Except.ok.inj hLast).symm, (NamePart.check_eq_ok_iff .level level).mp hCheck⟩

theorem Namespace.of_parent? {scope above : Namespace} (hParent : scope.parent? = some above) :
    above.levels = scope.levels.dropLast := by
  unfold parent? at hParent
  split at hParent
  next => cases hParent
  next => rw [← Option.some.inj hParent]

theorem Namespace.of_name? {scope : Namespace} {name : Name} (hName : scope.name? = some name) :
    scope.levels = name.path := by
  have hParent : (⟨scope, ""⟩ : Name).parent? = some name := hName
  exact Name.parent?_eq_some_iff.mp hParent

/-! ### What is made is valid -/

def Namespace.IsValid (scope : Namespace) : Prop := ∀ level ∈ scope.levels, NamePart.IsSound level

theorem Name.isValid_iff {name : Name} :
    name.IsValid ↔ name.scope.IsValid ∧ NamePart.IsSound name.leaf := by
  simp only [Name.IsValid, Name.path, Namespace.IsValid, List.forall_mem_append,
    List.forall_mem_singleton]

-- Each step checks the part that it adds, and the other parts were checked when they were added.
mutual

theorem Namespace.IsMade.isValid : ∀ {scope : Namespace}, scope.IsMade → scope.IsValid
  | _, .root => nofun
  | _, .ofLevels made => by
    obtain ⟨rfl, hLevels⟩ := Namespace.of_ofLevels made
    exact hLevels
  | _, .child before made => by
    obtain ⟨rfl, hLevel⟩ := Namespace.of_child made
    exact List.forall_mem_append.mpr ⟨before.isValid, List.forall_mem_singleton.mpr hLevel⟩
  | _, .parent before made => by
    intro level hMem
    rw [Namespace.of_parent? made] at hMem
    exact before.isValid level ((List.dropLast_sublist _).subset hMem)
  | _, .scope before => (Name.isValid_iff.mp before.isValid).1
  | _, .inside before => before.isValid

theorem Name.IsMade.isValid : ∀ {name : Name}, name.IsMade → name.IsValid
  | _, .of before made => by
    obtain ⟨rfl, hLeaf⟩ := Name.of_eq_ok made
    exact Name.isValid_iff.mpr ⟨before.isValid, hLeaf⟩
  | _, .ofPath made => (Name.of_ofPath made).2
  | _, .parse made => (Name.of_ofPath made).2
  | _, .withLeaf before made => by
    obtain ⟨rfl, hLeaf⟩ := Name.of_eq_ok made
    exact Name.isValid_iff.mpr ⟨(Name.isValid_iff.mp before.isValid).1, hLeaf⟩
  | _, .parent before made => by
    intro part hMem
    rw [← Name.parent?_eq_some_iff.mp made] at hMem
    exact (Name.isValid_iff.mp before.isValid).1 part hMem
  | _, .rebase before goal made => Name.isValid_of_rebase? before.isValid goal.isValid made
  | _, .innermost before made => by
    intro part hMem
    rw [← Namespace.of_name? made] at hMem
    exact before.isValid part hMem

end

/-- The names that can be made are the valid ones. -/
theorem Name.isMade_iff {name : Name} : name.IsMade ↔ name.IsValid :=
  ⟨Name.IsMade.isValid, fun hValid => .ofPath (Name.ofPath_path hValid)⟩

/-! ### Texts that are names -/

theorem not_mem_of_mem_splitOn {a : Char} {chars piece : List Char}
    (hPiece : piece ∈ chars.splitOn a) : a ∉ piece := by
  induction chars generalizing piece with
  | nil =>
    rw [List.splitOn_nil, List.mem_singleton] at hPiece
    rw [hPiece]
    exact List.not_mem_nil
  | cons c rest ih =>
    rw [List.splitOn_cons_eq_if_modifyHead] at hPiece
    split at hPiece
    next =>
      rcases List.mem_cons.mp hPiece with rfl | hRest
      · exact List.not_mem_nil
      · exact ih hRest
    next hOther =>
      cases hSplit : rest.splitOn a with
      | nil => exact absurd hSplit (List.splitOn_ne_nil a rest)
      | cons first others =>
        rw [hSplit] at hPiece ih
        rcases List.mem_cons.mp hPiece with rfl | hRest
        · intro hMem
          rcases List.mem_cons.mp hMem with rfl | hIn
          · exact hOther (beq_self_eq_true a)
          · exact ih List.mem_cons_self hIn
        · exact ih (List.mem_cons_of_mem _ hRest)

namespace Name

theorem exists_ofPath_iff {path : List String} (hSome : path ≠ []) :
    (∃ name, ofPath path = .ok name) ↔ ∀ part ∈ path, NamePart.IsSound part := by
  constructor
  · rintro ⟨name, hName⟩
    obtain ⟨rfl, hValid⟩ := of_ofPath hName
    exact hValid
  · intro hSound
    obtain ⟨levels, leaf, rfl⟩ : ∃ levels leaf, path = levels ++ [leaf] :=
      ⟨_, _, (List.dropLast_append_getLast hSome).symm⟩
    have hValid : (⟨⟨levels⟩, leaf⟩ : Name).IsValid := hSound
    exact ⟨_, ofPath_path hValid⟩

theorem exists_parse_iff {text : String} : (∃ name, parse text = .ok name) ↔
    ∀ piece ∈ text.toList.splitOn '.', piece ≠ [] ∧ ∀ c ∈ piece, c ∉ ['/', '%', '~', '?'] := by
  have hPieces : pieces text = (text.toList.splitOn '.').map String.ofList := by
    rw [pieces, piecesOfChars_eq_splitOn]
    rfl
  have hSome : pieces text ≠ [] := by
    rw [hPieces, ne_eq, List.map_eq_nil_iff]
    exact List.splitOn_ne_nil _ _
  rw [parse, exists_ofPath_iff hSome, hPieces, List.forall_mem_map]
  refine forall_congr' fun piece => forall_congr' fun hPiece => ?_
  have hNoDot := not_mem_of_mem_splitOn hPiece
  rw [NamePart.isSound_iff, String.toList_ofList]
  refine and_congr (by simp) (forall_congr' fun c => forall_congr' fun hMem => ?_)
  -- between dots there are no dots, so the other reserved characters are all that can stand there
  have hOther : c ≠ '.' := fun hDot => hNoDot (hDot ▸ hMem)
  rw [NamePart.reserved, List.mem_cons, not_or]
  exact and_iff_right hOther

end Name

/-! ### Markers -/

theorem Version.state_marker {version : Version} {target : Name} (hValid : target.IsValid)
    (hFlag : version.flag = .renamed) (hPayload : version.payload = Utf8.encode target.text)
    (type : EntityType) : Store.versionState type version = .ok (.renamed target) := by
  rw [Store.versionState, hFlag, hPayload]
  simp only [renameTarget_text hValid, Outcome.mapError_ok, Outcome.ok_bind, Outcome.pure_eq_ok]

/-- Of what is written for a move, the marker under the old name holds the text of the new one. -/
theorem Relocation.marker_mem {store : Store} {stamp : Stamp} {relocation : Relocation}
    {batch : Storage.Batch} (hOps : relocation.ops store stamp = .ok batch) :
    .put (Key.version relocation.source stamp)
      (Version.encodeValue .renamed (Utf8.encode relocation.entity.name.text)) ∈ batch := by
  obtain ⟨version, _, hLast⟩ := Outcome.bind_eq_ok hOps
  rw [← Except.ok.inj hLast]
  exact List.mem_cons_of_mem version List.mem_cons_self

/-- Every marker in rows with their shape holds the text of a valid name. -/
theorem Storage.Rows.IsFormed.exists_target {allowed : Stamp → Prop} {known : EntityId → Prop}
    {rows : Storage.Rows} (hFormed : rows.IsFormed allowed known) {slot : Slot} {version : Version}
    (hHas : rows.HasVersion slot version) (hFlag : version.flag = .renamed) :
    ∃ target : Name, target.IsValid ∧ version.payload = Utf8.encode target.text := by
  have hSays := (hFormed.said hHas).2
  rw [hFlag] at hSays
  generalize version.payload = payload at hSays ⊢
  cases hSays with
  | renamed valid => exact ⟨_, valid, rfl⟩

/-- **Names are spelled exactly.**  A text is that of a name just if the pieces between its dots are
not empty and hold none of the other reserved characters, and the name that is read has this text.
A name that checked steps lead to, whichever they are, has no reserved character and no empty part
in it and is read back from its text. So the marker that is written when something moves to a name
says that it went to this name, and in a store that was reached without giving out the last stamp
every marker is the text of a name and says this name. -/
theorem Name.spells_exactly :
    (∀ text : String, (∃ name, parse text = .ok name) ↔
      ∀ piece ∈ text.toList.splitOn '.', piece ≠ [] ∧ ∀ c ∈ piece, c ∉ ['/', '%', '~', '?']) ∧
    (∀ (text : String) (name : Name), parse text = .ok name → name.text = text) ∧
    (∀ name : Name, name.IsMade → parse name.text = .ok name ∧
      ∀ part ∈ name.path, part ≠ "" ∧ ∀ c ∈ part.toList, c ∉ ['.', '/', '%', '~', '?']) ∧
    (∀ (store : Store) (stamp : Stamp) (relocation : Relocation) (batch : Storage.Batch),
      relocation.entity.name.IsMade → relocation.ops store stamp = .ok batch →
      ∃ marker : Version, marker.stem = relocation.source ∧ marker.stamp = stamp ∧
        marker.flag = .renamed ∧ .put marker.toRow.1 marker.toRow.2 ∈ batch ∧
        ∀ type, Store.versionState type marker = .ok (.renamed relocation.entity.name)) ∧
    ∀ store : Store, Store.Reachable Store.InTime store →
      ∀ (slot : Slot) (marker : Version), store.backend.rows.HasVersion slot marker →
        marker.flag = .renamed →
        ∃ target : Name, target.IsMade ∧ marker.payload = Utf8.encode target.text ∧
          ∀ type, Store.versionState type marker = .ok (.renamed target) := by
  refine ⟨fun _ => exists_parse_iff, fun _ _ => text_of_parse, fun name hMade => ?_,
    fun store stamp relocation batch hMade hOps => ?_,
    fun store hReached slot marker hHas hFlag => ?_⟩
  · have hValid := hMade.isValid
    exact ⟨parse_text hValid, fun part hMem => NamePart.isSound_iff.mp (hValid part hMem)⟩
  · exact ⟨⟨relocation.source, stamp, .renamed, Utf8.encode relocation.entity.name.text⟩, rfl, rfl,
      rfl, Relocation.marker_mem hOps, Version.state_marker hMade.isValid rfl rfl⟩
  · obtain ⟨target, hValid, hPayload⟩ := hReached.isSound.shaped.exists_target hHas hFlag
    exact ⟨target, isMade_iff.mpr hValid, hPayload, Version.state_marker hValid hFlag hPayload⟩

/-! ### A metalake on its way to another name -/

namespace Sample

def toAttic (entity : Entity) : Relocation :=
  ⟨Key.entity .metalake lake, Key.entity .metalake attic, { entity with name := attic }, .zero⟩

/-- A name is made in steps, and a move to a name leaves a marker that says this name. -/
theorem spells_exactly_attic :
    (Name.parse "lake.barn" = .ok barn ∧ barn.text = "lake.barn") ∧
    (hayInAttic.IsMade ∧ Name.parse hayInAttic.text = .ok hayInAttic) ∧
    ∃ entity batch marker, store.load .metalake lake = .ok entity ∧
      (toAttic entity).ops store .zero = .ok batch ∧
      .put marker.toRow.1 marker.toRow.2 ∈ batch ∧
      Store.versionState .metalake marker = .ok (.renamed attic) := by
  obtain ⟨_, hText, hRead, hMarked, _⟩ := Name.spells_exactly
  have hBarn : Name.parse "lake.barn" = .ok barn := by decide +kernel
  have hLoft : barn.inside.child "loft" = .ok hay.scope := by decide +kernel
  have hLeaf : Name.of hay.scope "hay" = .ok hay := by decide +kernel
  have hTop : Name.of .root "attic" = .ok attic := by decide +kernel
  have hMoved : hay.rebase? barn attic = some hayInAttic := by decide +kernel
  have hAttic : attic.IsMade := .of .root hTop
  have hHay : hay.IsMade := .of (.child (.inside (.parse hBarn)) hLoft) hLeaf
  have hMade : hayInAttic.IsMade := .rebase hHay hAttic hMoved
  have hWrites : (store.load .metalake lake >>= fun entity =>
      (toAttic entity).ops store .zero).isOk = true := by decide +kernel
  obtain ⟨batch, hBoth⟩ := Outcome.exists_of_isOk hWrites
  obtain ⟨entity, hLoad, hBatch⟩ := Outcome.bind_eq_ok hBoth
  obtain ⟨marker, _, _, _, hMem, hState⟩ := hMarked store .zero (toAttic entity) batch hAttic hBatch
  exact ⟨⟨hBarn, hText _ _ hBarn⟩, ⟨hMade, (hRead _ hMade).1⟩, entity, batch, marker, hLoad, hBatch,
    hMem, hState .metalake⟩

end Sample

end VersionedCatalog
