import Mathlib.Order.RelIso.Basic
import VersionedCatalog.Proofs.Names

/-! # Rebasing

Rebasing puts what the path of a name goes on with behind another path, and says the same of the
name as of what it becomes. So rebasing in the other direction undoes it (`Name.rebase?_back`), and
the names below one name are below the other one as they were (`Name.Descendant.rebasing`). How deep
the two names lie does not matter (`Name.rebases`).
-/

namespace VersionedCatalog

namespace Name

/-! ### Ancestors -/

theorem not_isAncestorOf_self (name : Name) : name.isAncestorOf name = false := by
  rw [← Bool.not_eq_true, isAncestorOf_iff]
  exact fun hAbove => hAbove.2 rfl

theorem isAncestorOf_trans {a b c : Name} (hFirst : a.isAncestorOf b = true)
    (hSecond : b.isAncestorOf c = true) : a.isAncestorOf c = true := by
  obtain ⟨middle, hSome, hMiddle⟩ := isAncestorOf_iff_goes_on.mp hFirst
  obtain ⟨rest, _, hRest⟩ := isAncestorOf_iff_goes_on.mp hSecond
  have hMore : middle ++ rest ≠ [] := List.append_ne_nil_of_left_ne_nil hSome rest
  refine isAncestorOf_iff_goes_on.mpr ⟨middle ++ rest, hMore, ?_⟩
  rw [hRest, hMiddle, List.append_assoc]

/-! ### Names that go on alike -/

section
variable {name source target moved : Name} (hMoved : name.rebase? source target = some moved)
include hMoved

theorem isAncestorOf_of_rebase? : source.isAncestorOf name = true := by
  obtain ⟨rest, hSome, hPath, _⟩ := path_of_rebase? hMoved
  exact isAncestorOf_iff_goes_on.mpr ⟨rest, hSome, hPath⟩

/-- What was said of the name can be said of what it becomes. -/
theorem rebase?_back : moved.rebase? target source = some name := by
  obtain ⟨rest, hSome, hPath, hGoal⟩ := path_of_rebase? hMoved
  exact rebase?_eq_some_iff.mpr ⟨rest, hSome, hGoal, hPath⟩

theorem path_rebase? : moved.path = target.path ++ name.path.drop source.depth := by
  obtain ⟨rest, _, hPath, hGoal⟩ := path_of_rebase? hMoved
  have hDepth : source.path.length = source.depth := source.length_path
  rw [hGoal, hPath, ← hDepth, List.drop_left]

/-- Of two names that are rebased one is above the other just if it was. -/
theorem isAncestorOf_rebase?_iff {other goal : Name}
    (hGoal : other.rebase? source target = some goal) :
    moved.isAncestorOf goal = true ↔ name.isAncestorOf other = true := by
  obtain ⟨rest, _, hPath, hMovedPath⟩ := path_of_rebase? hMoved
  obtain ⟨more, _, hOtherPath, hGoalPath⟩ := path_of_rebase? hGoal
  rw [isAncestorOf_iff, isAncestorOf_iff, hPath, hMovedPath, hOtherPath, hGoalPath,
    List.prefix_append_right_inj, List.prefix_append_right_inj, ne_eq, ne_eq,
    List.append_cancel_left_eq, List.append_cancel_left_eq]

end

/-! ### Everything below a name -/

/-- A name below another one. -/
@[ext]
structure Descendant (root : Name) where
  name : Name
  below : root.isAncestorOf name = true

namespace Descendant

variable {source : Name}

def IsAbove (above other : Descendant source) : Prop := above.name.isAncestorOf other.name = true

theorem isSome_rebase? (descendant : Descendant source) (target : Name) :
    (descendant.name.rebase? source target).isSome = true :=
  Option.isSome_iff_exists.mpr (exists_rebase? target descendant.below)

/-- The same place below another name. -/
def rebase (descendant : Descendant source) (target : Name) : Descendant target where
  name := (descendant.name.rebase? source target).get (descendant.isSome_rebase? target)
  below := isAncestorOf_of_rebase? (rebase?_back (Option.eq_some_of_isSome _))

theorem rebase?_name (descendant : Descendant source) (target : Name) :
    descendant.name.rebase? source target = some (descendant.rebase target).name :=
  Option.eq_some_of_isSome _

theorem rebase_rebase (descendant : Descendant source) (target : Name) :
    (descendant.rebase target).rebase source = descendant := by
  have hBack := rebase?_back (descendant.rebase?_name target)
  rw [rebase?_name] at hBack
  exact Descendant.ext (Option.some.inj hBack)

/-- What is below one name corresponds to what is below another one, and so do ancestors. -/
def rebasing (source target : Name) : @IsAbove source ≃r @IsAbove target where
  toFun descendant := descendant.rebase target
  invFun descendant := descendant.rebase source
  left_inv descendant := descendant.rebase_rebase target
  right_inv descendant := descendant.rebase_rebase source
  map_rel_iff' := by
    intro above other
    exact isAncestorOf_rebase?_iff (above.rebase?_name target) (other.rebase?_name target)

end Descendant

/-- **Rebasing is a bijection.**  A name can be rebased just if the source is above it, which is to
say that its path goes on from the path of the source. It then has the path of the target with what
its own path goes on with, the target is above it, and rebasing in the other direction leads back.
So what is below the source corresponds to what is below the target, one to one and with the same
ancestors, however deep the two are. No name is above itself, and what is above something above a
name is above the name. -/
theorem rebases :
    (∀ name other : Name, name.isAncestorOf other = true ↔
      ∃ rest, rest ≠ [] ∧ other.path = name.path ++ rest) ∧
    (∀ name source target : Name, (∃ moved, name.rebase? source target = some moved) ↔
      source.isAncestorOf name = true) ∧
    (∀ name source target moved : Name, name.rebase? source target = some moved →
      moved.path = target.path ++ name.path.drop source.depth ∧
      target.isAncestorOf moved = true ∧ moved.rebase? target source = some name) ∧
    (∀ source target : Name,
      ∃ places : @Descendant.IsAbove source ≃r @Descendant.IsAbove target,
        (∀ below, below.name.rebase? source target = some (places below).name) ∧
        ∀ below, below.name.rebase? target source = some (places.symm below).name) ∧
    (∀ name : Name, name.isAncestorOf name = false) ∧
    ∀ a b c : Name, a.isAncestorOf b = true → b.isAncestorOf c = true → a.isAncestorOf c = true := by
  refine ⟨fun _ _ => isAncestorOf_iff_goes_on, fun name source target => ?_,
    fun name source target moved hMoved => ?_, fun source target => ?_, not_isAncestorOf_self,
    fun _ _ _ => isAncestorOf_trans⟩
  · exact ⟨fun ⟨_, hMoved⟩ => isAncestorOf_of_rebase? hMoved, exists_rebase? target⟩
  · have hBack := rebase?_back hMoved
    exact ⟨path_rebase? hMoved, isAncestorOf_of_rebase? hBack, hBack⟩
  · exact ⟨Descendant.rebasing source target, fun below => below.rebase?_name target,
      fun below => below.rebase?_name source⟩

end Name

namespace Sample

def barn : Name := ⟨⟨["lake"]⟩, "barn"⟩

def attic : Name := ⟨.root, "attic"⟩

def hay : Name := ⟨⟨["lake", "barn", "loft"]⟩, "hay"⟩

def hayInAttic : Name := ⟨⟨["attic", "loft"]⟩, "hay"⟩

/-- A name goes from below one of two parts to below one of one part, and back. -/
theorem rebases_hay : barn.isAncestorOf hay = true ∧
    hay.rebase? barn attic = some hayInAttic ∧ hayInAttic.rebase? attic barn = some hay := by
  obtain ⟨_, hRebased, hBack, _⟩ := Name.rebases
  have hMoved : hay.rebase? barn attic = some hayInAttic := by decide +kernel
  exact ⟨(hRebased hay barn attic).mp ⟨hayInAttic, hMoved⟩, hMoved, (hBack _ _ _ _ hMoved).2.2⟩

end Sample

end VersionedCatalog
