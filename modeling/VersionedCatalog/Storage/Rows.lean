import VersionedCatalog.Bytes
import VersionedCatalog.OrderedMap

/-! # Rows and batches

The contents of a backend are rows in ascending order of their keys. The rows below a stem, those
whose keys start with it, are a range: from the stem up to the least byte string above all its
extensions. A batch is a list of operations that take effect together, in order, so the last
operation on a key decides.
-/

namespace VersionedCatalog.Storage

abbrev Row := Bytes × Bytes

abbrev Rows := OrderedMap Bytes Bytes

inductive Op
  | put (key value : Bytes)
  | delete (key : Bytes)
  deriving DecidableEq

def Op.key : Op → Bytes
  | .put key _ => key
  | .delete key => key

/-- What the key of an operation holds afterwards. -/
def Op.value? : Op → Option Bytes
  | .put _ value => some value
  | .delete _ => none

def Op.isDelete : Op → Bool
  | .put _ _ => false
  | .delete _ => true

abbrev Batch := List Op

namespace Rows

/-- The rows whose keys start with a stem, in ascending order. -/
def below (rows : Rows) (stem : Bytes) : List Row := rows.range stem (Bytes.next? stem)

def lastBelow? (rows : Rows) (stem : Bytes) : Option Row := (rows.below stem).getLast?

def applyOp (rows : Rows) : Op → Rows
  | .put key value => rows.insert key value
  | .delete key => rows.erase key

def apply (rows : Rows) (batch : Batch) : Rows := batch.foldl applyOp rows

theorem get?_applyOp (rows : Rows) (op : Op) (key : Bytes) :
    (rows.applyOp op).get? key = if key = op.key then op.value? else rows.get? key := by
  cases op with
  | put k v => exact OrderedMap.get?_insert rows k key v
  | delete k => exact OrderedMap.get?_erase rows k key

theorem apply_append (rows : Rows) (first second : Batch) :
    rows.apply (first ++ second) = (rows.apply first).apply second :=
  List.foldl_append

/-- A batch leaves the keys alone that it does not mention. -/
theorem get?_apply_of_not_mem (rows : Rows) (batch : Batch) (key : Bytes)
    (hOther : ∀ op ∈ batch, key ≠ op.key) : (rows.apply batch).get? key = rows.get? key := by
  induction batch generalizing rows with
  | nil => rfl
  | cons op rest ih =>
    have hRest := ih (rows.applyOp op) fun other hMem =>
      hOther other (List.mem_cons_of_mem op hMem)
    exact hRest.trans (by rw [get?_applyOp, if_neg (hOther op List.mem_cons_self)])

/-- What a key holds after a batch was put there by it, or was there before. -/
theorem get?_apply_cases (rows : Rows) (batch : Batch) {key value : Bytes}
    (hFound : (rows.apply batch).get? key = some value) :
    .put key value ∈ batch ∨ rows.get? key = some value := by
  induction batch generalizing rows with
  | nil => exact Or.inr hFound
  | cons op rest ih =>
    rcases ih (rows.applyOp op) hFound with hRest | hFirst
    · exact Or.inl (List.mem_cons_of_mem op hRest)
    · rw [get?_applyOp] at hFirst
      split at hFirst
      next hKey =>
        cases op with
        | put other held =>
          cases hFirst
          cases hKey
          exact Or.inl List.mem_cons_self
        | delete other => cases hFirst
      next => exact Or.inr hFirst

end Rows

end VersionedCatalog.Storage
