import VersionedCatalog.Bytes

/-! # Ordered maps

A map is the list of its entries in strictly ascending order of their keys, so every walk over a
map visits the keys in order. Property tables, stored rows and the files of a folder are such maps.
`get?_insert` and `get?_erase` say what a map answers after a change, `get?_eq_some_iff` that it
answers what its entries hold, and `eq_of_get?` that nothing else tells maps apart. `perm_insert`
says what a map holds with a new entry.
-/

namespace VersionedCatalog

/-- Of two different keys exactly one is before the other. -/
class StrictLinear (κ : Type) [LT κ] : Prop where
  lt_irrefl (a : κ) : ¬ a < a
  lt_trans {a b c : κ} : a < b → b < c → a < c
  eq_of_not_lt {a b : κ} : ¬ a < b → ¬ b < a → a = b

theorem strictLinear_of_isLinearOrder (κ : Type) [LT κ] [LE κ] [Std.IsLinearOrder κ]
    [Std.LawfulOrderLT κ] : StrictLinear κ where
  lt_irrefl _ := Std.lt_irrefl
  lt_trans hFirst hSecond := Std.lt_trans hFirst hSecond
  eq_of_not_lt hNotLt hNotGt := Std.le_antisymm (Std.not_lt.mp hNotGt) (Std.not_lt.mp hNotLt)

theorem strictLinear_string : StrictLinear String := strictLinear_of_isLinearOrder String

theorem strictLinear_bytes : StrictLinear Bytes := strictLinear_of_isLinearOrder Bytes

theorem strictLinear_strings : StrictLinear (List String) :=
  strictLinear_of_isLinearOrder (List String)

instance : StrictLinear String := strictLinear_string

instance : StrictLinear Bytes := strictLinear_bytes

instance : StrictLinear (List String) := strictLinear_strings

structure OrderedMap (κ ν : Type) [LT κ] where
  entries : List (κ × ν)
  ascending : entries.Pairwise (fun a b => a.1 < b.1)
  deriving DecidableEq

namespace OrderedMap

variable {κ ν : Type} [LT κ] [DecidableLT κ]

def empty : OrderedMap κ ν := ⟨[], .nil⟩

instance : EmptyCollection (OrderedMap κ ν) := ⟨empty⟩

instance : Inhabited (OrderedMap κ ν) := ⟨empty⟩

def keys (m : OrderedMap κ ν) : List κ := m.entries.map (·.1)

def size (m : OrderedMap κ ν) : Nat := m.entries.length

def get? [DecidableEq κ] (m : OrderedMap κ ν) (k : κ) : Option ν := m.entries.lookup k

def contains [DecidableEq κ] (m : OrderedMap κ ν) (k : κ) : Bool := (m.get? k).isSome

def insertEntry (k : κ) (v : ν) : List (κ × ν) → List (κ × ν)
  | [] => [(k, v)]
  | e :: rest =>
    if k < e.1 then (k, v) :: e :: rest
    else if e.1 < k then e :: insertEntry k v rest
    else (k, v) :: rest

theorem mem_insertEntry {k : κ} {v : ν} {x : κ × ν} {l : List (κ × ν)}
    (hMem : x ∈ insertEntry k v l) : x = (k, v) ∨ x ∈ l := by
  induction l with
  | nil => simpa [insertEntry] using hMem
  | cons e rest ih =>
    unfold insertEntry at hMem
    split at hMem
    · simpa using hMem
    · split at hMem
      · rcases List.mem_cons.mp hMem with hEq | hRest
        · exact Or.inr (hEq ▸ List.mem_cons_self)
        · exact (ih hRest).imp id (List.mem_cons_of_mem _)
      · exact (List.mem_cons.mp hMem).imp id (List.mem_cons_of_mem _)

section
variable [StrictLinear κ]

theorem insertEntry_ascending (k : κ) (v : ν) {l : List (κ × ν)}
    (hAsc : l.Pairwise (fun a b => a.1 < b.1)) :
    (insertEntry k v l).Pairwise (fun a b => a.1 < b.1) := by
  induction l with
  | nil => simp [insertEntry]
  | cons e rest ih =>
    obtain ⟨hHead, hRest⟩ := List.pairwise_cons.mp hAsc
    unfold insertEntry
    split
    next hBefore =>
      refine List.pairwise_cons.mpr ⟨fun x hx => ?_, hAsc⟩
      rcases List.mem_cons.mp hx with hEq | hx
      · exact hEq ▸ hBefore
      · exact StrictLinear.lt_trans hBefore (hHead x hx)
    next hNotBefore =>
      split
      next hAfter =>
        refine List.pairwise_cons.mpr ⟨fun x hx => ?_, ih hRest⟩
        rcases mem_insertEntry hx with hEq | hx
        · exact hEq ▸ hAfter
        · exact hHead x hx
      next hNotAfter =>
        have hSame : e.1 = k := StrictLinear.eq_of_not_lt hNotAfter hNotBefore
        exact List.pairwise_cons.mpr ⟨fun x hx => hSame ▸ hHead x hx, hRest⟩

/-- The map that also answers `k` with `v`, whatever it answered before. -/
def insert (m : OrderedMap κ ν) (k : κ) (v : ν) : OrderedMap κ ν :=
  ⟨insertEntry k v m.entries, insertEntry_ascending k v m.ascending⟩

def ofList (entries : List (κ × ν)) : OrderedMap κ ν :=
  entries.foldl (fun m e => m.insert e.1 e.2) ∅

end

def filter (p : κ → ν → Bool) (m : OrderedMap κ ν) : OrderedMap κ ν :=
  ⟨m.entries.filter (fun e => p e.1 e.2), m.ascending.filter _⟩

def erase [DecidableEq κ] (m : OrderedMap κ ν) (k : κ) : OrderedMap κ ν :=
  m.filter (fun key _ => key ≠ k)

/-- The entries from `low` on, up to and without `high` when there is one. -/
def range (m : OrderedMap κ ν) (low : κ) (high : Option κ) : List (κ × ν) :=
  (m.entries.dropWhile (fun e => e.1 < low)).takeWhile
    (fun e => match high with
      | some bound => e.1 < bound
      | none => true)

/-! ### What a map answers

A key has at most one value, and two maps that answer alike are the same map.
-/

section
variable [DecidableEq κ]

omit [DecidableLT κ] in
theorem get?_empty (k : κ) : (∅ : OrderedMap κ ν).get? k = none := rfl

theorem lookup_insertEntry_self (k : κ) (v : ν) (l : List (κ × ν)) [StrictLinear κ] :
    (insertEntry k v l).lookup k = some v := by
  induction l with
  | nil => simp [insertEntry]
  | cons e rest ih =>
    unfold insertEntry
    split
    next => simp
    next =>
      split
      next hAfter =>
        have hNe : k ≠ e.1 := fun hEq => StrictLinear.lt_irrefl k (hEq ▸ hAfter)
        rw [List.lookup_cons, beq_false_of_ne hNe]
        exact ih
      next => simp

theorem lookup_insertEntry_of_ne {j k : κ} (hNe : j ≠ k) (v : ν) (l : List (κ × ν))
    [StrictLinear κ] : (insertEntry k v l).lookup j = l.lookup j := by
  induction l with
  | nil => simp [insertEntry, List.lookup_cons, beq_false_of_ne hNe]
  | cons e rest ih =>
    unfold insertEntry
    split
    next => rw [List.lookup_cons, beq_false_of_ne hNe]
    next hNotBefore =>
      split
      next => rw [List.lookup_cons, List.lookup_cons, ih]
      next hNotAfter =>
        have hSame : e.1 = k := StrictLinear.eq_of_not_lt hNotAfter hNotBefore
        rw [List.lookup_cons, List.lookup_cons, hSame, beq_false_of_ne hNe]

theorem get?_insert [StrictLinear κ] (m : OrderedMap κ ν) (k j : κ) (v : ν) :
    (m.insert k v).get? j = if j = k then some v else m.get? j := by
  by_cases hEq : j = k
  · rw [if_pos hEq, hEq]
    exact lookup_insertEntry_self k v m.entries
  · rw [if_neg hEq]
    exact lookup_insertEntry_of_ne hEq v m.entries

omit [DecidableLT κ] in
theorem get?_erase (m : OrderedMap κ ν) (k j : κ) :
    (m.erase k).get? j = if j = k then none else m.get? j := by
  obtain ⟨entries, _⟩ := m
  simp only [get?, erase, filter]
  induction entries with
  | nil => simp
  | cons e rest ih =>
    have hRest := ih (List.pairwise_cons.mp ‹_›).2
    by_cases hKept : e.1 = k
    · rw [List.filter_cons_of_neg (by simp [hKept]), hRest]
      by_cases hEq : j = k
      · rw [if_pos hEq, if_pos hEq]
      · rw [if_neg hEq, if_neg hEq, List.lookup_cons, hKept, beq_false_of_ne hEq]
    · rw [List.filter_cons_of_pos (by simp [hKept]), List.lookup_cons, List.lookup_cons, hRest]
      by_cases hEq : j = k
      · rw [if_pos hEq, hEq, beq_false_of_ne (Ne.symm hKept), if_pos rfl]
      · rw [if_neg hEq, if_neg hEq]

omit [DecidableLT κ] in
theorem lookup_eq_some_iff [StrictLinear κ] {l : List (κ × ν)}
    (hAsc : l.Pairwise (fun a b => a.1 < b.1)) (k : κ) (v : ν) :
    l.lookup k = some v ↔ (k, v) ∈ l := by
  induction l with
  | nil => simp
  | cons e rest ih =>
    obtain ⟨hHead, hRest⟩ := List.pairwise_cons.mp hAsc
    rw [List.lookup_cons, List.mem_cons]
    by_cases hEq : k = e.1
    · have hOut : (k, v) ∉ rest := fun hMem =>
        StrictLinear.lt_irrefl k (by simpa [← hEq] using hHead (k, v) hMem)
      rw [hEq, beq_self_eq_true]
      simp only [Option.some.injEq]
      constructor
      · intro hVal
        exact Or.inl (by rw [← hVal])
      · rintro (hSame | hMem)
        · rw [← hSame]
        · exact absurd (hEq ▸ hMem) hOut
    · rw [beq_false_of_ne hEq, ih hRest]
      constructor
      · exact Or.inr
      · rintro (hSame | hMem)
        · exact absurd (congrArg Prod.fst hSame) hEq
        · exact hMem

omit [DecidableLT κ] in
theorem get?_eq_some_iff [StrictLinear κ] (m : OrderedMap κ ν) (k : κ) (v : ν) :
    m.get? k = some v ↔ (k, v) ∈ m.entries := lookup_eq_some_iff m.ascending k v

omit [DecidableLT κ] in
theorem get?_filter [StrictLinear κ] (m : OrderedMap κ ν) (p : κ → ν → Bool) (k : κ) :
    (m.filter p).get? k = (m.get? k).filter (p k) := by
  refine Option.ext fun v => ?_
  rw [get?_eq_some_iff, Option.filter_eq_some_iff, get?_eq_some_iff, filter, List.mem_filter]

omit [DecidableLT κ] [DecidableEq κ] in
theorem eq_of_mem_iff [StrictLinear κ] {l₁ l₂ : List (κ × ν)}
    (hAsc₁ : l₁.Pairwise (fun a b => a.1 < b.1)) (hAsc₂ : l₂.Pairwise (fun a b => a.1 < b.1))
    (hSame : ∀ e, e ∈ l₁ ↔ e ∈ l₂) : l₁ = l₂ := by
  induction l₁ generalizing l₂ with
  | nil =>
    cases l₂ with
    | nil => rfl
    | cons b rest => exact absurd ((hSame b).mpr List.mem_cons_self) List.not_mem_nil
  | cons a rest₁ ih =>
    cases l₂ with
    | nil => exact absurd ((hSame a).mp List.mem_cons_self) List.not_mem_nil
    | cons b rest₂ =>
      obtain ⟨hHead₁, hRest₁⟩ := List.pairwise_cons.mp hAsc₁
      obtain ⟨hHead₂, hRest₂⟩ := List.pairwise_cons.mp hAsc₂
      have hEq : a = b := by
        rcases List.mem_cons.mp ((hSame a).mp List.mem_cons_self) with hEq | hMem
        · exact hEq
        · rcases List.mem_cons.mp ((hSame b).mpr List.mem_cons_self) with hEq | hMem'
          · exact hEq.symm
          · exact absurd (StrictLinear.lt_trans (hHead₁ b hMem') (hHead₂ a hMem))
              (StrictLinear.lt_irrefl a.1)
      subst hEq
      have hSameRest : ∀ e, e ∈ rest₁ ↔ e ∈ rest₂ := by
        intro e
        constructor
        · intro hMem
          rcases List.mem_cons.mp ((hSame e).mp (List.mem_cons_of_mem _ hMem)) with hEq | hIn
          · exact absurd (hEq ▸ hHead₁ e hMem) (StrictLinear.lt_irrefl e.1)
          · exact hIn
        · intro hMem
          rcases List.mem_cons.mp ((hSame e).mpr (List.mem_cons_of_mem _ hMem)) with hEq | hIn
          · exact absurd (hEq ▸ hHead₂ e hMem) (StrictLinear.lt_irrefl e.1)
          · exact hIn
      rw [ih hRest₁ hRest₂ hSameRest]

omit [DecidableLT κ] in
theorem eq_of_get? [StrictLinear κ] {m n : OrderedMap κ ν}
    (hSame : ∀ k, m.get? k = n.get? k) : m = n := by
  obtain ⟨entries₁, hAsc₁⟩ := m
  obtain ⟨entries₂, hAsc₂⟩ := n
  have hEntries : entries₁ = entries₂ := eq_of_mem_iff hAsc₁ hAsc₂ fun e => by
    rw [← lookup_eq_some_iff hAsc₁ e.1 e.2, ← lookup_eq_some_iff hAsc₂ e.1 e.2]
    exact iff_of_eq (congrArg (· = some e.2) (hSame e.1))
  subst hEntries
  rfl

theorem get?_foldl_insert [StrictLinear κ] {l : List (κ × ν)}
    (hAsc : l.Pairwise (fun a b => a.1 < b.1)) (m : OrderedMap κ ν) (k : κ) :
    (l.foldl (fun m e => m.insert e.1 e.2) m).get? k = (l.lookup k <|> m.get? k) := by
  induction l generalizing m with
  | nil => simp
  | cons e rest ih =>
    obtain ⟨hHead, hRest⟩ := List.pairwise_cons.mp hAsc
    rw [List.foldl_cons, ih hRest, get?_insert, List.lookup_cons]
    by_cases hEq : k = e.1
    · have hOnce : rest.lookup k = none := by
        cases hFound : rest.lookup k with
        | none => rfl
        | some v =>
          have hAfter : e.1 < k := hHead (k, v) ((lookup_eq_some_iff hRest k v).mp hFound)
          exact absurd (hEq ▸ hAfter) (StrictLinear.lt_irrefl k)
      rw [hOnce, if_pos hEq, hEq, beq_self_eq_true]
      rfl
    · rw [if_neg hEq, beq_false_of_ne hEq]

/-- A map is made of its entries. -/
theorem ofList_entries [StrictLinear κ] (m : OrderedMap κ ν) : ofList m.entries = m := by
  refine eq_of_get? fun k => (get?_foldl_insert m.ascending ∅ k).trans ?_
  rw [get?_empty]
  cases hFound : m.entries.lookup k <;> simp [get?, hFound]

/-! ### What a changed map holds -/

section
variable [StrictLinear κ]

omit [DecidableLT κ] in
theorem filter_eq_self_of_lt {k : κ} {l : List (κ × ν)} (hAbove : ∀ e ∈ l, k < e.1) :
    l.filter (fun e => e.1 ≠ k) = l := by
  refine List.filter_eq_self.mpr fun e hMem => decide_eq_true fun hSame => ?_
  exact StrictLinear.lt_irrefl k (hSame ▸ hAbove e hMem)

theorem perm_insertEntry (k : κ) (v : ν) {l : List (κ × ν)}
    (hAsc : l.Pairwise (fun a b => a.1 < b.1)) :
    (insertEntry k v l).Perm ((k, v) :: l.filter fun e => e.1 ≠ k) := by
  induction l with
  | nil => exact .refl _
  | cons e rest ih =>
    obtain ⟨hHead, hRest⟩ := List.pairwise_cons.mp hAsc
    rw [insertEntry]
    split
    next hBefore =>
      have hAbove : ∀ x ∈ e :: rest, k < x.1 := List.forall_mem_cons.mpr
        ⟨hBefore, fun x hMem => StrictLinear.lt_trans hBefore (hHead x hMem)⟩
      rw [filter_eq_self_of_lt hAbove]
    next hNotBefore =>
      split
      next hAfter =>
        have hNe : e.1 ≠ k := fun hSame => StrictLinear.lt_irrefl k (hSame ▸ hAfter)
        rw [List.filter_cons_of_pos (by simp [hNe])]
        exact ((ih hRest).cons e).trans (.swap _ _ _)
      next hNotAfter =>
        obtain rfl : e.1 = k := StrictLinear.eq_of_not_lt hNotAfter hNotBefore
        rw [List.filter_cons_of_neg (by simp), filter_eq_self_of_lt hHead]

/-- A map with a new entry holds it and what it held under other keys. -/
theorem perm_insert (m : OrderedMap κ ν) (k : κ) (v : ν) :
    (m.insert k v).entries.Perm ((k, v) :: (m.erase k).entries) := perm_insertEntry k v m.ascending

theorem insert_of_get? {m : OrderedMap κ ν} {k : κ} {v : ν} (hFound : m.get? k = some v) :
    m.insert k v = m := by
  refine eq_of_get? fun key => ?_
  rw [get?_insert]
  split
  next hSame => rw [hSame, hFound]
  next => rfl

omit [DecidableLT κ] in
theorem erase_of_get? {m : OrderedMap κ ν} {k : κ} (hNone : m.get? k = none) : m.erase k = m := by
  refine eq_of_get? fun key => ?_
  rw [get?_erase]
  split
  next hSame => rw [hSame, hNone]
  next => rfl

end

end

end OrderedMap

end VersionedCatalog
