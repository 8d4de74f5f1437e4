import Mathlib.Data.List.AList

/-!
# Tables

A table is a finite map with one entry for each key.  Beside the single-key
operations of `AList` there are the loops that write or remove one entry for each
key of a list, write the pairs of a list or keep the entries of a predicate, with what a
lookup sees after them.
-/

/-- A finite map. -/
abbrev Table (α β : Type) := AList fun _ : α => β

namespace Table

variable {α β : Type}

theorem length_keys
    (m : Table α β) :
    m.keys.length = m.entries.length :=
  List.length_map _

variable [DecidableEq α]

/-- Lookup after a single write. -/
theorem lookup_insert_ite
    (a b : α) (v : β) (m : Table α β) :
    (m.insert b v).lookup a = if a = b then some v else m.lookup a := by
  by_cases h : a = b
  · rw [if_pos h, h, AList.lookup_insert]
  · rw [if_neg h, AList.lookup_insert_ne h]

/-- Lookup after a single removal. -/
theorem lookup_erase_ite
    (a b : α) (m : Table α β) :
    (m.erase b).lookup a = if a = b then none else m.lookup a := by
  by_cases h : a = b
  · rw [if_pos h, h, AList.lookup_erase]
  · rw [if_neg h, AList.lookup_erase_ne h]

theorem length_erase
    {a : α} {m : Table α β} (h : a ∈ m) :
    (m.erase a).entries.length = m.entries.length - 1 := by
  rw [← length_keys, AList.keys_erase, List.length_erase_of_mem h, length_keys]

theorem length_insert_le
    (a : α) (v : β) (m : Table α β) :
    (m.insert a v).entries.length ≤ m.entries.length + 1 := by
  rw [← length_keys, AList.keys_insert, List.length_cons, ← length_keys]
  exact Nat.succ_le_succ List.length_erase_le

/-- Write the same value at every key of a list. -/
def insertAll (keys : List α) (v : β) (m : Table α β) : Table α β :=
  keys.foldl (fun m k => m.insert k v) m

/-- Remove every key of a list. -/
def eraseAll (keys : List α) (m : Table α β) : Table α β :=
  keys.foldl (fun m k => m.erase k) m

theorem lookup_insertAll
    (keys : List α) (v : β) (a : α) (m : Table α β) :
    (insertAll keys v m).lookup a = if a ∈ keys then some v else m.lookup a := by
  induction keys generalizing m with
  | nil =>
      simp [insertAll]
  | cons k keys ih =>
      have := ih (m.insert k v)
      rw [insertAll, List.foldl_cons, ← insertAll, this, lookup_insert_ite]
      by_cases hk : a = k <;> by_cases hks : a ∈ keys <;> simp [hk, hks]

theorem lookup_eraseAll
    (keys : List α) (a : α) (m : Table α β) :
    (eraseAll keys m).lookup a = if a ∈ keys then none else m.lookup a := by
  induction keys generalizing m with
  | nil =>
      simp [eraseAll]
  | cons k keys ih =>
      have := ih (m.erase k)
      rw [eraseAll, List.foldl_cons, ← eraseAll, this, lookup_erase_ite]
      by_cases hk : a = k <;> by_cases hks : a ∈ keys <;> simp [hk, hks]

/-- Keep the entries that satisfy a predicate. -/
def retain (p : α → β → Bool) (m : Table α β) : Table α β where
  entries := m.entries.filter fun e => p e.1 e.2
  nodupKeys := m.nodupKeys.sublist List.filter_sublist

theorem lookup_retain
    (p : α → β → Bool) (a : α) (m : Table α β) :
    (retain p m).lookup a = (m.lookup a).filter (p a) := by
  ext v
  have hmem : v ∈ (retain p m).lookup a ↔ v ∈ m.lookup a ∧ p a v = true := by
    rw [AList.mem_lookup_iff, AList.mem_lookup_iff]
    exact List.mem_filter
  simpa [Option.filter_eq_some_iff] using hmem

/-- Write pairs one after the other. -/
def insertPairs (pairs : List (α × β)) (m : Table α β) : Table α β :=
  pairs.foldl (fun m p => m.insert p.1 p.2) m

/-- The value in the last pair of a name. -/
def lastValue (pairs : List (α × β)) (a : α) : Option β :=
  (pairs.reverse.find? fun p => p.1 = a).map Prod.snd

theorem lastValue_append
    (xs ys : List (α × β)) (a : α) :
    lastValue (xs ++ ys) a = (lastValue ys a).or (lastValue xs a) := by
  unfold lastValue
  rw [List.reverse_append, List.find?_append, Option.map_or]

theorem lastValue_eq_none
    {pairs : List (α × β)} {a : α} (h : ∀ p ∈ pairs, p.1 ≠ a) :
    lastValue pairs a = none := by
  unfold lastValue
  rw [Option.map_eq_none_iff, List.find?_eq_none]
  intro p hp
  rw [decide_eq_true_eq]
  exact h p (List.mem_reverse.mp hp)

/-- A lookup sees the last pair of its name, and what was there before if there is none. -/
theorem lookup_insertPairs
    (pairs : List (α × β)) (a : α) (m : Table α β) :
    (insertPairs pairs m).lookup a = (lastValue pairs a).or (m.lookup a) := by
  induction pairs generalizing m with
  | nil => rfl
  | cons p pairs ih =>
      have hlast : lastValue (p :: pairs) a = (lastValue pairs a).or (lastValue [p] a) :=
        lastValue_append [p] pairs a
      have hone : lastValue [p] a = if a = p.1 then some p.2 else none := by
        unfold lastValue
        rw [List.reverse_singleton, List.find?_singleton]
        by_cases h : a = p.1
        · rw [if_pos h, if_pos (decide_eq_true h.symm), Option.map_some]
        · rw [if_neg h, if_neg (by simpa using fun heq => h heq.symm), Option.map_none]
      rw [insertPairs, List.foldl_cons, ← insertPairs, ih, lookup_insert_ite, hlast, hone,
        Option.or_assoc]
      congr 1
      split
      · rfl
      · rfl

end Table
