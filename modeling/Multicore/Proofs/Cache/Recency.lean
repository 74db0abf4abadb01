import Multicore.Cache.RecencyMap

/-!
# Look-ups in a recency map

What each operation of a `RecencyMap` does to the values that `peek?` finds. Every operation
comes with a lemma for the key it is about and one for the other keys; an insertion may in
addition evict one other key (`peek?_insert_of_ne`), and `of_insert_eq_some` says which entry
it hands out.
-/

namespace Multicore.RecencyMap

open Std

variable {K V : Type} [Ord K]

/-- A key is listed exactly if it has a value: the two maps are inverse to each other. -/
theorem mem_keys_iff [TransOrd K] {m : RecencyMap K V} {k : K} :
    k ∈ m.keys ↔ ∃ v, m.peek? k = some v := by
  simp only [keys, List.mem_map, Prod.exists, exists_eq_right,
    TreeMap.mem_toList_iff_getElem?_eq_some]
  constructor
  · rintro ⟨t, ht⟩
    obtain ⟨s, hs, -⟩ := m.entry_of_order ht
    exact ⟨s.value, by simp [peek?, hs]⟩
  · rintro ⟨v, hv⟩
    obtain ⟨s, hs, -⟩ := Option.map_eq_some_iff.1 hv
    exact ⟨s.stamp, m.order_of_entry hs⟩

/-- The oldest key is listed first. -/
theorem oldest?_eq_head?_keys [TransOrd K] (m : RecencyMap K V) : m.oldest? = m.keys.head? := by
  rw [oldest?, keys, TreeMap.minKey?_eq_head?_keys, ← TreeMap.map_fst_toList_eq_keys]
  rcases hlist : m.order.toList with _ | ⟨⟨t, k⟩, rest⟩
  · rfl
  · refine TreeMap.mem_toList_iff_getElem?_eq_some.1 ?_
    rw [hlist]
    exact List.mem_cons_self

/-- A map contains the keys that have a value. -/
theorem contains_eq_isSome_peek? [TransOrd K] (m : RecencyMap K V) (k : K) :
    m.contains k = (m.peek? k).isSome := by
  rw [contains, TreeMap.contains_eq_isSome_getElem?, peek?, Option.isSome_map]

/-- A key has no value exactly if it has no entry. -/
theorem peek?_eq_none_iff [TransOrd K] {m : RecencyMap K V} {k : K} :
    m.peek? k = none ↔ k ∉ m.entries := by
  rw [peek?, Option.map_eq_none_iff, TreeMap.mem_iff_isSome_getElem?,
    Option.not_isSome_iff_eq_none]

/-- An empty map has no entries. -/
@[simp] theorem peek?_empty [TransOrd K] (capacity : Nat) (k : K) :
    (empty capacity : RecencyMap K V).peek? k = none := by
  simp [peek?, empty]

/-- A map that was cleared has no entries. -/
@[simp] theorem peek?_clear [TransOrd K] (m : RecencyMap K V) (k : K) :
    m.clear.peek? k = none := by
  simp [peek?, clear]

/-- Ticks of the clock add up. -/
@[simp] theorem advance_advance (m : RecencyMap K V) (k l : Nat) :
    (m.advance k).advance l = m.advance (k + l) := by
  simp only [advance, Nat.add_assoc]

variable [TransOrd K] [LawfulEqOrd K]

/-- A removal leaves the capacity. -/
@[simp] theorem capacity_erase (m : RecencyMap K V) (k : K) :
    (m.erase k).capacity = m.capacity := by
  unfold erase
  split <;> rfl

/-- A key that was removed is gone. -/
@[simp] theorem peek?_erase_self (m : RecencyMap K V) (k : K) : (m.erase k).peek? k = none :=
  peek?_eq_none_iff.2 (m.not_mem_erase k)

/-- A removal leaves the other keys. -/
theorem peek?_erase_of_ne (m : RecencyMap K V) {k k' : K} (h : k' ≠ k) :
    (m.erase k).peek? k' = m.peek? k' := by
  have hc : compare k k' ≠ .eq := fun e => h (LawfulEqOrd.eq_of_compare e).symm
  unfold erase
  split
  · rfl
  · simp [peek?, TreeMap.getElem?_erase, hc]

/-- A key that was put in has its value. -/
theorem peek?_put_self (m : RecencyMap K V) {k : K} {v : V} (hk : k ∉ m.entries)
    (hroom : m.entries.size < m.capacity) : (m.put k v hk hroom).peek? k = some v := by
  simp [peek?, put]

/-- The other keys keep theirs. -/
theorem peek?_put_of_ne (m : RecencyMap K V) {k k' : K} {v : V} (hk : k ∉ m.entries)
    (hroom : m.entries.size < m.capacity) (h : k' ≠ k) :
    (m.put k v hk hroom).peek? k' = m.peek? k' := by
  have hc : compare k k' ≠ .eq := fun e => h (LawfulEqOrd.eq_of_compare e).symm
  simp [peek?, put, TreeMap.getElem?_insert, hc]

/-! ## Use of a key -/

/-- Using a key answers its value after the change. -/
@[simp] theorem access_fst (m : RecencyMap K V) (k : K) (change : V → V) :
    (m.access k change).1 = (m.peek? k).map change := by
  unfold access
  split
  · next h => simp [peek?, TreeMap.getElem?_eq_some_getElem h]
  · next h => rw [peek?_eq_none_iff.2 h, Option.map_none]

/-- An access leaves the capacity. -/
@[simp] theorem capacity_access (m : RecencyMap K V) (k : K) (change : V → V) :
    (m.access k change).2.capacity = m.capacity := by
  unfold access
  split
  · exact capacity_erase m k
  · rfl

/-- A look-up answers what is there. -/
@[simp] theorem get_fst (m : RecencyMap K V) (k : K) : (m.get k).1 = m.peek? k :=
  (m.access_fst k id).trans (Option.map_id_apply)

/-- Using a key changes no value. -/
@[simp] theorem peek?_get (m : RecencyMap K V) (k k' : K) :
    (m.get k).2.peek? k' = m.peek? k' := by
  unfold get access
  split
  · next h =>
    by_cases hk : k' = k
    · subst hk
      dsimp only
      rw [peek?_put_self]
      simp [peek?, TreeMap.getElem?_eq_some_getElem h]
    · rw [peek?_put_of_ne _ _ _ hk, peek?_erase_of_ne _ hk]
  · rfl

@[simp] theorem capacity_get (m : RecencyMap K V) (k : K) : (m.get k).2.capacity = m.capacity :=
  m.capacity_access k id

/-- Using a key without an entry only lets the clock advance. -/
theorem get_of_peek?_eq_none (m : RecencyMap K V) {k : K} (h : m.peek? k = none) :
    m.get k = (none, m.advance 1) := by
  unfold get access
  rw [dif_neg (peek?_eq_none_iff.1 h)]

/-! ## Insertion -/

/-- An insertion leaves the capacity, since it makes room first. -/
@[simp] theorem capacity_insert (m : RecencyMap K V) (k : K) (v : V) :
    (m.insert k v).2.capacity = m.capacity := by
  unfold insert
  split
  · exact capacity_erase m k
  · split
    · rfl
    · exact capacity_erase m _

/-- A key that was inserted has its value, also if an older entry was evicted for it. -/
@[simp] theorem peek?_insert_self (m : RecencyMap K V) (k : K) (v : V) :
    (m.insert k v).2.peek? k = some v := by
  unfold insert
  split
  · dsimp only
    rw [peek?_put_self]
  · split <;> dsimp only <;> rw [peek?_put_self]

/-- A key that has an entry takes its new value without an eviction. -/
theorem insert_fst_of_peek? (m : RecencyMap K V) {k : K} {v w : V} (h : m.peek? k = some w) :
    (m.insert k v).1 = none := by
  have hk : k ∈ m.entries := by
    rw [← Decidable.not_not (p := k ∈ m.entries), ← peek?_eq_none_iff, h]
    simp
  simp [insert, hk]

/-- What an insertion hands out was the entry of another key, and has none afterwards. -/
theorem of_insert_fst {m : RecencyMap K V} {k k' : K} {v w : V}
    (h : (m.insert k v).1 = some (k', w)) :
    k' ≠ k ∧ m.peek? k = none ∧ m.peek? k' = some w ∧ (m.insert k v).2.peek? k' = none := by
  by_cases hk : k ∈ m.entries
  · simp [insert, hk] at h
  by_cases hroom : m.entries.size < m.capacity
  · simp [insert, hk, hroom] at h
  have hfull := m.isSome_oldest? (Nat.le_of_not_lt hroom)
  simp only [insert, hk, hroom, dite_false, Option.map_eq_some_iff, Prod.mk.injEq] at h
  obtain ⟨w', hw, rfl, rfl⟩ := h
  have hold : m.oldest?.get hfull ≠ k := by
    intro e
    exact hk (e ▸ m.mem_of_oldest? (by simp))
  refine ⟨hold, peek?_eq_none_iff.2 hk, hw, ?_⟩
  simp only [insert, hk, hroom, dite_false]
  rw [peek?_put_of_ne _ _ _ hold, peek?_erase_self]

/-- What an insertion hands out is the entry of the oldest key, and that exactly if the key is new
and the map is full. -/
theorem insert_fst_eq_some_iff {m : RecencyMap K V} {k k' : K} {v w : V} :
    (m.insert k v).1 = some (k', w) ↔
      m.peek? k = none ∧ m.capacity ≤ m.size ∧ m.oldest? = some k' ∧ m.peek? k' = some w := by
  by_cases hk : k ∈ m.entries
  · simp [insert, hk, peek?_eq_none_iff]
  by_cases hroom : m.entries.size < m.capacity
  · have hnot : ¬ m.capacity ≤ m.size := Nat.not_le_of_lt hroom
    simp [insert, hk, hroom, hnot]
  have hfull : m.capacity ≤ m.size := Nat.le_of_not_lt hroom
  have hout : (m.insert k v).1 =
      (m.peek? (m.oldest?.get (m.isSome_oldest? hfull))).map fun w =>
        (m.oldest?.get (m.isSome_oldest? hfull), w) := by
    simp only [insert, hk, hroom, dite_false]
  obtain ⟨old, hold⟩ := Option.isSome_iff_exists.1 (m.isSome_oldest? hfull)
  simp only [hold, Option.get_some] at hout
  simp only [hout, hold, peek?_eq_none_iff, hk, hfull, not_false_eq_true, true_and,
    Option.map_eq_some_iff, Prod.mk.injEq, Option.some.injEq]
  constructor
  · rintro ⟨w', hw, rfl, rfl⟩
    exact ⟨rfl, hw⟩
  · rintro ⟨rfl, hw⟩
    exact ⟨w, hw, rfl, rfl⟩

/-- An insertion changes the value of no key but its own and the one it evicts. -/
theorem peek?_insert_of_ne (m : RecencyMap K V) {k k' : K} (v : V) (h : k' ≠ k) :
    (m.insert k v).2.peek? k' = m.peek? k' ∨
      ∃ w, m.peek? k' = some w ∧ (m.insert k v).1 = some (k', w) := by
  by_cases hk : k ∈ m.entries
  · simp only [insert, hk, dite_true]
    exact .inl (by rw [peek?_put_of_ne _ _ _ h, peek?_erase_of_ne _ h])
  by_cases hroom : m.entries.size < m.capacity
  · simp only [insert, hk, hroom, dite_true, dite_false]
    exact .inl (peek?_put_of_ne _ _ _ h)
  have hfull := m.isSome_oldest? (Nat.le_of_not_lt hroom)
  simp only [insert, hk, hroom, dite_false]
  by_cases hv : k' = m.oldest?.get hfull
  · right
    obtain ⟨w, hw⟩ : ∃ w, m.peek? k' = some w := by
      refine Option.isSome_iff_exists.1 (Option.isSome_iff_ne_none.2 fun e => ?_)
      exact peek?_eq_none_iff.1 e (m.mem_of_oldest? (by simp [hv]))
    exact ⟨w, hw, by rw [← hv, hw]; rfl⟩
  · exact .inl (by rw [peek?_put_of_ne _ _ _ h, peek?_erase_of_ne _ hv])

/-- After an insertion there is nothing but what was inserted and what was there. -/
theorem of_peek?_insert {m : RecencyMap K V} {k k' : K} {v w : V}
    (h : (m.insert k v).2.peek? k' = some w) : m.peek? k' = some w ∨ k' = k ∧ v = w := by
  by_cases hk : k' = k
  · subst hk
    rw [peek?_insert_self] at h
    exact .inr ⟨rfl, Option.some.inj h⟩
  · rcases m.peek?_insert_of_ne v hk with he | ⟨w', -, hout⟩
    · exact .inl (he ▸ h)
    · rw [(of_insert_fst hout).2.2.2] at h
      cases h

/-! ## Change of a value -/

/-- A value is adjusted where it is. -/
@[simp] theorem peek?_adjust_self (m : RecencyMap K V) (k : K) (change : V → V) :
    (m.adjust k change).peek? k = (m.peek? k).map change := by
  simp [peek?, adjust, Function.comp_def]

/-- The other values stay. -/
theorem peek?_adjust_of_ne (m : RecencyMap K V) {k k' : K} (change : V → V) (h : k' ≠ k) :
    (m.adjust k change).peek? k' = m.peek? k' := by
  have hc : compare k k' ≠ .eq := fun e => h (LawfulEqOrd.eq_of_compare e).symm
  simp [peek?, adjust, TreeMap.getElem?_modify, hc]

end Multicore.RecencyMap
