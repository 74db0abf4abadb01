import Std.Data.TreeMap

/-!
# Least recently used maps

A map of bounded size that evicts the entry used longest ago. Each entry carries the stamp of
its last use, and `order` maps stamps back to keys, so the entry to evict is the one with the
least stamp.

The two maps stay inverse to each other: this is part of the type, together with the bound on
the size. `RecencyMap.keys` is the view of a map as a list of keys, least recently used first.
-/

namespace Multicore

open Std

/-- A value and the stamp of its last use. -/
structure Slot (V : Type) where
  value : V
  stamp : Nat

/-- A map of at most `capacity` entries that knows the order in which they were used. -/
structure RecencyMap (K V : Type) [Ord K] where
  capacity : Nat
  entries : TreeMap K (Slot V)
  /-- The keys by the stamp of their last use. -/
  order : TreeMap Nat K
  /-- The stamp given last. -/
  clock : Nat
  capacity_pos : 0 < capacity
  size_le : entries.size ≤ capacity
  order_of_entry : ∀ {k : K} {s : Slot V}, entries[k]? = some s → order[s.stamp]? = some k
  entry_of_order : ∀ {t : Nat} {k : K}, order[t]? = some k →
    ∃ s, entries[k]? = some s ∧ s.stamp = t
  stamp_le : ∀ {t : Nat} {k : K}, order[t]? = some k → t ≤ clock

namespace RecencyMap

variable {K V : Type} [Ord K]

/-- The number of entries. -/
def size (m : RecencyMap K V) : Nat := m.entries.size

/-- Whether the map has no entries. -/
def isEmpty (m : RecencyMap K V) : Bool := m.entries.isEmpty

/-- Whether the key has an entry. -/
def contains (m : RecencyMap K V) (k : K) : Bool := m.entries.contains k

/-- The value of a key. The order of use stays. -/
def peek? (m : RecencyMap K V) (k : K) : Option V := m.entries[k]?.map Slot.value

/-- The key used longest ago. -/
def oldest? (m : RecencyMap K V) : Option K := m.order.minKey?.bind fun t => m.order[t]?

/-- The keys, least recently used first. -/
def keys (m : RecencyMap K V) : List K := m.order.toList.map Prod.snd

/-- The entries, least recently used first. -/
def toList (m : RecencyMap K V) : List (K × V) :=
  m.keys.filterMap fun k => (m.peek? k).map fun v => (k, v)

variable [TransOrd K] [LawfulEqOrd K]

/-- The map without entries. The capacity is at least one. -/
def empty (capacity : Nat) : RecencyMap K V where
  capacity := max 1 capacity
  entries := ∅
  order := ∅
  clock := 0
  capacity_pos := by omega
  size_le := by simp
  order_of_entry h := by simp at h
  entry_of_order h := by simp at h
  stamp_le h := by simp at h

/-- The map without entries, of the same capacity. -/
def clear (m : RecencyMap K V) : RecencyMap K V :=
  { m with
    entries := ∅
    order := ∅
    size_le := by simp
    order_of_entry := fun h => by simp at h
    entry_of_order := fun h => by simp at h
    stamp_le := fun h => by simp at h }

/-! ## Erasing an entry -/

section
variable (m : RecencyMap K V)

omit [TransOrd K] [LawfulEqOrd K] in
/-- Entries with the same stamp are those of one key. -/
theorem eq_of_stamp_eq {k k' : K} {s s' : Slot V} (h : m.entries[k]? = some s)
    (h' : m.entries[k']? = some s') (e : s.stamp = s'.stamp) : k = k' := by
  have hk := m.order_of_entry h
  rw [e, m.order_of_entry h'] at hk
  exact (Option.some.inj hk).symm

/-- Without a key and its stamp, every other entry still has its stamp. -/
theorem order_of_entry_erase {k : K} {slot : Slot V} (h : m.entries[k]? = some slot) {k' : K}
    {s : Slot V} (h' : (m.entries.erase k)[k']? = some s) :
    (m.order.erase slot.stamp)[s.stamp]? = some k' := by
  rw [TreeMap.getElem?_erase] at h'
  split at h'
  · cases h'
  · next hk =>
    have hstamp : compare slot.stamp s.stamp ≠ .eq := by
      rw [ne_eq, Nat.compare_eq_eq]
      intro e
      exact hk (m.eq_of_stamp_eq h h' e ▸ ReflCmp.compare_self)
    rw [TreeMap.getElem?_erase, if_neg hstamp]
    exact m.order_of_entry h'

/-- Without a key and its stamp, every other stamp still has its entry. -/
theorem entry_of_order_erase {k : K} {slot : Slot V} (h : m.entries[k]? = some slot) {t : Nat}
    {k' : K} (h' : (m.order.erase slot.stamp)[t]? = some k') :
    ∃ s, (m.entries.erase k)[k']? = some s ∧ s.stamp = t := by
  rw [TreeMap.getElem?_erase] at h'
  split at h'
  · cases h'
  · next ht =>
    obtain ⟨s, hs, rfl⟩ := m.entry_of_order h'
    refine ⟨s, ?_, rfl⟩
    rw [TreeMap.getElem?_erase, if_neg, hs]
    intro e
    cases LawfulEqOrd.eq_of_compare e
    rw [h] at hs
    cases hs
    exact ht ReflCmp.compare_self

omit [TransOrd K] [LawfulEqOrd K] in
/-- Without a stamp, the others are still no later than the clock. -/
theorem stamp_le_of_erase {t t' : Nat} {k : K} (h : (m.order.erase t)[t']? = some k) :
    t' ≤ m.clock := by
  rw [TreeMap.getElem?_erase] at h
  split at h
  · cases h
  · exact m.stamp_le h

end

/-- The map without the key. -/
def erase (m : RecencyMap K V) (k : K) : RecencyMap K V :=
  match h : m.entries[k]? with
  | none => m
  | some slot =>
    { m with
      entries := m.entries.erase k
      order := m.order.erase slot.stamp
      size_le := Nat.le_trans TreeMap.size_erase_le m.size_le
      order_of_entry := m.order_of_entry_erase h
      entry_of_order := m.entry_of_order_erase h
      stamp_le := m.stamp_le_of_erase }

/-- A key is gone once it is erased. -/
theorem not_mem_erase (m : RecencyMap K V) (k : K) : k ∉ (m.erase k).entries := by
  unfold erase
  split
  · rename_i h
    simpa using h
  · simp

/-- Erasing a key that is present makes room for one more entry. -/
theorem size_erase_lt (m : RecencyMap K V) {k : K} (h : k ∈ m.entries) :
    (m.erase k).entries.size < (m.erase k).capacity := by
  unfold erase
  split
  · next hnone =>
    rw [TreeMap.mem_iff_isSome_getElem?, hnone] at h
    cases h
  · have hsize : (m.entries.erase k).size = m.entries.size - 1 :=
      TreeMap.size_erase.trans (if_pos h)
    have hpos : m.entries.size ≠ 0 := by
      intro e
      refine TreeMap.not_mem_of_isEmpty ?_ h
      rw [TreeMap.isEmpty_eq_size_eq_zero, e]
      rfl
    have hle := m.size_le
    show (m.entries.erase k).size < m.capacity
    omega

/-! ## Adding an entry -/

section
variable (m : RecencyMap K V)

/-- With an entry under the next stamp, every entry has its stamp. -/
theorem order_of_entry_insert {k k' : K} {v : V} {s : Slot V}
    (h : (m.entries.insert k ⟨v, m.clock + 1⟩)[k']? = some s) :
    (m.order.insert (m.clock + 1) k)[s.stamp]? = some k' := by
  rw [TreeMap.getElem?_insert] at h
  split at h
  · next e =>
    cases LawfulEqOrd.eq_of_compare e
    cases h
    exact TreeMap.getElem?_insert_self
  · have hstamp := m.order_of_entry h
    have hle := m.stamp_le hstamp
    rw [TreeMap.getElem?_insert, if_neg, hstamp]
    rw [Nat.compare_eq_eq]
    omega

/-- With an entry for a new key, every stamp has its entry. -/
theorem entry_of_order_insert {k k' : K} (v : V) (hk : k ∉ m.entries) {t : Nat}
    (h : (m.order.insert (m.clock + 1) k)[t]? = some k') :
    ∃ s, (m.entries.insert k ⟨v, m.clock + 1⟩)[k']? = some s ∧ s.stamp = t := by
  rw [TreeMap.getElem?_insert] at h
  split at h
  · next e =>
    cases h
    exact ⟨_, TreeMap.getElem?_insert_self, Nat.compare_eq_eq.1 e⟩
  · obtain ⟨s, hs, rfl⟩ := m.entry_of_order h
    refine ⟨s, ?_, rfl⟩
    rw [TreeMap.getElem?_insert, if_neg, hs]
    intro e
    cases LawfulEqOrd.eq_of_compare e
    exact hk (TreeMap.mem_iff_isSome_getElem?.2 (hs ▸ rfl))

omit [TransOrd K] [LawfulEqOrd K] in
/-- With the next stamp, no stamp is later than the clock that goes with it. -/
theorem stamp_le_of_insert {k k' : K} {t : Nat}
    (h : (m.order.insert (m.clock + 1) k)[t]? = some k') : t ≤ m.clock + 1 := by
  rw [TreeMap.getElem?_insert] at h
  split at h
  · next e => exact Nat.le_of_eq (Nat.compare_eq_eq.1 e).symm
  · exact Nat.le_succ_of_le (m.stamp_le h)

end

/-- Add an entry for a new key and mark it as used. -/
def put (m : RecencyMap K V) (k : K) (v : V) (hk : k ∉ m.entries)
    (hroom : m.entries.size < m.capacity) : RecencyMap K V :=
  { m with
    entries := m.entries.insert k ⟨v, m.clock + 1⟩
    order := m.order.insert (m.clock + 1) k
    clock := m.clock + 1
    size_le := Nat.le_trans TreeMap.size_insert_le hroom
    order_of_entry := m.order_of_entry_insert
    entry_of_order := m.entry_of_order_insert v hk
    stamp_le := m.stamp_le_of_insert }

/-! ## Use of the entries -/

omit [LawfulEqOrd K] in
/-- A map that holds as many entries as it can has an oldest key. -/
theorem isSome_oldest? (m : RecencyMap K V) (h : m.capacity ≤ m.entries.size) :
    m.oldest?.isSome := by
  have hpos := m.capacity_pos
  have hne : m.entries.isEmpty = false := by
    rw [TreeMap.isEmpty_eq_size_eq_zero, beq_eq_false_iff_ne]
    omega
  obtain ⟨k, hk⟩ := TreeMap.isEmpty_eq_false_iff_exists_mem.1 hne
  obtain ⟨s, hs⟩ := Option.isSome_iff_exists.1 (TreeMap.mem_iff_isSome_getElem?.1 hk)
  have ho := m.order_of_entry hs
  have hmem : s.stamp ∈ m.order := by simp [TreeMap.mem_iff_isSome_getElem?, ho]
  obtain ⟨t, ht⟩ := Option.isSome_iff_exists.1 (TreeMap.isSome_minKey?_of_mem hmem)
  have htm : t ∈ m.order := TreeMap.contains_minKey? ht
  obtain ⟨k', hk'⟩ := Option.isSome_iff_exists.1 (TreeMap.mem_iff_isSome_getElem?.1 htm)
  simp [oldest?, ht, hk']

omit [LawfulEqOrd K] in
/-- The oldest key has an entry. -/
theorem mem_of_oldest? (m : RecencyMap K V) {k : K} (h : m.oldest? = some k) : k ∈ m.entries := by
  obtain ⟨t, -, ht⟩ := Option.bind_eq_some_iff.1 h
  obtain ⟨s, hs, -⟩ := m.entry_of_order ht
  simp [TreeMap.mem_iff_isSome_getElem?, hs]

/-- Erasing brings in no key. -/
theorem mem_of_mem_erase (m : RecencyMap K V) {k k' : K} (h : k' ∈ (m.erase k).entries) :
    k' ∈ m.entries := by
  unfold erase at h
  split at h
  · exact h
  · exact TreeMap.mem_of_mem_erase h

omit [TransOrd K] [LawfulEqOrd K] in
/-- The map with its clock some ticks ahead. -/
def advance (m : RecencyMap K V) (ticks : Nat) : RecencyMap K V :=
  { m with
    clock := m.clock + ticks
    stamp_le := fun h => Nat.le_add_right_of_le (m.stamp_le h) }

/-- The value of a key after a change of that value, with the key marked as used. The clock advances
also for a key without an entry, and nothing else does. -/
def access (m : RecencyMap K V) (k : K) (change : V → V) : Option V × RecencyMap K V :=
  if h : k ∈ m.entries then
    let v := change m.entries[k].value
    (some v, (m.erase k).put k v (m.not_mem_erase k) (m.size_erase_lt h))
  else (none, m.advance 1)

/-- The value of a key, with the key marked as used. -/
def get (m : RecencyMap K V) (k : K) : Option V × RecencyMap K V := m.access k id

/-- Take the least recently used entry out. -/
def pop (m : RecencyMap K V) : Option (K × V) × RecencyMap K V :=
  match m.oldest? with
  | none => (none, m)
  | some k => ((m.peek? k).map fun v => (k, v), m.erase k)

/-- Give a key a value and mark it as used. A new key in a full map evicts the least recently
used entry, which is the first component of the answer. -/
def insert (m : RecencyMap K V) (k : K) (v : V) : Option (K × V) × RecencyMap K V :=
  if hk : k ∈ m.entries then
    (none, (m.erase k).put k v (m.not_mem_erase k) (m.size_erase_lt hk))
  else if hroom : m.entries.size < m.capacity then
    (none, m.put k v hk hroom)
  else
    let old := m.oldest?.get (m.isSome_oldest? (Nat.le_of_not_lt hroom))
    ((m.peek? old).map fun w => (old, w),
      (m.erase old).put k v (fun h => hk (m.mem_of_mem_erase h))
        (m.size_erase_lt (m.mem_of_oldest? (by simp [old]))))

/-! ## Changing values -/

section
variable (m : RecencyMap K V)

/-- With the value of a key changed, every entry still has its stamp. -/
theorem order_of_entry_modify {k k' : K} {change : V → V} {s : Slot V}
    (h : (m.entries.modify k fun s => ⟨change s.value, s.stamp⟩)[k']? = some s) :
    m.order[s.stamp]? = some k' := by
  rw [TreeMap.getElem?_modify] at h
  split at h
  · next e =>
    cases LawfulEqOrd.eq_of_compare e
    obtain ⟨old, hold, rfl⟩ := Option.map_eq_some_iff.1 h
    exact m.order_of_entry (s := old) hold
  · exact m.order_of_entry h

/-- With the value of a key changed, every stamp still has its entry. -/
theorem entry_of_order_modify (k : K) (change : V → V) {t : Nat} {k' : K}
    (h : m.order[t]? = some k') :
    ∃ s, (m.entries.modify k fun s => ⟨change s.value, s.stamp⟩)[k']? = some s ∧ s.stamp = t := by
  obtain ⟨s, hs, rfl⟩ := m.entry_of_order h
  rw [TreeMap.getElem?_modify]
  split
  · next e =>
    cases LawfulEqOrd.eq_of_compare e
    exact ⟨_, congrArg _ hs, rfl⟩
  · exact ⟨s, hs, rfl⟩

/-- With every value changed, every entry still has its stamp. -/
theorem order_of_entry_map {k : K} {change : V → V} {s : Slot V}
    (h : (m.entries.map fun _ s => (⟨change s.value, s.stamp⟩ : Slot V))[k]? = some s) :
    m.order[s.stamp]? = some k := by
  rw [TreeMap.getElem?_map] at h
  obtain ⟨old, hold, rfl⟩ := Option.map_eq_some_iff.1 h
  exact m.order_of_entry (s := old) hold

/-- With every value changed, every stamp still has its entry. -/
theorem entry_of_order_map (change : V → V) {t : Nat} {k : K} (h : m.order[t]? = some k) :
    ∃ s, (m.entries.map fun _ s => (⟨change s.value, s.stamp⟩ : Slot V))[k]? = some s ∧
      s.stamp = t := by
  obtain ⟨s, hs, rfl⟩ := m.entry_of_order h
  exact ⟨_, TreeMap.getElem?_map.trans (congrArg _ hs), rfl⟩

end

/-- Change the value of a key. The order of use stays. -/
def adjust (m : RecencyMap K V) (k : K) (change : V → V) : RecencyMap K V :=
  { m with
    entries := m.entries.modify k fun s => ⟨change s.value, s.stamp⟩
    size_le := by rw [TreeMap.size_modify]; exact m.size_le
    order_of_entry := m.order_of_entry_modify
    entry_of_order := m.entry_of_order_modify k change }

/-- Change every value. The order of use stays. -/
def map (m : RecencyMap K V) (change : V → V) : RecencyMap K V :=
  { m with
    entries := m.entries.map fun _ s => ⟨change s.value, s.stamp⟩
    size_le := by rw [TreeMap.size_map]; exact m.size_le
    order_of_entry := m.order_of_entry_map
    entry_of_order := m.entry_of_order_map change }

instance : Inhabited (RecencyMap K V) := ⟨empty 1⟩

end RecencyMap

end Multicore
