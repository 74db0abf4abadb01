import Multicore.Proofs.Cache.UseOrder

/-!
# Recency maps as lists

A `RecencyList` is the plain account of a recency map: its entries in a list, least recently used
first. Every operation on a map answers as the operation on its list does, and leaves the map of
the list that this one leaves (`performList_asList`). So a sequence of operations on a map is the
same sequence on a list, and the two maps within stay inverse to each other
(`operations_refine_list`).
-/

namespace Multicore

open Std

/-- Entries in the order of their last use, oldest first, at most `capacity` of them. -/
structure RecencyList (K V : Type) where
  capacity : Nat
  entries : List (K × V)

namespace RecencyList

variable {K V : Type} [DecidableEq K]

/-- The value of a key. -/
def peek? (l : RecencyList K V) (k : K) : Option V := l.entries.lookup k

/-- The entries of the other keys. -/
def others (l : RecencyList K V) (k : K) : List (K × V) := l.entries.filter fun e => e.1 ≠ k

/-- The value of a key after a change of that value, with the entry moved to the end. -/
def access (l : RecencyList K V) (k : K) (change : V → V) : Option V × RecencyList K V :=
  match l.peek? k with
  | none => (none, l)
  | some v => (some (change v), { l with entries := l.others k ++ [(k, change v)] })

/-- Give a key a value at the end of the list. Only a new key in a full list evicts, and what it
evicts is the head. -/
def insert (l : RecencyList K V) (k : K) (v : V) : Option (K × V) × RecencyList K V :=
  if (l.peek? k).isSome then (none, { l with entries := l.others k ++ [(k, v)] })
  else if l.entries.length < l.capacity then (none, { l with entries := l.entries ++ [(k, v)] })
  else (l.entries.head?, { l with entries := l.entries.tail ++ [(k, v)] })

end RecencyList

namespace RecencyMap

variable {K V : Type} [Ord K]

/-- The list of a map. -/
def asList (m : RecencyMap K V) : RecencyList K V := ⟨m.capacity, m.toList⟩

/-! ## Operations -/

/-- What may be done with a recency map. -/
inductive Operation (K V : Type) where
  | insert (k : K) (v : V)
  | get (k : K)
  /-- Look up a key and change its value. -/
  | modify (k : K) (change : V → V)
  | peek (k : K)
  | contains (k : K)
  | remove (k : K)
  | pop
  /-- Change the value of one key in a pass over the entries. -/
  | adjust (k : K) (change : V → V)
  /-- Change every value in a pass over the entries. -/
  | map (change : V → V)
  | clear

/-- What an operation answers. -/
inductive Answer (K V : Type) where
  | done
  | flag (b : Bool)
  | value (v : Option V)
  | entry (e : Option (K × V))

namespace Operation

/-- An operation on a map. -/
def perform [TransOrd K] [LawfulEqOrd K] (m : RecencyMap K V) :
    Operation K V → Answer K V × RecencyMap K V
  | .insert k v => let (old, m) := m.insert k v; (.entry old, m)
  | .get k => let (v, m) := m.get k; (.value v, m)
  | .modify k change => let (v, m) := m.access k change; (.value v, m)
  | .peek k => (.value (m.peek? k), m)
  | .contains k => (.flag (m.contains k), m)
  | .remove k => (.value (m.peek? k), m.erase k)
  | .pop => let (old, m) := m.pop; (.entry old, m)
  | .adjust k change => (.done, m.adjust k change)
  | .map change => (.done, m.map change)
  | .clear => (.done, m.clear)

/-- The same operation on a list. -/
def performList [DecidableEq K] (l : RecencyList K V) :
    Operation K V → Answer K V × RecencyList K V
  | .insert k v => let (old, l) := l.insert k v; (.entry old, l)
  | .get k => let (v, l) := l.access k id; (.value v, l)
  | .modify k change => let (v, l) := l.access k change; (.value v, l)
  | .peek k => (.value (l.peek? k), l)
  | .contains k => (.flag (l.peek? k).isSome, l)
  | .remove k => (.value (l.peek? k), { l with entries := l.others k })
  | .pop => (.entry l.entries.head?, { l with entries := l.entries.tail })
  | .adjust k change =>
    (.done, { l with entries := l.entries.map fun e => (e.1, if e.1 = k then change e.2 else e.2) })
  | .map change => (.done, { l with entries := l.entries.map fun e => (e.1, change e.2) })
  | .clear => (.done, { l with entries := [] })

/-- The answers to a sequence of operations, and where it ends. -/
def run {σ : Type} (step : σ → Operation K V → Answer K V × σ) (s : σ) :
    List (Operation K V) → List (Answer K V) × σ
  | [] => ([], s)
  | op :: rest =>
    let (answer, s) := step s op
    let (answers, s) := run step s rest
    (answer :: answers, s)

end Operation

/-! ## Refinement -/

section
variable [TransOrd K] [LawfulEqOrd K] (m : RecencyMap K V)

variable [DecidableEq K]

omit [LawfulEqOrd K] in
/-- The list has the entries that the map has. -/
@[simp] theorem peek?_asList (k : K) : m.asList.peek? k = m.peek? k := m.lookup_toList k

/-- A removal from the map is one from the list. -/
theorem asList_erase (k : K) :
    (m.erase k).asList = { m.asList with entries := m.asList.others k } := by
  rw [asList, capacity_erase, toList_erase]
  rfl

/-- The list of a map evicts what the map evicts. -/
theorem insert_asList (k : K) (v : V) :
    m.asList.insert k v = ((m.insert k v).1, (m.insert k v).2.asList) := by
  have hlength : m.toList.length = m.entries.size := m.length_toList
  rw [RecencyList.insert, peek?_asList]
  simp only [asList, hlength]
  by_cases hk : k ∈ m.entries
  · have hpeek : (m.peek? k).isSome = true := by
      rw [← contains_eq_isSome_peek?]
      exact hk
    rw [if_pos hpeek, insert, dif_pos hk, toList_put, toList_erase, ← capacity_erase m k]
    rfl
  · rw [peek?_eq_none_iff.2 hk, Option.isSome_none, if_neg Bool.false_ne_true, insert, dif_neg hk]
    by_cases hroom : m.entries.size < m.capacity
    · rw [if_pos hroom, dif_pos hroom, toList_put]
      rfl
    · obtain ⟨old, hold⟩ := Option.isSome_iff_exists.1 (m.isSome_oldest? (Nat.le_of_not_lt hroom))
      have hhead : m.toList.head? = (m.peek? old).map fun w => (old, w) := by
        rw [head?_toList, hold, Option.bind_some]
      rw [if_neg hroom, dif_neg hroom]
      simp only [hold, Option.get_some]
      rw [hhead, toList_put, toList_erase_oldest m hold, ← capacity_erase m old]
      rfl

/-- An access moves the entry to the end of the list, as it does in the map, and a miss changes
nothing there. -/
theorem access_asList (k : K) (change : V → V) :
    m.asList.access k change = ((m.access k change).1, (m.access k change).2.asList) := by
  rw [access_fst, RecencyList.access, peek?_asList, asList, asList, capacity_access, toList_access]
  rcases m.peek? k with _ | v
  · rfl
  · rfl

/-- The oldest entry is the head of the list. -/
theorem pop_asList :
    (m.asList.entries.head?, { m.asList with entries := m.asList.entries.tail }) =
      (m.pop.1, m.pop.2.asList) := by
  unfold pop
  rcases hold : m.oldest? with _ | k
  · have hnil : m.toList = [] := by
      rw [← List.head?_eq_none_iff, head?_toList, hold]
      rfl
    rw [asList, hnil]
    rfl
  · dsimp only
    rw [asList, head?_toList, hold, Option.bind_some, asList, toList_erase_oldest m hold,
      capacity_erase]

/-- An operation on the list of a map answers as the one on the map, and leaves its list. -/
theorem performList_asList (op : Operation K V) :
    op.performList m.asList = ((op.perform m).1, (op.perform m).2.asList) := by
  cases op with
  | insert k v => simp only [Operation.performList, Operation.perform, insert_asList]
  | get k => simp only [Operation.performList, Operation.perform, get, access_asList]
  | modify k change => simp only [Operation.performList, Operation.perform, access_asList]
  | peek k => simp only [Operation.performList, Operation.perform, peek?_asList]
  | contains k =>
    simp only [Operation.performList, Operation.perform, peek?_asList, contains_eq_isSome_peek?]
  | remove k => simp only [Operation.performList, Operation.perform, peek?_asList, asList_erase]
  | pop =>
    have h := m.pop_asList
    simp only [Operation.performList, Operation.perform, Prod.mk.injEq] at h ⊢
    rw [h.1, h.2]
    exact ⟨rfl, rfl⟩
  | adjust k change =>
    simp only [Operation.performList, Operation.perform]
    rw [asList, asList, toList_adjust]
    rfl
  | map change =>
    simp only [Operation.performList, Operation.perform]
    rw [asList, asList, toList_map]
    rfl
  | clear => rfl

/-- A sequence of operations on the list of a map answers as the one on the map, and leaves its
list. -/
theorem run_asList (ops : List (Operation K V)) :
    Operation.run Operation.performList m.asList ops =
      ((Operation.run Operation.perform m ops).1,
        (Operation.run Operation.perform m ops).2.asList) := by
  induction ops generalizing m with
  | nil => rfl
  | cons op rest ih =>
    simp only [Operation.run, performList_asList, ih]

end

/-- The stamps and the entries are inverse to each other, and the stamps of different keys are
different and no later than the clock. -/
structure Inverse (m : RecencyMap K V) : Prop where
  stamped : ∀ (t : Nat) (k : K),
    m.order[t]? = some k ↔ ∃ s : Slot V, m.entries[k]? = some s ∧ s.stamp = t
  distinct : ∀ (k k' : K) (s s' : Slot V), m.entries[k]? = some s → m.entries[k']? = some s' →
    s.stamp = s'.stamp → k = k'
  bounded : ∀ (k : K) (s : Slot V), m.entries[k]? = some s → s.stamp ≤ m.clock

/-- By stamp and by key, the map finds the same entries. -/
theorem inverse (m : RecencyMap K V) : m.Inverse where
  stamped t k := by
    rw [← TreeMap.mem_toList_iff_getElem?_eq_some, mem_toList_order_iff]
  distinct _ _ _ _ := m.eq_of_stamp_eq
  bounded k s h := m.stamp_le (m.order_of_entry h)

section
variable [TransOrd K] [LawfulEqOrd K]

/-- A removal leaves the clock. -/
@[simp] theorem clock_erase (m : RecencyMap K V) (k : K) : (m.erase k).clock = m.clock := by
  unfold erase
  split <;> rfl

/-- An insertion takes one stamp, whether the key was there or not. -/
@[simp] theorem clock_insert (m : RecencyMap K V) (k : K) (v : V) :
    (m.insert k v).2.clock = m.clock + 1 := by
  unfold insert
  split
  · simp [put]
  · split <;> simp [put]

/-- Using a key lets the clock advance, whether or not there is an entry. -/
@[simp] theorem clock_access (m : RecencyMap K V) (k : K) (change : V → V) :
    (m.access k change).2.clock = m.clock + 1 := by
  unfold access
  split
  · simp [put]
  · rfl

/-- An operation lets the clock advance by one at most, and keeps the capacity. -/
theorem clock_perform_le (m : RecencyMap K V) (op : Operation K V) :
    (op.perform m).2.clock ≤ m.clock + 1 ∧ (op.perform m).2.capacity = m.capacity := by
  cases op with
  | insert k v => exact ⟨Nat.le_of_eq (clock_insert m k v), capacity_insert m k v⟩
  | get k => exact ⟨Nat.le_of_eq (clock_access m k id), capacity_access m k id⟩
  | modify k change => exact ⟨Nat.le_of_eq (clock_access m k change), capacity_access m k change⟩
  | remove k => exact ⟨by simp [Operation.perform], capacity_erase m k⟩
  | pop =>
    show m.pop.2.clock ≤ m.clock + 1 ∧ m.pop.2.capacity = m.capacity
    unfold pop
    split <;> simp
  | peek k => exact ⟨Nat.le_succ _, rfl⟩
  | contains k => exact ⟨Nat.le_succ _, rfl⟩
  | adjust k change => exact ⟨Nat.le_succ _, rfl⟩
  | map change => exact ⟨Nat.le_succ _, rfl⟩
  | clear => exact ⟨Nat.le_succ _, rfl⟩

/-- A run takes one stamp for an operation at most, and leaves the capacity. -/
theorem clock_run_le (m : RecencyMap K V) (ops : List (Operation K V)) :
    (Operation.run Operation.perform m ops).2.clock ≤ m.clock + ops.length ∧
      (Operation.run Operation.perform m ops).2.capacity = m.capacity := by
  induction ops generalizing m with
  | nil => exact ⟨Nat.le_refl _, rfl⟩
  | cons op rest ih =>
    obtain ⟨hclock, hcapacity⟩ := clock_perform_le m op
    obtain ⟨hclock', hcapacity'⟩ := ih (op.perform m).2
    simp only [Operation.run, List.length_cons]
    exact ⟨by omega, hcapacity'.trans hcapacity⟩

/-- From an empty map on, a sequence of operations answers as on an empty list of the same capacity,
which is at least one, and the map has the entries of the list, in their order; a look-up that finds
nothing leaves the list alone, though the clock advances. The stamps and the entries of the map stay
inverse to each other, and no clock runs for longer than the sequence. -/
theorem operations_refine_list [DecidableEq K] (capacity : Nat) (ops : List (Operation K V)) :
    let start : RecencyMap K V := empty capacity
    let answers := (Operation.run Operation.perform start ops).1
    let m := (Operation.run Operation.perform start ops).2
    Operation.run Operation.performList ⟨max 1 capacity, []⟩ ops =
        (answers, ⟨max 1 capacity, m.toList⟩) ∧
      m.keys = m.toList.map Prod.fst ∧ m.oldest? = m.keys.head? ∧ m.size = m.keys.length ∧
      (∀ k, m.peek? k = m.toList.lookup k) ∧ m.Inverse ∧ m.clock ≤ ops.length := by
  intro start answers m
  obtain ⟨hclock, hcapacity⟩ := clock_run_le start ops
  have hrun := run_asList start ops
  refine ⟨?_, m.map_fst_toList.symm, m.oldest?_eq_head?_keys, ?_, fun k => (m.lookup_toList k).symm,
    m.inverse, ?_⟩
  · rw [asList, asList, hcapacity] at hrun
    exact hrun
  · rw [← length_toList, ← map_fst_toList, List.length_map]
  · exact Nat.le_trans hclock (Nat.le_of_eq (Nat.zero_add _))

end

/-- In a map with room for two keys the first is looked up again, so that a third key evicts the
second. -/
theorem operations_refine_list_of_full_map :
    let ops : List (Operation Nat Nat) := [.insert 1 10, .insert 2 20, .get 1, .insert 3 30]
    let start : RecencyMap Nat Nat := empty 2
    let m := (Operation.run Operation.perform start ops).2
    (Operation.run Operation.perform start ops).1 =
        [.entry none, .entry none, .value (some 10), .entry (some (2, 20))] ∧
      m.toList = [(1, 10), (3, 30)] ∧ m.keys = [1, 3] ∧ m.oldest? = some 1 ∧ m.Inverse := by
  intro ops start m
  obtain ⟨hrun, hkeys, holdest, -, -, hinverse, -⟩ := operations_refine_list 2 ops
  have hlist : Operation.run Operation.performList ⟨2, []⟩ ops =
      ([.entry none, .entry none, .value (some 10), .entry (some (2, 20))],
        ⟨2, [(1, 10), (3, 30)]⟩) := rfl
  obtain ⟨hanswers, hend⟩ := Prod.mk.inj (hrun.symm.trans hlist)
  obtain ⟨-, hentries⟩ := RecencyList.mk.inj hend
  rw [hentries] at hkeys
  rw [hkeys] at holdest
  exact ⟨hanswers, hentries, hkeys, holdest, hinverse⟩

end RecencyMap

end Multicore
