import Mathlib.Data.List.Nodup
import Multicore.Proofs.Cache.Recency

/-!
# The order of use in a recency map

`RecencyMap.toList` lists the entries of a map, least recently used first. Its order is that of the
stamps, so an entry that is put in comes last, one that is erased leaves the others in their order,
and a change of values moves nothing. What an operation does to the list follows from what it does
to the keys and to the values (`toList_eq`).
-/

namespace Multicore.RecencyMap

open Std

/-! ## Stamps in order -/

section
variable {K : Type} {order : TreeMap Nat K}

/-- An ordered map is listed by stamps. -/
theorem sorted_toList_order (order : TreeMap Nat K) :
    order.toList.Pairwise fun e e' => e.1 < e'.1 :=
  TreeMap.ordered_keys_toList.imp fun hlt => Nat.compare_eq_lt.1 hlt

/-- There is only one list that is sorted and has the entries of an ordered map. -/
theorem toList_order_eq {l : List (Nat × K)} (hsorted : l.Pairwise fun e e' => e.1 < e'.1)
    (h : ∀ t k, (t, k) ∈ l ↔ order[t]? = some k) : order.toList = l := by
  have hnodup : ∀ {l : List (Nat × K)}, (l.Pairwise fun e e' => e.1 < e'.1) → l.Nodup := by
    intro l hl
    refine hl.imp ?_
    rintro e _ hlt rfl
    exact Nat.lt_irrefl _ hlt
  have hordered := sorted_toList_order order
  refine List.Perm.eq_of_pairwise (fun e e' _ _ h h' => absurd h' (Nat.lt_asymm h)) hordered
    hsorted ((List.perm_ext_iff_of_nodup (hnodup hordered) (hnodup hsorted)).2 fun e => ?_)
  rw [h e.1 e.2, TreeMap.mem_toList_iff_getElem?_eq_some]

/-- A stamp above all others comes last. -/
theorem toList_order_insert {t : Nat} (h : ∀ t' k, order[t']? = some k → t' < t) (k : K) :
    (order.insert t k).toList = order.toList ++ [(t, k)] := by
  refine toList_order_eq (List.pairwise_append.2
    ⟨sorted_toList_order order, List.pairwise_singleton .., fun e he e' he' => ?_⟩) fun t' k' => ?_
  · rw [List.mem_singleton.1 he']
    exact h e.1 e.2 (TreeMap.mem_toList_iff_getElem?_eq_some.1 he)
  · rw [List.mem_append, List.mem_singleton, TreeMap.mem_toList_iff_getElem?_eq_some,
      TreeMap.getElem?_insert, Prod.mk.injEq]
    by_cases ht : t = t'
    · subst ht
      have hnone : order[t]? ≠ some k' := fun e => Nat.lt_irrefl _ (h t k' e)
      simp [hnone, eq_comm]
    · simp [ht, Ne.symm ht]

/-- Without one stamp, the others are listed as before. -/
theorem toList_order_erase (order : TreeMap Nat K) (t : Nat) :
    (order.erase t).toList = order.toList.filter fun e => e.1 ≠ t := by
  refine toList_order_eq ((sorted_toList_order order).filter _) fun t' k' => ?_
  rw [List.mem_filter, TreeMap.mem_toList_iff_getElem?_eq_some, TreeMap.getElem?_erase]
  by_cases ht : t = t'
  · simp [ht]
  · simp [ht, Ne.symm ht]

end

variable {K V : Type} [Ord K]

/-! ## Keys -/

/-- The stamp of a key is the one in its entry. -/
theorem mem_toList_order_iff (m : RecencyMap K V) {t : Nat} {k : K} :
    (t, k) ∈ m.order.toList ↔ ∃ s, m.entries[k]? = some s ∧ s.stamp = t := by
  rw [TreeMap.mem_toList_iff_getElem?_eq_some]
  constructor
  · exact m.entry_of_order
  · rintro ⟨s, hs, rfl⟩
    exact m.order_of_entry hs

/-- Every key is listed once. -/
theorem nodup_keys (m : RecencyMap K V) : m.keys.Nodup := by
  have hsorted := sorted_toList_order m.order
  refine List.pairwise_map.2 (hsorted.imp_of_mem fun {e e'} he he' hlt hk => ?_)
  obtain ⟨s, hs, ht⟩ := m.mem_toList_order_iff.1 he
  obtain ⟨s', hs', ht'⟩ := m.mem_toList_order_iff.1 he'
  rw [hk, hs'] at hs
  cases hs
  omega

/-- A list is that of a map if it has the keys in their order, each with its value. -/
theorem toList_eq {m : RecencyMap K V} {l : List (K × V)} (hkeys : m.keys = l.map Prod.fst)
    (hvalues : ∀ e ∈ l, m.peek? e.1 = some e.2) : m.toList = l := by
  rw [toList, hkeys, List.filterMap_map]
  refine (List.filterMap_congr fun e he => ?_).trans List.filterMap_some
  simp [hvalues e he]

variable [TransOrd K]

/-- The keys with their values. -/
theorem mem_toList_iff {m : RecencyMap K V} {k : K} {v : V} :
    (k, v) ∈ m.toList ↔ m.peek? k = some v := by
  simp only [toList, List.mem_filterMap, Option.map_eq_some_iff, Prod.mk.injEq]
  constructor
  · rintro ⟨k', -, v', hv, rfl, rfl⟩
    exact hv
  · intro hv
    exact ⟨k, mem_keys_iff.2 ⟨v, hv⟩, v, hv, rfl, rfl⟩

/-- The entries are listed in the order of the keys. -/
@[simp] theorem map_fst_toList (m : RecencyMap K V) : m.toList.map Prod.fst = m.keys := by
  rw [toList, List.map_filterMap]
  refine (List.filterMap_congr fun k hk => ?_).trans List.filterMap_some
  obtain ⟨v, hv⟩ := mem_keys_iff.1 hk
  simp [hv]

/-- The oldest entry is the head of the list. -/
theorem head?_toList (m : RecencyMap K V) :
    m.toList.head? = m.oldest?.bind fun k => (m.peek? k).map fun v => (k, v) := by
  rw [oldest?_eq_head?_keys, ← map_fst_toList, List.head?_map]
  rcases h : m.toList with _ | ⟨⟨k, v⟩, rest⟩
  · rfl
  · have hv : m.peek? k = some v := mem_toList_iff.1 (h ▸ List.mem_cons_self)
    simp [hv]

/-- A look-up in the list finds what a look-up in the map finds. -/
theorem lookup_toList [DecidableEq K] (m : RecencyMap K V) (k : K) :
    m.toList.lookup k = m.peek? k := by
  rcases hv : m.peek? k with _ | v
  · rw [List.lookup_eq_none_iff]
    rintro ⟨k', v⟩ he
    rw [bne_iff_ne]
    rintro rfl
    rw [mem_toList_iff.1 he] at hv
    cases hv
  · obtain ⟨l₁, l₂, hl⟩ := List.append_of_mem (mem_toList_iff.2 hv)
    refine List.lookup_eq_some_iff.2 ⟨l₁, l₂, hl, fun e he => ?_⟩
    have hnodup := m.nodup_keys
    rw [← map_fst_toList, hl, List.map_append, List.map_cons] at hnodup
    rw [bne_iff_ne]
    rintro rfl
    exact List.disjoint_of_nodup_append hnodup (List.mem_map_of_mem he) List.mem_cons_self

omit [TransOrd K] in
/-- The clock may advance without a change of the list. -/
@[simp] theorem toList_advance (m : RecencyMap K V) (ticks : Nat) :
    (m.advance ticks).toList = m.toList := rfl

variable [LawfulEqOrd K]

/-- There are as many stamps as entries. -/
theorem length_toList (m : RecencyMap K V) : m.toList.length = m.size := by
  have hnodup : m.entries.keys.Nodup := by
    refine TreeMap.distinct_keys.imp ?_
    rintro k _ hne rfl
    exact hne ReflOrd.compare_self
  rw [size, ← TreeMap.length_keys, ← List.length_map, map_fst_toList]
  refine ((List.perm_ext_iff_of_nodup m.nodup_keys hnodup).2 fun k => ?_).length_eq
  rw [mem_keys_iff, TreeMap.mem_keys, ← Decidable.not_not (p := k ∈ m.entries), ← peek?_eq_none_iff]
  exact Option.ne_none_iff_exists'.symm

/-! ## Operations -/

section
variable (m : RecencyMap K V)

/-- A key that is put in comes last. -/
theorem toList_put {k : K} (v : V) (hk : k ∉ m.entries) (hroom : m.entries.size < m.capacity) :
    (m.put k v hk hroom).toList = m.toList ++ [(k, v)] := by
  have hkeys : (m.put k v hk hroom).keys = m.keys ++ [k] := by
    have horder : (m.put k v hk hroom).order.toList = m.order.toList ++ [(m.clock + 1, k)] :=
      toList_order_insert (fun t k' h => Nat.lt_succ_of_le (m.stamp_le h)) k
    rw [keys, horder, List.map_append]
    rfl
  refine toList_eq (by simp [hkeys]) fun e he => ?_
  rcases List.mem_append.1 he with he | he
  · have hv := mem_toList_iff.1 he
    have hne : e.1 ≠ k := by
      intro e
      rw [e, peek?_eq_none_iff.2 hk] at hv
      cases hv
    rw [peek?_put_of_ne m hk hroom hne, hv]
  · cases List.mem_singleton.1 he
    exact peek?_put_self m hk hroom

/-- A value is adjusted in its place. -/
theorem toList_adjust [DecidableEq K] (k : K) (change : V → V) :
    (m.adjust k change).toList =
      m.toList.map fun e => (e.1, if e.1 = k then change e.2 else e.2) := by
  have hkeys : (m.adjust k change).keys = m.keys := rfl
  refine toList_eq ?_ fun e he => ?_
  · rw [hkeys, List.map_map, ← map_fst_toList]
    rfl
  · obtain ⟨⟨k', v⟩, hv, rfl⟩ := List.mem_map.1 he
    rw [mem_toList_iff] at hv
    by_cases hk : k' = k
    · subst hk
      simp [hv]
    · simp [hk, peek?_adjust_of_ne m change hk, hv]

/-- Values that change all at once keep their places. -/
theorem toList_map (change : V → V) :
    (m.map change).toList = m.toList.map fun e => (e.1, change e.2) := by
  have hkeys : (m.map change).keys = m.keys := rfl
  refine toList_eq ?_ fun e he => ?_
  · rw [hkeys, List.map_map, ← map_fst_toList]
    rfl
  · obtain ⟨⟨k, v⟩, hv, rfl⟩ := List.mem_map.1 he
    have hpeek : (m.map change).peek? k = (m.peek? k).map change := by
      simp [peek?, map, Function.comp_def]
    rw [hpeek, mem_toList_iff.1 hv]
    rfl

/-- Without an entry for the key, there is nothing to remove. -/
theorem erase_of_none {k : K} (h : m.entries[k]? = none) : m.erase k = m := by
  unfold erase
  split
  · rfl
  · next hslot => cases h.symm.trans hslot

/-- With its key, an entry loses its stamp. -/
theorem order_erase {k : K} {slot : Slot V} (h : m.entries[k]? = some slot) :
    (m.erase k).order = m.order.erase slot.stamp := by
  unfold erase
  split
  · next hnone => cases h.symm.trans hnone
  · next hslot =>
    cases h.symm.trans hslot
    rfl

variable [DecidableEq K]

/-- The keys after a removal are the others, in their order. -/
theorem keys_erase (k : K) : (m.erase k).keys = m.keys.filter fun k' => k' ≠ k := by
  rcases hslot : m.entries[k]? with _ | slot
  · rw [m.erase_of_none hslot, eq_comm, List.filter_eq_self]
    intro k' hk'
    obtain ⟨v, hv⟩ := mem_keys_iff.1 hk'
    rw [decide_eq_true_eq]
    rintro rfl
    rw [peek?, hslot] at hv
    cases hv
  · rw [keys, m.order_erase hslot, toList_order_erase, keys, List.filter_map]
    -- of all keys, only this one has the stamp
    refine congrArg _ (List.filter_congr fun e he => ?_)
    obtain ⟨s, hs, ht⟩ := m.mem_toList_order_iff.1 he
    rw [Function.comp_apply, decide_eq_decide, not_iff_not, ← ht]
    refine ⟨m.eq_of_stamp_eq hs hslot, fun e' => ?_⟩
    rw [e', hslot] at hs
    cases hs
    rfl

/-- A removal closes the gap. -/
theorem toList_erase (k : K) : (m.erase k).toList = m.toList.filter fun e => e.1 ≠ k := by
  refine toList_eq ?_ fun e he => ?_
  · rw [m.keys_erase, ← map_fst_toList, List.filter_map]
    rfl
  · obtain ⟨he, hne⟩ := List.mem_filter.1 he
    rw [peek?_erase_of_ne m (of_decide_eq_true hne), mem_toList_iff.1 he]

/-- A key is used, with its value changed: its entry moves to the end. -/
theorem toList_access (k : K) (change : V → V) :
    (m.access k change).2.toList = match m.peek? k with
      | none => m.toList
      | some v => (m.toList.filter fun e => e.1 ≠ k) ++ [(k, change v)] := by
  by_cases hk : k ∈ m.entries
  · have hpeek : m.peek? k = some m.entries[k].value := by
      rw [peek?, TreeMap.getElem?_eq_some_getElem hk]
      rfl
    simp only [access, hk, dite_true, hpeek, toList_put, toList_erase]
  · simp only [access, hk, dite_false, peek?_eq_none_iff.2 hk, toList_advance]

/-- Without the oldest key, the list is without its head. -/
theorem toList_erase_oldest {k : K} (h : m.oldest? = some k) :
    (m.erase k).toList = m.toList.tail := by
  have hnodup := m.nodup_keys
  rw [oldest?_eq_head?_keys] at h
  rw [toList_erase]
  rw [← map_fst_toList] at h hnodup
  rcases hl : m.toList with _ | ⟨⟨k', v⟩, rest⟩
  · rfl
  · rw [hl] at h hnodup
    cases h
    have hrest : ∀ e ∈ rest, e.1 ≠ k' := fun e he hk =>
      (List.nodup_cons.1 hnodup).1 (List.mem_map.2 ⟨e, he, hk⟩)
    rw [List.filter_cons_of_neg (by simp), List.tail_cons, List.filter_eq_self]
    exact fun e he => decide_eq_true (hrest e he)

end

end Multicore.RecencyMap
