import Multicore.Proofs.Coherence.Values

/-!
# Accesses through the data caches

Every access that succeeds takes a coherent bus to a coherent bus: a read answers the value and
changes none (`fetchHalf_of_hasHalf`), and a write changes the value that it is about
(`putHalf_of_hasHalf`). Every access that is refused leaves the lines of the caches, their order of
use and memory as they are.
-/

namespace Multicore.Bus

open Std

/-- A release of no lines changes nothing. -/
theorem same_of_covered_eq_nil {bus : Bus PagedMemory} {j : Nat} {selector : Selector}
    (h : (bus.store j).covered selector = []) (i : Nat) :
    bus.Same i (finalState (onStore j (HalfwordCache.release selector true false)) bus) := by
  have hrun : HalfwordCache.release selector true false (bus.store j, bus.memory) =
      .ok 0 (bus.store j, bus.memory) := by
    show HalfwordCache.releaseInOrder _ _ true false (bus.store j, bus.memory) = _
    rw [h]
    rfl
  rw [finalState_of_ok (onStore_of_ok hrun)]
  exact bus.same_put i j

/-- A release of no lines changes no cache, its clock included. -/
theorem store_of_covered_eq_nil {bus : Bus PagedMemory} {j : Nat} {selector : Selector}
    (h : (bus.store j).covered selector = []) (k : Nat) :
    (finalState (onStore j (HalfwordCache.release selector true false)) bus).store k =
      bus.store k :=
  (same_of_covered_eq_nil h (k + 1)).others k (Nat.ne_of_lt k.lt_succ_self)

/-- A miss at an address that no other cache has is announced in vain. -/
theorem same_announceMiss_of_absent {bus : Bus PagedMemory} {i : Nat} {a : Address}
    (he : a % 2 = 0) (hn : ∀ j ∈ bus.audience (some i), (bus.store j).line? a = none) :
    bus.Same i (bus.announceMiss i a) := by
  have hnone : ∀ j ∈ bus.audience (some i), (bus.store j).covered (.address a) = [] := by
    intro j hj
    refine List.eq_nil_iff_forall_not_mem.2 fun b hb => ?_
    obtain ⟨hc, l, hl⟩ := HalfwordCache.mem_covered_iff.1 hb
    simp only [Selector.covers, Address.halfword_of_even he, decide_eq_true_eq] at hc
    subst hc
    cases (hn j hj).symm.trans hl
  clear hn
  unfold announceMiss broadcast
  unfold audience at hnone
  generalize bus.registry.toList.filter _ = l at *
  induction l generalizing bus with
  | nil => exact .refl bus i
  | cons entry rest ih =>
    obtain ⟨number, j⟩ := entry
    have hfirst := same_of_covered_eq_nil (hnone j (by simp)) i
    refine hfirst.trans (ih fun k hk => ?_)
    refine List.eq_nil_iff_forall_not_mem.2 fun b hb => ?_
    obtain ⟨hc, l, hl⟩ := HalfwordCache.mem_covered_iff.1 hb
    rw [hfirst.line?] at hl
    have hb' := HalfwordCache.mem_covered_iff.2 ⟨hc, l, hl⟩
    rw [hnone k (List.mem_cons_of_mem _ hk)] at hb'
    cases hb'

/-! ## Insertion of a line -/

/-- An insertion puts its line in, and may make the cache release another halfword. -/
theorem insert_spec {bus : Bus PagedMemory} (h : bus.Fitted) {i : Nat}
    (hi : bus.isRegistered i = true) {s : HalfwordCache} (hs : s.lines = (bus.store i).lines)
    {a : Address} (ha : bus.memory.HasHalf a) (line : CacheLine) :
    ∃ s' m', HalfwordCache.insert a line (s, bus.memory) = .ok () (s', m') ∧
      bus.Steady (bus.put i s' m') ∧ (bus.put i s' m').Fitted ∧
      (bus.put i s' m').copies a =
        ⟨fun j => if j = i then some line else (bus.copies a).cached j, (bus.copies a).stored⟩ ∧
      ∀ b, b % 2 = 0 → b ≠ a → (bus.put i s' m').copies b = bus.copies b ∨
        (bus.put i s' m').copies b = (bus.copies b).release true true i := by
  have hline : ∀ b, s.line? b = (bus.store i).line? b := fun b => by
    rw [HalfwordCache.line?, hs]
    rfl
  have hfits : s.Fits bus.memory := fun {b l} hl => h.fits hi (hline b ▸ hl)
  obtain ⟨s', m', hrun, hshape, hfits', hself, hmem, hother⟩ :=
    HalfwordCache.insert_spec hfits ha line
  have hshape' : HalfwordCache.SameShape (bus.store i) bus.memory s' m' :=
    ⟨hshape.pageCount, hshape.allocated, hs ▸ hshape.capacity⟩
  have hspared : ∀ b, b % 2 = 0 → b ≠ a → (bus.put i s' m').copies b = bus.copies b ∨
      (bus.put i s' m').copies b = (bus.copies b).release true true i := by
    intro b hb hne
    rcases hother b hb hne with ⟨hl, hm⟩ | ⟨hl, hm⟩
    · left
      rw [copies_put bus hi, hl, hm, hline, ← cached_copies hi]
      refine Copies.ext (funext fun j => ?_) rfl
      by_cases hj : j = i <;> simp [hj]
    · right
      rw [copies_put bus hi, hl, hm, hline, ← cached_copies hi]
      refine Copies.ext (funext fun j => ?_) rfl
      by_cases hj : j = i <;> simp [hj, Copies.release, Copies.settle, Copies.drop]
  refine ⟨s', m', hrun, .put hi hshape', h.put hshape' hfits', ?_, hspared⟩
  rw [copies_put bus hi, hself, hmem]
  rfl

/-- Taking a value of memory in may make the cache release another halfword. -/
theorem fill_spec {bus : Bus PagedMemory} (h : bus.Fitted) {i : Nat}
    (hi : bus.isRegistered i = true) {a : Address} (ha : bus.memory.HasHalf a) :
    ∃ bus', onStore i (HalfwordCache.fill a (bus.memory.halfAt a.toNat)) bus = .ok () bus' ∧
      bus.Steady bus' ∧ bus'.Fitted ∧ bus'.copies a = (bus.copies a).take i ∧
      ∀ b, b % 2 = 0 → b ≠ a → bus'.copies b = bus.copies b ∨
        bus'.copies b = (bus.copies b).release true true i := by
  obtain ⟨s, m, hrun, hsteady, hfitted, hself, hother⟩ :=
    insert_spec h hi (s := { bus.store i with misses := (bus.store i).misses + 1 }) rfl ha
      ⟨false, bus.memory.halfAt a.toNat⟩
  exact ⟨bus.put i s m, onStore_of_ok hrun, hsteady, hfitted, hself, hother⟩

/-! ## Reading a halfword -/

/-- Using a line changes no value. -/
theorem Coherent.written_lookup {bus : Bus PagedMemory} (h : bus.Coherent) {i : Nat}
    (hi : bus.isRegistered i = true) (a : Address) :
    bus.Written i .none (bus.setStore i ((bus.store i).lookup a).2) := by
  have hshape : HalfwordCache.SameShape (bus.store i) bus.memory ((bus.store i).lookup a).2
      bus.memory := ⟨rfl, rfl, HalfwordCache.capacity_lookup ..⟩
  refine ⟨.put hi hshape, h.toFitted.put hshape fun {b l} hl => ?_, fun {b} _ => ?_⟩
  · rw [HalfwordCache.line?_lookup] at hl
    exact h.fits hi hl
  · have hcopies : (bus.put i ((bus.store i).lookup a).2 bus.memory).copies b = bus.copies b := by
      rw [copies_put bus hi, HalfwordCache.line?_lookup, ← cached_copies hi]
      refine Copies.ext (funext fun j => ?_) rfl
      by_cases hj : j = i <;> simp [hj]
    show (bus.copies b).Became i none ((bus.put i _ bus.memory).copies b)
    rw [hcopies]
    exact .refl (h.each b) i

/-- After a miss was announced, no cache has the halfword dirty. -/
theorem Fitted.noDirty_announceMiss {bus : Bus PagedMemory} (h : bus.Fitted) {i : Nat}
    {a : Address} (he : a % 2 = 0) (hn : (bus.copies a).cached i = none) :
    ((bus.announceMiss i a).copies a).NoDirty := by
  obtain ⟨-, -, hcopies⟩ := broadcast_spec h (some i) (.address a) true false
  have hcovers : (Selector.address a).covers a = true := by
    simp [Selector.covers, Address.halfword_of_even he]
  rw [announceMiss, hcopies a he, if_pos hcovers]
  refine Copies.noDirty_releaseAll (fun j line hj hline => ?_) false
  have hji : j = i := by
    refine Decidable.not_not.1 fun hne => hj (h.mem_audience_iff.2 ⟨?_, ?_⟩)
    · exact (cached_eq_some_iff.1 hline).1
    · intro e
      exact hne (Option.some.inj e)
  rw [hji, hn] at hline
  cases hline

/-- Looking in vain changes no line, nor the order of use. -/
theorem lookup_of_line?_eq_none {bus : Bus PagedMemory} {i : Nat} {a : Address}
    (h : (bus.store i).line? a = none) :
    ∃ bus', lookup i a bus = .ok none bus' ∧ bus.Same i bus' := by
  refine ⟨_, ?_, bus.same_advance i 1⟩
  rw [lookup, HalfwordCache.lookup_of_line?_eq_none h]
  rfl

/-- A halfword of memory is read as its value, and no value changes. -/
theorem fetchHalf_of_hasHalf {bus : Bus PagedMemory} (h : bus.Coherent) {i : Nat}
    (hi : bus.isRegistered i = true) {a : Address} (ha : bus.memory.HasHalf a) :
    ∃ bus', fetchHalf i a bus = .ok (bus.halfAt a) bus' ∧ bus.Written i .none bus' := by
  rcases hl : (bus.store i).line? a with _ | l
  · -- the other caches write the halfword back, and the cache takes it in
    obtain ⟨bus₁, hlookup, hsame⟩ := lookup_of_line?_eq_none hl
    have hcoherent₁ : bus₁.Coherent := (hsame.written h hi).coherent
    have hmiss : (bus₁.copies a).cached i = none := by
      rw [hsame.copies, cached_copies hi, hl]
    have hnoDirty := hcoherent₁.toFitted.noDirty_announceMiss ha.even hmiss
    have hwritten₂ : bus.Written i .none (bus₁.announceMiss i a) :=
      (hsame.written h hi).none_trans (hcoherent₁.written_broadcast _ _ _ i)
    have hi₂ : (bus₁.announceMiss i a).isRegistered i = true := by
      rw [hwritten₂.isRegistered, hi]
    have ha₂ : (bus₁.announceMiss i a).memory.HasHalf a :=
      hwritten₂.hasHalf_iff.2 ha
    have hvalue : (bus₁.announceMiss i a).memory.halfAt a.toNat = bus.halfAt a := by
      rw [← halfAt_of_noDirty hnoDirty, hwritten₂.halfAt ha.even]
      rfl
    rw [fetchHalf, bind_of_ok hlookup]
    dsimp only
    rw [bind_modify]
    generalize bus₁.announceMiss i a = bus₂ at *
    have hread : onMemory (PhysicalMemory.readHalf a) bus₂ = .ok (bus.halfAt a) bus₂ := by
      rw [onMemory, PagedMemory.readHalf_of_hasHalf ha₂, hvalue]
    obtain ⟨bus₃, hfill, hsteady₃, hfitted₃, hself, hother⟩ := fill_spec hwritten₂.fitted hi₂ ha₂
    rw [hvalue] at hfill
    have hwritten₃ : bus₂.Written i .none bus₃ := by
      refine ⟨hsteady₃, hfitted₃, fun {b} hb => ?_⟩
      have hb₂ := hwritten₂.coherent.each b
      by_cases hne : b = a
      · subst hne
        rw [hself]
        exact .take hb₂ hnoDirty i
      · rcases hother b hb hne with e | e
        · rw [e]
          exact .refl hb₂ i
        · rw [e]
          exact .release hb₂ i true i
    refine ⟨bus₃, ?_, hwritten₂.none_trans hwritten₃⟩
    exact (bind_of_ok hread).trans (bind_of_ok hfill)
  · have hlookup : lookup i a bus =
        .ok (some l.value) (bus.setStore i ((bus.store i).lookup a).2) := by
      rw [lookup, ← Option.map_some, ← hl, ← HalfwordCache.lookup_fst]
    have hvalue : bus.halfAt a = l.value :=
      (bus.holds_halfAt a).unique (h.each a)
        ((h.each a).holds_of_cached (cached_eq_some_iff.2 ⟨hi, hl⟩))
    refine ⟨_, ?_, h.written_lookup hi a⟩
    rw [fetchHalf, bind_of_ok hlookup, hvalue]
    rfl

/-- A halfword outside memory that no cache has is not read. -/
theorem fetchHalf_of_absent {bus : Bus PagedMemory} {i : Nat} {a : Address} (he : a % 2 = 0)
    (ha : ¬ bus.memory.HasHalf a) (hl : (bus.store i).line? a = none)
    (hn : ∀ j ∈ bus.audience (some i), (bus.store j).line? a = none) :
    ∃ bus', fetchHalf i a bus = .error (.memory (.outOfBounds a 2)) bus' ∧ bus.Same i bus' := by
  obtain ⟨bus₁, hlookup, hsame₁⟩ := lookup_of_line?_eq_none hl
  have haudience : bus₁.audience (some i) = bus.audience (some i) := by
    rw [audience, audience, hsame₁.registry]
  have hsame₂ : bus₁.Same i (bus₁.announceMiss i a) := by
    refine same_announceMiss_of_absent he fun j hj => ?_
    rw [hsame₁.line?]
    exact hn j (haudience ▸ hj)
  rw [fetchHalf, bind_of_ok hlookup]
  dsimp only
  rw [bind_modify]
  generalize bus₁.announceMiss i a = bus₂ at *
  have hread : onMemory (PhysicalMemory.readHalf a) bus₂ =
      .error (.memory (.outOfBounds a 2)) bus₂ := by
    rw [onMemory, PagedMemory.readHalf_of_not_hasHalf he (by rwa [hsame₂.memory, hsame₁.memory])]
    rfl
  exact ⟨bus₂, bind_of_error hread, hsame₁.trans hsame₂⟩

/-- A halfword outside memory is not read. -/
theorem fetchHalf_of_not_hasHalf {bus : Bus PagedMemory} (h : bus.Fitted) {i : Nat}
    (hi : bus.isRegistered i = true) {a : Address} (he : a % 2 = 0)
    (ha : ¬ bus.memory.HasHalf a) :
    ∃ bus', fetchHalf i a bus = .error (.memory (.outOfBounds a 2)) bus' ∧ bus.Same i bus' := by
  have hnone : ∀ j, bus.isRegistered j = true → (bus.store j).line? a = none := fun j hj =>
    Option.eq_none_iff_forall_ne_some.2 fun l hl => ha (h.fits hj hl)
  exact fetchHalf_of_absent he ha (hnone i hi) fun j hj => hnone j (h.mem_audience_iff.1 hj).1

/-! ## Writing a halfword -/

/-- A line that is written makes its cache the only one with the halfword. -/
theorem store_spec {bus : Bus PagedMemory} (h : bus.Fitted) {i : Nat}
    (hi : bus.isRegistered i = true) {a : Address} {l : CacheLine}
    (hl : (bus.store i).line? a = some l)
    (hother : ∀ b, b % 2 = 0 → b ≠ a → (bus.copies b).Coherent) (v : UInt16) :
    ∃ bus', onStore i (HalfwordCache.store a v) bus = .ok () bus' ∧
      bus.Written i (.single a v) (bus'.announceWrite i a) := by
  obtain ⟨s, hrun, hcap, hself, hrest⟩ :=
    HalfwordCache.insert_of_line? hl bus.memory ⟨true, v⟩
  have he : a % 2 = 0 := (h.fits hi hl).even
  have hsteady : bus.Steady (bus.put i s bus.memory) := .put hi ⟨rfl, rfl, hcap⟩
  have hfitted : (bus.put i s bus.memory).Fitted := by
    refine h.put ⟨rfl, rfl, hcap⟩ fun {b l'} hb => ?_
    by_cases hne : b = a
    · exact hne ▸ h.fits hi hl
    · exact h.fits hi (hrest b hne ▸ hb)
  obtain ⟨hsteady', hfitted', hcopies⟩ :=
    broadcast_spec hfitted (some i) (.address a) false true
  refine ⟨bus.put i s bus.memory, onStore_of_ok hrun, hsteady.trans hsteady', hfitted',
    fun {b} hb => ?_⟩
  rw [announceWrite, hcopies b hb, copies_put bus hi]
  by_cases hne : b = a
  · subst hne
    have hcovers : (Selector.address b).covers b = true := by
      simp [Selector.covers, Address.halfword_of_even he]
    have hpatch : Patch.single b v b = some v := if_pos rfl
    rw [if_pos hcovers, hpatch]
    refine .of_sole ?_ (fun j hj => ?_) _
    · have hni : i ∉ (bus.put i s bus.memory).audience (some i) :=
        fun hm => (hfitted.mem_audience_iff.1 hm).2 rfl
      rw [Copies.cached_releaseAll, if_neg hni]
      simp [hself]
    · rw [Copies.cached_releaseAll]
      split
      · rfl
      · next hn =>
        -- a cache that does not hear the broadcast takes no part
        have hnone : bus.isRegistered j ≠ true := fun hr =>
          hn (hfitted.mem_audience_iff.2 ⟨hr, fun e => hj (Option.some.inj e)⟩)
        simp [copies, hj, hnone]
  · have hcovers : (Selector.address a).covers b ≠ true := by
      simpa [Selector.covers, Address.halfword_of_even he] using Ne.symm hne
    have hpatch : Patch.single a v b = none := if_neg hne
    have hcopies' : bus.copies b =
        ⟨fun j => if j = i then s.line? b else (bus.copies b).cached j, (bus.copies b).stored⟩ := by
      rw [hrest b hne, ← cached_copies hi]
      refine Copies.ext (funext fun j => ?_) rfl
      by_cases hj : j = i <;> simp [hj]
    rw [if_neg hcovers, hpatch]
    exact hcopies' ▸ .refl (hother b hb hne) i

/-- Writing a halfword of memory gives it its value and changes no other. A halfword that is not
cached is first taken in from memory, whatever the other caches know of it. -/
theorem putHalf_of_hasHalf {bus : Bus PagedMemory} (h : bus.Coherent) {i : Nat}
    (hi : bus.isRegistered i = true) {a : Address} (ha : bus.memory.HasHalf a) (v : UInt16) :
    ∃ bus', putHalf i a v bus = .ok () bus' ∧ bus.Written i (.single a v) bus' := by
  -- on a miss the line is first taken in clean, so that the store finds one in either case
  rcases hc : (bus.store i).contains a with _ | _
  · have hread : onMemory (PhysicalMemory.readHalf a) bus =
        .ok (bus.memory.halfAt a.toNat) bus := by
      rw [onMemory, PagedMemory.readHalf_of_hasHalf ha]
    obtain ⟨bus₁, hfill, hsteady₁, hfitted₁, hself, hother⟩ := fill_spec h.toFitted hi ha
    have hi₁ : bus₁.isRegistered i = true := by rw [hsteady₁.isRegistered, hi]
    have hl₁ : (bus₁.store i).line? a = some ⟨false, (bus.copies a).stored⟩ := by
      rw [← cached_copies hi₁, hself]
      exact if_pos rfl
    have heach₁ : ∀ b, b % 2 = 0 → b ≠ a → (bus.copies b).Became i none (bus₁.copies b) := by
      intro b hb hne
      rcases hother b hb hne with e | e
      · rw [e]
        exact .refl (h.each b) i
      · rw [e]
        exact .release (h.each b) i true i
    obtain ⟨bus₂, hstore, hwritten₂⟩ := store_spec hfitted₁ hi₁ hl₁
      (fun b hb hne => (heach₁ b hb hne).coherent) v
    refine ⟨bus₂.announceWrite i a, ?_, hsteady₁.trans hwritten₂.steady, hwritten₂.fitted,
      fun {b} hb => ?_⟩
    · rw [putHalf, bind_get, hc]
      refine (bind_of_ok hread).trans ((bind_of_ok hfill).trans ?_)
      exact bind_of_ok hstore
    · by_cases hne : b = a
      · subst hne
        have hpatch : Patch.single b v b = some v := if_pos rfl
        have hnew := hwritten₂.each hb
        have hvalue := bus₁.holds_halfAt b
        rw [hpatch, hself] at hnew
        rw [hself] at hvalue
        rw [hpatch]
        exact hnew.of_take hvalue
      · have hpatch : Patch.single a v b = none := if_neg hne
        have hnew := hwritten₂.each hb
        rw [hpatch] at hnew ⊢
        exact (heach₁ b hb hne).trans hnew
  · obtain ⟨l, hl⟩ := HalfwordCache.contains_iff.1 hc
    obtain ⟨bus₁, hstore, hwritten⟩ := store_spec h.toFitted hi hl (fun b _ _ => h.each b) v
    refine ⟨bus₁.announceWrite i a, ?_, hwritten⟩
    rw [putHalf, bind_get, hc]
    exact bind_of_ok hstore

/-- A halfword outside memory that the cache does not have is not written. -/
theorem putHalf_of_absent {bus : Bus PagedMemory} {i : Nat} {a : Address} (he : a % 2 = 0)
    (ha : ¬ bus.memory.HasHalf a) (hl : (bus.store i).line? a = none) (v : UInt16) :
    putHalf i a v bus = .error (.memory (.outOfBounds a 2)) bus := by
  have hc : (bus.store i).contains a = false := by
    rw [← Bool.not_eq_true, HalfwordCache.contains_iff]
    rintro ⟨l, hsome⟩
    cases hl.symm.trans hsome
  have hread : onMemory (PhysicalMemory.readHalf a) bus =
      .error (.memory (.outOfBounds a 2)) bus := by
    rw [onMemory, PagedMemory.readHalf_of_not_hasHalf he ha]
    rfl
  rw [putHalf, bind_get, hc]
  exact bind_of_error hread

/-- A halfword outside memory is not written. -/
theorem putHalf_of_not_hasHalf {bus : Bus PagedMemory} (h : bus.Fitted) {i : Nat}
    (hi : bus.isRegistered i = true) {a : Address} (he : a % 2 = 0)
    (ha : ¬ bus.memory.HasHalf a) (v : UInt16) :
    putHalf i a v bus = .error (.memory (.outOfBounds a 2)) bus :=
  putHalf_of_absent he ha (Option.eq_none_iff_forall_ne_some.2 fun _ hl => ha (h.fits hi hl)) v

end Multicore.Bus
