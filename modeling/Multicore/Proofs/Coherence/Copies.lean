import Multicore.Proofs.Cache.Lines

/-!
# The copies of one halfword

Coherence is a matter of each halfword on its own. `Copies` is what the data caches and memory
know of one halfword: the line of each cache and the value in memory. The copies are `Coherent`
if clean lines agree with memory and a dirty line is the only one, and then they determine one
value (`Holds.unique`): that of the dirty line if there is one, else that of memory.

The operations are those of the bus seen from one address. A cache may write its line back
(`settle`), drop it (`drop`), take the value of memory in (`take`), or do the first two for
all the caches that hear a broadcast (`releaseAll`). Writing back keeps the value; dropping
keeps it if nothing dirty is dropped.
-/

namespace Multicore

/-- What is known of a halfword: the line of each data cache and the value in memory. -/
@[ext] structure Copies where
  cached : Nat → Option CacheLine
  stored : UInt16

namespace Copies

/-- Clean lines agree with memory, and a dirty line is the only line. -/
structure Coherent (c : Copies) : Prop where
  clean : ∀ {i l}, c.cached i = some l → l.dirty = false → l.value = c.stored
  alone : ∀ {i j l l'}, c.cached i = some l → l.dirty = true → c.cached j = some l' → j = i

/-- No line is dirty. -/
def NoDirty (c : Copies) : Prop := ∀ ⦃i l⦄, c.cached i = some l → l.dirty = false

/-- The value of the halfword: that of a dirty line, or of memory if no line is dirty. -/
inductive Holds (c : Copies) (v : UInt16) : Prop
  | dirty (i : Nat) (h : c.cached i = some ⟨true, v⟩)
  | clean (h : c.NoDirty) (hs : c.stored = v)

/-- Cache `i` writes its line back and keeps it. -/
def settle (c : Copies) (i : Nat) : Copies where
  cached j := if j = i then (c.cached i).map CacheLine.clean else c.cached j
  stored := CacheLine.writtenOver (c.cached i) c.stored

/-- Cache `i` drops its line. -/
def drop (c : Copies) (i : Nat) : Copies where
  cached j := if j = i then none else c.cached j
  stored := c.stored

/-- Cache `i` takes the value of memory in. -/
def take (c : Copies) (i : Nat) : Copies where
  cached j := if j = i then some ⟨false, c.stored⟩ else c.cached j
  stored := c.stored

/-- Cache `i` writes its line back, drops it, or both. -/
def release (writeback remove : Bool) (c : Copies) (i : Nat) : Copies :=
  let c := if writeback then c.settle i else c
  if remove then c.drop i else c

/-- The caches of a list release their lines. -/
def releaseAll (writeback remove : Bool) (c : Copies) (l : List Nat) : Copies :=
  l.foldl (release writeback remove) c

/-! ## One value -/

/-- Every line of coherent copies has the value of the halfword. -/
theorem Coherent.holds_of_cached {c : Copies} (h : c.Coherent) {i : Nat} {l : CacheLine}
    (hl : c.cached i = some l) : c.Holds l.value := by
  rcases hd : l.dirty with _ | _
  · refine .clean (fun j l' hj => ?_) (h.clean hl hd).symm
    rcases hd' : l'.dirty with _ | _
    · rfl
    · cases h.alone hj hd' hl
      rw [hl] at hj
      cases hj
      rw [hd] at hd'
      cases hd'
  · exact .dirty i (by rw [hl, ← hd])

/-- Coherent copies have one value. -/
theorem Holds.unique {c : Copies} (hc : c.Coherent) {v w : UInt16} (hv : c.Holds v)
    (hw : c.Holds w) : v = w := by
  cases hv with
  | dirty i hi =>
    cases hw with
    | dirty j hj =>
      cases hc.alone hi rfl hj
      rw [hi] at hj
      cases hj
      rfl
    | clean hn => exact absurd (hn hi) (by simp)
  | clean hn hs =>
    cases hw with
    | dirty j hj => exact absurd (hn hj) (by simp)
    | clean _ hs' => exact hs.symm.trans hs'

/-! ## Writing back -/

/-- Coherent copies stay so when a line is written back: if it is dirty, it is the only one. -/
theorem Coherent.settle {c : Copies} (h : c.Coherent) (i : Nat) : (c.settle i).Coherent := by
  refine ⟨fun {j l} hj hd => ?_, fun {j k l l'} hj hd hk => ?_⟩
  · simp only [Copies.settle] at hj ⊢
    split at hj
    · obtain ⟨⟨d, v⟩, hi, rfl⟩ := Option.map_eq_some_iff.1 hj
      rw [hi]
      cases d
      · exact h.clean hi rfl
      · rfl
    · next hne =>
      -- the line of another cache is clean, so the line of `i` cannot be dirty
      rcases hi : c.cached i with _ | ⟨_ | _, v⟩
      · exact h.clean hj hd
      · exact h.clean hj hd
      · exact absurd (h.alone hi rfl hj) hne
  · simp only [Copies.settle] at hj hk
    split at hj
    · obtain ⟨l₀, -, rfl⟩ := Option.map_eq_some_iff.1 hj
      cases hd
    · next hne =>
      split at hk
      · next he =>
        obtain ⟨l₀, hi, -⟩ := Option.map_eq_some_iff.1 hk
        exact he ▸ h.alone hj hd hi
      · exact h.alone hj hd hk

/-- A write-back leaves the value of the halfword. -/
theorem Holds.settle {c : Copies} {v : UInt16} (hc : c.Coherent) (h : c.Holds v) (i : Nat) :
    (c.settle i).Holds v := by
  rcases hi : c.cached i with _ | ⟨_ | _, w⟩
  · have he : c.settle i = c := by
      simp only [Copies.settle, hi]
      congr
      funext j
      split
      · next e => rw [e, hi]; rfl
      · rfl
    rwa [he]
  · have he : c.settle i = c := by
      simp only [Copies.settle, hi]
      congr
      funext j
      split
      · next e => rw [e, hi]; rfl
      · rfl
    rwa [he]
  · cases h.unique hc (hc.holds_of_cached hi)
    refine .clean (fun j l hj => ?_) (by simp only [Copies.settle, hi]; rfl)
    simp only [Copies.settle, hi] at hj
    split at hj
    · cases hj; rfl
    · next hne =>
      exact absurd (hc.alone hi rfl hj) hne

/-! ## Dropping -/

/-- Coherent copies stay so when a line is dropped. -/
theorem Coherent.drop {c : Copies} (h : c.Coherent) (i : Nat) : (c.drop i).Coherent := by
  refine ⟨fun {j l} hj hd => ?_, fun {j k l l'} hj hd hk => ?_⟩
  · simp only [Copies.drop] at hj
    split at hj
    · cases hj
    · exact h.clean hj hd
  · simp only [Copies.drop] at hj hk
    split at hj
    · cases hj
    · split at hk
      · cases hk
      · exact h.alone hj hd hk

/-- To drop a line makes none dirty. -/
theorem NoDirty.drop {c : Copies} (h : c.NoDirty) (i : Nat) : (c.drop i).NoDirty := by
  intro j l hj
  simp only [Copies.drop] at hj
  split at hj
  · cases hj
  · exact h hj

/-- Dropping a line that is not dirty keeps the value. -/
theorem Holds.drop {c : Copies} {v : UInt16} (h : c.Holds v) {i : Nat}
    (hi : ∀ {l}, c.cached i = some l → l.dirty = false) : (c.drop i).Holds v := by
  cases h with
  | dirty j hj =>
    have hne : j ≠ i := by
      rintro rfl
      exact absurd (hi hj) (by simp)
    exact .dirty j (by simpa [Copies.drop, hne] using hj)
  | clean hn hs =>
    refine .clean (fun j l hj => ?_) hs
    simp only [Copies.drop] at hj
    split at hj
    · cases hj
    · exact hn hj

/-- Coherent copies stay so when a cache releases its line. -/
theorem Coherent.release {c : Copies} (h : c.Coherent) (writeback remove : Bool) (i : Nat) :
    (c.release writeback remove i).Coherent := by
  cases writeback <;> cases remove
  · exact h
  · exact h.drop i
  · exact h.settle i
  · exact (h.settle i).drop i

/-- A release that writes back keeps the value. -/
theorem Holds.release {c : Copies} {v : UInt16} (hc : c.Coherent) (h : c.Holds v) (remove : Bool)
    (i : Nat) : (c.release true remove i).Holds v := by
  cases remove
  · exact h.settle hc i
  · refine (h.settle hc i).drop fun {l} hl => ?_
    simp only [Copies.settle, if_true] at hl
    obtain ⟨l₀, -, rfl⟩ := Option.map_eq_some_iff.1 hl
    rfl

/-! ## Broadcasts -/

/-- Coherent copies stay so when any caches do, by induction on the list. -/
theorem Coherent.releaseAll {c : Copies} (h : c.Coherent) (writeback remove : Bool)
    (l : List Nat) : (c.releaseAll writeback remove l).Coherent := by
  induction l generalizing c with
  | nil => exact h
  | cons i rest ih => exact ih (h.release writeback remove i)

/-- A broadcast that writes back keeps the value. -/
theorem Holds.releaseAll {c : Copies} {v : UInt16} (hc : c.Coherent) (h : c.Holds v)
    (remove : Bool) (l : List Nat) : (c.releaseAll true remove l).Holds v := by
  induction l generalizing c with
  | nil => exact h
  | cons i rest ih => exact ih (hc.release true remove i) (h.release hc remove i)

/-- A broadcast leaves no line that is not a line of before, cleaned if the broadcast writes
back, and none at all if it removes. -/
theorem cached_releaseAll (writeback remove : Bool) (c : Copies) (l : List Nat) (j : Nat) :
    (c.releaseAll writeback remove l).cached j =
      if j ∈ l then
        if remove then none
        else if writeback then (c.cached j).map CacheLine.clean else c.cached j
      else c.cached j := by
  induction l generalizing c with
  | nil => simp [releaseAll]
  | cons i rest ih =>
    have hstep : c.releaseAll writeback remove (i :: rest) =
        (c.release writeback remove i).releaseAll writeback remove rest := rfl
    simp only [hstep, ih, List.mem_cons]
    by_cases hj : j = i
    · subst hj
      by_cases hr : j ∈ rest <;> cases writeback <;> cases remove <;>
        simp [hr, Copies.release, Copies.settle, Copies.drop]
    · cases writeback <;> cases remove <;>
        simp [hj, Copies.release, Copies.settle, Copies.drop]

/-- A broadcast makes no line dirty. -/
theorem NoDirty.releaseAll {c : Copies} (h : c.NoDirty) (writeback remove : Bool)
    (l : List Nat) : (c.releaseAll writeback remove l).NoDirty := by
  intro j line hj
  rw [cached_releaseAll] at hj
  split at hj
  · split at hj
    · cases hj
    · split at hj
      · obtain ⟨l₀, -, rfl⟩ := Option.map_eq_some_iff.1 hj
        rfl
      · exact h hj
  · exact h hj

/-- After a broadcast that writes back, only a cache that did not hear it can have a dirty
line. -/
theorem noDirty_releaseAll {c : Copies} {l : List Nat}
    (h : ∀ ⦃j line⦄, j ∉ l → c.cached j = some line → line.dirty = false) (remove : Bool) :
    (c.releaseAll true remove l).NoDirty := by
  intro j line hj
  rw [cached_releaseAll] at hj
  split at hj
  · split at hj
    · cases hj
    · obtain ⟨l₀, -, rfl⟩ := Option.map_eq_some_iff.1 hj
      rfl
  · next hn => exact h hn hj

/-- A broadcast that only removes leaves memory alone. -/
theorem stored_releaseAll (remove : Bool) (c : Copies) (l : List Nat) :
    (c.releaseAll false remove l).stored = c.stored := by
  induction l generalizing c with
  | nil => rfl
  | cons i rest ih =>
    have hstep : c.releaseAll false remove (i :: rest) =
        (c.release false remove i).releaseAll false remove rest := rfl
    rw [hstep, ih]
    cases remove <;> rfl

/-! ## Reading and writing -/

/-- A cache may take the value of memory in if no line is dirty. -/
theorem Coherent.take {c : Copies} (h : c.Coherent) (hn : c.NoDirty) (i : Nat) :
    (c.take i).Coherent := by
  refine ⟨fun {j l} hj hd => ?_, fun {j k l l'} hj hd hk => ?_⟩
  · simp only [Copies.take] at hj ⊢
    split at hj
    · cases hj; rfl
    · exact h.clean hj hd
  · simp only [Copies.take] at hj
    split at hj
    · cases hj; cases hd
    · exact absurd (hn hj) (by simp [hd])

/-- To take the value of memory in makes no line dirty. -/
theorem NoDirty.take {c : Copies} (hn : c.NoDirty) (i : Nat) : (c.take i).NoDirty := by
  intro j l hj
  simp only [Copies.take] at hj
  split at hj
  · cases hj; rfl
  · exact hn hj

/-- A value of which only one cache knows, dirty, is coherent, whatever memory holds. -/
theorem coherent_of_sole {c : Copies} {i : Nat} {l : CacheLine} (hi : c.cached i = some l)
    (hd : l.dirty = true) (hn : ∀ j, j ≠ i → c.cached j = none) : c.Coherent := by
  have hsole : ∀ {j l'}, c.cached j = some l' → j = i := by
    intro j l' hj
    by_cases hne : j = i
    · exact hne
    · rw [hn j hne] at hj; cases hj
  refine ⟨fun {j l'} hj hd' => ?_, fun {j k l₁ l₂} hj _ hk => (hsole hk).trans (hsole hj).symm⟩
  cases hsole hj
  rw [hi] at hj
  cases hj
  rw [hd] at hd'
  cases hd'

/-! ## Steps -/

/-- The copies `c'` come from `c` by accesses through cache `i` that wrote the value `w`, or by
reads and write-backs only if there is none: they are coherent, have the value that was written
or else the old one, and no line is dirty that was not, but that of the cache which wrote. -/
structure Became (c : Copies) (i : Nat) (w : Option UInt16) (c' : Copies) : Prop where
  coherent : c'.Coherent
  holds : ∀ ⦃v⦄, c.Holds v → c'.Holds (w.getD v)
  dirty : ∀ ⦃j l⦄, c'.cached j = some l → l.dirty = true →
    (∃ l₀, c.cached j = some l₀ ∧ l₀.dirty = true) ∨ w ≠ none ∧ j = i

theorem Became.refl {c : Copies} (h : c.Coherent) (i : Nat) : c.Became i none c :=
  ⟨h, fun _ hv => hv, fun _ l hl hd => .inl ⟨l, hl, hd⟩⟩

/-- Of two writes the later one counts. -/
theorem Became.trans {c c' c'' : Copies} {i : Nat} {w w' : Option UInt16} (h : c.Became i w c')
    (h' : c'.Became i w' c'') : c.Became i (w'.or w) c'' where
  coherent := h'.coherent
  holds v hv := by
    have := h'.holds (h.holds hv)
    cases w'
    · exact this
    · exact this
  dirty j l hl hd := by
    rcases h'.dirty hl hd with ⟨l', hl', hd'⟩ | ⟨hw, hj⟩
    · rcases h.dirty hl' hd' with hold | ⟨hw, hj⟩
      · exact .inl hold
      · exact .inr ⟨fun e => hw (Option.or_eq_none_iff.1 e).2, hj⟩
    · exact .inr ⟨fun e => hw (Option.or_eq_none_iff.1 e).1, hj⟩

/-- If nothing was written, nothing is dirty that was not. -/
theorem Became.noDirty {c c' : Copies} {i : Nat} (h : c.Became i none c') (hn : c.NoDirty) :
    c'.NoDirty := by
  intro j l hl
  rcases hd : l.dirty with _ | _
  · rfl
  · rcases h.dirty hl hd with ⟨l₀, hl₀, hd₀⟩ | ⟨hw, -⟩
    · rw [hn hl₀] at hd₀
      cases hd₀
    · exact absurd rfl hw

/-- Write-backs leave the value of the halfword, however many. -/
theorem Became.releaseAll {c : Copies} (h : c.Coherent) (i : Nat) (remove : Bool)
    (l : List Nat) : c.Became i none (c.releaseAll true remove l) where
  coherent := h.releaseAll true remove l
  holds _ hv := hv.releaseAll h remove l
  dirty j line hl hd := by
    rw [cached_releaseAll] at hl
    split at hl
    · split at hl
      · cases hl
      · obtain ⟨l₀, -, rfl⟩ := Option.map_eq_some_iff.1 hl
        cases hd
    · exact .inl ⟨line, hl, hd⟩

/-- A write-back by one cache leaves the value of the halfword. -/
theorem Became.release {c : Copies} (h : c.Coherent) (i : Nat) (remove : Bool) (j : Nat) :
    c.Became i none (c.release true remove j) :=
  .releaseAll h i remove [j]

/-- To take the value of memory in leaves that of the halfword, if no line is dirty. -/
theorem Became.take {c : Copies} (h : c.Coherent) (hn : c.NoDirty) (i : Nat) :
    c.Became i none (c.take i) where
  coherent := h.take hn i
  holds v hv := by
    cases hv with
    | dirty j hj => exact absurd (hn hj) (by simp)
    | clean _ hs => exact hs ▸ .clean (hn.take i) rfl
  dirty j l hl hd := by
    rw [hn.take i hl] at hd
    cases hd

/-- A write after a cache took the value of memory in is a write before. -/
theorem Became.of_take {c c' : Copies} {u v : UInt16} {i : Nat}
    (h : (c.take i).Became i (some v) c') (hu : (c.take i).Holds u) : c.Became i (some v) c' where
  coherent := h.coherent
  holds _ _ := show c'.Holds v from h.holds hu
  dirty j l hl hd := by
    rcases h.dirty hl hd with ⟨l₀, hl₀, hd₀⟩ | hw
    · simp only [Copies.take] at hl₀
      split at hl₀
      · cases hl₀; cases hd₀
      · exact .inl ⟨l₀, hl₀, hd₀⟩
    · exact .inr hw

/-- A dirty line that is the only one has the value that was written. -/
theorem Became.of_sole {c' : Copies} {v : UInt16} {i : Nat} (hi : c'.cached i = some ⟨true, v⟩)
    (hn : ∀ j, j ≠ i → c'.cached j = none) (c : Copies) : c.Became i (some v) c' := by
  refine ⟨coherent_of_sole hi rfl hn, fun _ _ => .dirty i hi, fun j l hl _ => ?_⟩
  refine .inr ⟨Option.some_ne_none v, Decidable.not_not.1 fun hne => ?_⟩
  rw [hn j hne] at hl
  cases hl

end Copies

end Multicore
