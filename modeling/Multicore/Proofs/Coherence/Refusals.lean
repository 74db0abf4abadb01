import Multicore.Proofs.Coherence.Parts
import Multicore.Proofs.Coherence.Registry

/-!
# When an access fails

An access fails because of its address and for no other reason, whatever was done before, through
whichever cache, and whether that cache takes part or not. A bus is `Reached` if it comes from
caches without lines by what can happen on a bus. Then all lines lie within memory
(`Bus.Reached.inside`), which is all that is needed: memory accepts every write-back, and an aligned
word lies within memory if its lower half does. An access that fails does so before anything has
changed (`Bus.Obeys`).
-/

namespace Multicore.Bus

variable {bus bus' bus'' : Bus PagedMemory} {i : Nat} {a : Address}

/-! ## Lines within memory -/

/-- Every line of every data cache, whether it takes part or not, is at a halfword of memory. -/
def Inside (bus : Bus PagedMemory) : Prop := ∀ i, (bus.store i).Fits bus.memory

/-- All lines are at halfwords of memory, and memory has the size that it had. -/
structure Stays (bus bus' : Bus PagedMemory) : Prop where
  inside : bus'.Inside
  pageCount : bus'.memory.pageCount = bus.memory.pageCount

theorem Inside.stays (h : bus.Inside) : bus.Stays bus := ⟨h, rfl⟩

/-- What stays, stays once more. -/
theorem Stays.trans (h : bus.Stays bus') (h' : bus'.Stays bus'') : bus.Stays bus'' :=
  ⟨h'.inside, h'.pageCount.trans h.pageCount⟩

/-- Memory has the halfwords that it had. -/
theorem Stays.hasHalf (h : bus.Stays bus') (ha : bus.memory.HasHalf a) : bus'.memory.HasHalf a :=
  (PagedMemory.HasHalf.congr h.pageCount).2 ha

/-- A cache of which no line lies outside memory may get any lines that do not either. -/
theorem Inside.put (h : bus.Inside) {s : HalfwordCache} {m : PagedMemory} (hs : s.Fits bus.memory)
    (hm : m.pageCount = bus.memory.pageCount) : bus.Stays (bus.put i s m) := by
  refine ⟨fun j a l hl => (PagedMemory.HasHalf.congr hm).2 ?_, hm⟩
  rw [store_put] at hl
  split at hl
  · exact hs hl
  · exact h j hl

/-- A look-up marks a line as used and moves none. -/
theorem Inside.lookup (h : bus.Inside) (i : Nat) (a : Address) :
    bus.Stays (bus.setStore i ((bus.store i).lookup a).2) := by
  refine h.put (m := bus.memory) (fun {b l} hl => ?_) rfl
  rw [HalfwordCache.line?_lookup] at hl
  exact h i hl

/-- A release never fails. -/
theorem Inside.release (h : bus.Inside) (i : Nat) (selector : Selector)
    (writeback remove : Bool) :
    ∃ bus', Bus.release i selector writeback remove bus =
      .ok ((bus.store i).covered selector).length bus' ∧ bus.Stays bus' := by
  obtain ⟨s, m, hrun, hshape, hline, -⟩ :=
    HalfwordCache.release_spec (h i) selector writeback remove
  have hfits : s.Fits bus.memory := HalfwordCache.Fits.of_released (h i) hline
  exact ⟨bus.put i s m, onStore_of_ok hrun, h.put hfits hshape.pageCount⟩

/-- A release leaves all lines at halfwords of memory. -/
theorem Inside.finalState_release (h : bus.Inside) (i : Nat) (selector : Selector)
    (writeback remove : Bool) :
    bus.Stays (finalState (Bus.release i selector writeback remove) bus) := by
  obtain ⟨bus', hrun, hstays⟩ := h.release i selector writeback remove
  rw [finalState_of_ok hrun]
  exact hstays

/-- Releases of any caches, one after the other, never fail. -/
theorem Inside.forM_release (h : bus.Inside) (l : List Nat) (selector : Selector)
    (writeback remove : Bool) :
    ∃ bus', (l.forM fun i => do let _ ← Bus.release i selector writeback remove) bus =
      .ok () bus' := by
  induction l generalizing bus with
  | nil => exact ⟨bus, rfl⟩
  | cons i rest ih =>
    obtain ⟨bus₁, hrun, hstays⟩ := h.release i selector writeback remove
    obtain ⟨bus₂, hrest⟩ := ih hstays.inside
    have hfirst : (do let _ ← Bus.release i selector writeback remove :
        EStateM Fault (Bus PagedMemory) Unit) bus = .ok () bus₁ := bind_of_ok hrun
    exact ⟨bus₂, (bind_of_ok hfirst).trans hrest⟩

/-- A broadcast is a number of releases, each of which stays. -/
theorem Inside.broadcast (h : bus.Inside) (except : Option Nat) (selector : Selector)
    (writeback remove : Bool) : bus.Stays (bus.broadcast except selector writeback remove) :=
  chains_broadcast (R := fun bus bus' => bus.Inside → bus.Stays bus')
    ⟨fun _ h => h.stays, fun h h' hs => (h hs).trans (h' (h hs).inside)⟩
    (fun i _ h => h.finalState_release i selector writeback remove) bus except h

/-- A line that is put in at a halfword of memory is accepted, and so is the line that it evicts. -/
theorem Inside.insert (h : bus.Inside) {s : HalfwordCache} (hs : s.lines = (bus.store i).lines)
    (ha : bus.memory.HasHalf a) (line : CacheLine) :
    ∃ s' m', HalfwordCache.insert a line (s, bus.memory) = .ok () (s', m') ∧
      bus.Stays (bus.put i s' m') := by
  have hfits : s.Fits bus.memory := fun {b l} hl => h i (l := l) <| by
    rw [← hl, HalfwordCache.line?, HalfwordCache.line?, hs]
  obtain ⟨s', m', hrun, hshape, hfits', -⟩ := HalfwordCache.insert_spec hfits ha line
  exact ⟨s', m', hrun, h.put hfits' hshape.pageCount⟩

/-- A halfword of memory can be filled in: the line that it evicts can be written back. -/
theorem Inside.fill (h : bus.Inside) (i : Nat) (ha : bus.memory.HasHalf a) (v : UInt16) :
    ∃ bus', onStore i (HalfwordCache.fill a v) bus = .ok () bus' ∧ bus.Stays bus' := by
  obtain ⟨s, m, hrun, hstays⟩ := h.insert (i := i)
    (s := { bus.store i with misses := (bus.store i).misses + 1 }) rfl ha ⟨false, v⟩
  exact ⟨bus.put i s m, onStore_of_ok hrun, hstays⟩

/-- A halfword of memory can be stored to, for the same reason. -/
theorem Inside.store (h : bus.Inside) (i : Nat) (ha : bus.memory.HasHalf a) (v : UInt16) :
    ∃ bus', onStore i (HalfwordCache.store a v) bus = .ok () bus' ∧ bus.Stays bus' := by
  obtain ⟨s, m, hrun, hstays⟩ := h.insert (i := i) rfl ha ⟨true, v⟩
  exact ⟨bus.put i s m, onStore_of_ok hrun, hstays⟩

/-! ## Computations that fail for one reason -/

/-- If there is a reason to refuse it, the computation fails for this reason and changes nothing,
and else it succeeds. -/
structure Obeys {α : Type} (i : Nat) (x : EStateM Fault (Bus PagedMemory) α) (bus : Bus PagedMemory)
    (refusal : Option Fault) : Prop where
  accepted : refusal = none → ∃ v bus', x bus = .ok v bus' ∧ bus.Stays bus'
  refused : ∀ {fault}, refusal = some fault → ∃ bus', x bus = .error fault bus' ∧ bus.Same i bus'

section
variable {α γ : Type} {x : EStateM Fault (Bus PagedMemory) α}
  {f : α → EStateM Fault (Bus PagedMemory) γ} {r : Option Fault}

/-- An answer without a computation is never refused. -/
theorem Inside.obeys_pure (h : bus.Inside) (v : α) :
    Obeys i (pure v : EStateM Fault (Bus PagedMemory) α) bus none :=
  ⟨fun _ => ⟨v, bus, rfl, h.stays⟩, nofun⟩

/-- What comes after a computation that succeeded may not fail any more. -/
theorem Obeys.bind (hx : Obeys i x bus r)
    (hf : r = none → ∀ v bus', bus.Stays bus' → Obeys i (f v) bus' none) :
    Obeys i (x >>= f) bus r where
  accepted hr := by
    obtain ⟨v, bus₁, hrun, hstays⟩ := hx.accepted hr
    obtain ⟨w, bus₂, hrest, hstays'⟩ := (hf hr v bus₁ hstays).accepted rfl
    exact ⟨w, bus₂, (bind_of_ok hrun).trans hrest, hstays.trans hstays'⟩
  refused hr := by
    obtain ⟨bus', hrun, hsame⟩ := hx.refused hr
    exact ⟨bus', bind_of_error hrun, hsame⟩

/-- The computation comes to a failure exactly for the reason that there is. -/
theorem Obeys.error_iff (hx : Obeys i x bus r) {fault : Fault} :
    (∃ bus', x bus = .error fault bus') ↔ r = some fault := by
  constructor
  · rintro ⟨bus', hrun⟩
    rcases hr : r with _ | fault'
    · obtain ⟨v, bus₁, hok, -⟩ := hx.accepted hr
      cases hok.symm.trans hrun
    · obtain ⟨bus₁, herror, -⟩ := hx.refused hr
      cases herror.symm.trans hrun
      rfl
  · intro hr
    obtain ⟨bus', hrun, -⟩ := hx.refused hr
    exact ⟨bus', hrun⟩

/-- A computation that failed has changed nothing. -/
theorem Obeys.same_of_error (hx : Obeys i x bus r) {fault : Fault}
    (hrun : x bus = .error fault bus') : bus.Same i bus' := by
  obtain ⟨bus₁, herror, hsame⟩ := hx.refused (hx.error_iff.1 ⟨bus', hrun⟩)
  cases herror.symm.trans hrun
  exact hsame

/-- A computation that succeeded had no reason to be refused. -/
theorem Obeys.of_ok (hx : Obeys i x bus r) {v : α} (hrun : x bus = .ok v bus') :
    r = none ∧ bus.Stays bus' := by
  rcases hr : r with _ | fault
  · obtain ⟨w, bus₁, hok, hstays⟩ := hx.accepted hr
    cases hok.symm.trans hrun
    exact ⟨rfl, hstays⟩
  · obtain ⟨bus₁, herror, -⟩ := hx.refused hr
    cases herror.symm.trans hrun

end

/-! ## Halfwords -/

/-- The fault of an access to the halfword at an even address, if it lies outside memory. -/
def halfRefusal (bus : Bus PagedMemory) (a : Address) : Option Fault :=
  if bus.memory.size < a.toNat + 2 then some (.memory (.outOfBounds a 2)) else none

/-- An access to a halfword of memory is not refused. -/
theorem halfRefusal_of_hasHalf (ha : bus.memory.HasHalf a) : bus.halfRefusal a = none :=
  if_neg (Nat.not_lt.2 ha.inside)

/-- An access to any other halfword is out of bounds, since its address is even. -/
theorem halfRefusal_of_not_hasHalf (he : a % 2 = 0) (ha : ¬ bus.memory.HasHalf a) :
    bus.halfRefusal a = some (.memory (.outOfBounds a 2)) :=
  if_pos (Nat.lt_of_not_le fun hle => ha ⟨he, hle⟩)

/-- A halfword whose access is not refused is one of memory. -/
theorem hasHalf_of_halfRefusal (he : a % 2 = 0) (h : bus.halfRefusal a = none) :
    bus.memory.HasHalf a := by
  refine ⟨he, Nat.not_lt.1 fun hlt => ?_⟩
  rw [halfRefusal, if_pos hlt] at h
  cases h

/-- Where no cache can have a line, a halfword outside memory is refused, and else it is accepted.
-/
theorem Obeys.of_even {α : Type} {x : EStateM Fault (Bus PagedMemory) α} (he : a % 2 = 0)
    (hin : bus.memory.HasHalf a → ∃ v bus', x bus = .ok v bus' ∧ bus.Stays bus')
    (hout : ¬ bus.memory.HasHalf a →
      ∃ bus', x bus = .error (.memory (.outOfBounds a 2)) bus' ∧ bus.Same i bus') :
    Obeys i x bus (bus.halfRefusal a) where
  accepted hr := hin (hasHalf_of_halfRefusal he hr)
  refused {fault} hr := by
    have hn : ¬ bus.memory.HasHalf a := fun ha => by
      rw [halfRefusal_of_hasHalf ha] at hr
      cases hr
    rw [halfRefusal_of_not_hasHalf he hn] at hr
    cases hr
    exact hout hn

/-- No data cache has a line outside memory. -/
theorem Inside.line?_eq_none (h : bus.Inside) (ha : ¬ bus.memory.HasHalf a) (j : Nat) :
    (bus.store j).line? a = none :=
  Option.eq_none_iff_forall_ne_some.2 fun _ hl => ha (h j hl)

/-- A halfword is fetched unless it lies outside memory. In a cache it never does. -/
theorem Inside.fetchHalf (h : bus.Inside) (i : Nat) (he : a % 2 = 0) :
    Obeys i (Bus.fetchHalf i a) bus (bus.halfRefusal a) := by
  refine .of_even he (fun ha => ?_) fun ha =>
    fetchHalf_of_absent he ha (h.line?_eq_none ha i) fun j _ => h.line?_eq_none ha j
  have hlookup := h.lookup i a
  have hrun : Bus.lookup i a bus = .ok ((bus.store i).lookup a).1
      (bus.setStore i ((bus.store i).lookup a).2) := rfl
  rw [Bus.fetchHalf, bind_of_ok hrun]
  generalize bus.setStore i _ = bus₁ at *
  rcases ((bus.store i).lookup a).1 with _ | v
  · -- the other caches write the halfword back, and the cache takes it in
    have hmiss := hlookup.trans (hlookup.inside.broadcast (some i) (.address a) true false)
    have ha₂ := hmiss.hasHalf ha
    dsimp only
    rw [bind_modify, announceMiss]
    generalize bus₁.broadcast _ _ _ _ = bus₂ at *
    have hread : onMemory (PhysicalMemory.readHalf a) bus₂ =
        .ok (bus₂.memory.halfAt a.toNat) bus₂ := by
      rw [onMemory, PagedMemory.readHalf_of_hasHalf ha₂]
    obtain ⟨bus₃, hfill, hstays⟩ := hmiss.inside.fill i ha₂ (bus₂.memory.halfAt a.toNat)
    exact ⟨_, bus₃, (bind_of_ok hread).trans (bind_of_ok hfill), hmiss.trans hstays⟩
  · exact ⟨v, bus₁, rfl, hlookup⟩

/-- A halfword is put unless it lies outside memory, which the read of a miss finds out before
anything is changed. -/
theorem Inside.putHalf (h : bus.Inside) (i : Nat) (he : a % 2 = 0) (v : UInt16) :
    Obeys i (Bus.putHalf i a v) bus (bus.halfRefusal a) := by
  refine .of_even he (fun ha => ?_) fun ha =>
    ⟨bus, putHalf_of_absent he ha (h.line?_eq_none ha i) v, .refl bus i⟩
  have hput : ∀ {bus₁ : Bus PagedMemory}, bus.Stays bus₁ → ∃ bus', (do
      onStore i (HalfwordCache.store a v)
      modify fun bus => bus.announceWrite i a : EStateM Fault (Bus PagedMemory) Unit) bus₁ =
        .ok () bus' ∧ bus.Stays bus' := by
    intro bus₁ hstays
    obtain ⟨bus₂, hstore, hstays'⟩ := hstays.inside.store i (hstays.hasHalf ha) v
    refine ⟨bus₂.announceWrite i a, bind_of_ok hstore, (hstays.trans hstays').trans ?_⟩
    exact hstays'.inside.broadcast (some i) (.address a) false true
  rw [Bus.putHalf, bind_get]
  rcases (bus.store i).contains a with _ | _
  · have hread : onMemory (PhysicalMemory.readHalf a) bus =
        .ok (bus.memory.halfAt a.toNat) bus := by
      rw [onMemory, PagedMemory.readHalf_of_hasHalf ha]
    obtain ⟨bus₁, hfill, hstays⟩ := h.fill i ha (bus.memory.halfAt a.toNat)
    obtain ⟨bus₂, hrun, hdone⟩ := hput hstays
    exact ⟨(), bus₂, (bind_of_ok hread).trans ((bind_of_ok hfill).trans hrun), hdone⟩
  · obtain ⟨bus₁, hrun, hdone⟩ := hput h.stays
    exact ⟨(), bus₁, hrun, hdone⟩

/-- The upper half of a word is accepted after the lower half. -/
theorem Stays.upperRefusal (h : bus.Stays bus') (ha : a % 4 = 0) (hr : bus.halfRefusal a = none) :
    bus'.halfRefusal (a + 2) = none := by
  have hlow := hasHalf_of_halfRefusal (even_of_word ha).1 hr
  exact halfRefusal_of_hasHalf (h.hasHalf (hlow.add_two ha))

/-! ## Loads and stores -/

/-- What is wrong with an access: its address is not a multiple of the width, or it is and the bytes
do not all lie in memory, which is reported for the halfword at the address. -/
inductive FaultyAt (m : PagedMemory) (a : Address) (width : Width) : Fault → Prop
  | unaligned (h : a % width.bytes ≠ 0) : FaultyAt m a width (.unalignedAccess a)
  | outside (ha : a % width.bytes = 0) (h : m.size < a.toNat + width.bytes.toNat) :
    FaultyAt m a width (.memory (.outOfBounds a.halfword 2))

/-- Bytes are always aligned. -/
theorem aligned_byte (a : Address) : a % Width.byte.bytes = 0 :=
  Address.mod_one a

/-- Memory consists of whole pages, so an aligned access ends in memory if its first halfword does.
-/
theorem outside_iff {m : PagedMemory} {width : Width} (ha : a % width.bytes = 0) :
    m.size < a.halfword.toNat + 2 ↔ m.size < a.toNat + width.bytes.toNat := by
  have hmod := m.size_mod
  have hhalf := Address.toNat_halfword a
  cases width with
  | byte =>
    show _ ↔ m.size < a.toNat + 1
    omega
  | half =>
    have hdvd := Address.even_iff.1 ha
    show _ ↔ m.size < a.toNat + 2
    omega
  | word =>
    have hdvd := Address.dvd_four_iff.1 ha
    show _ ↔ m.size < a.toNat + 4
    omega

/-- The data caches accept what memory accepts. -/
theorem refusal_eq_none_iff_memory {width : Width} :
    bus.refusal a width = none ↔ bus.memory.refusal a width.bytes = none := by
  rw [refusal_eq_none_iff, PagedMemory.refusal_eq_none_iff]
  refine and_congr_right fun ha => ?_
  have hout := outside_iff (m := bus.memory) ha
  constructor
  · intro h
    exact Nat.not_lt.1 fun hn => Nat.not_lt.2 h.inside (hout.2 hn)
  · intro h
    exact ⟨Address.halfword_even a, Nat.not_lt.1 fun hn => Nat.not_lt.2 h (hout.1 hn)⟩

/-- The refusal of an access is what is wrong with it. -/
theorem refusal_eq_some_iff {width : Width} {fault : Fault} :
    bus.refusal a width = some fault ↔ FaultyAt bus.memory a width fault := by
  by_cases ha : a % width.bytes = 0
  · rw [refusal, if_neg fun hn => hn ha, Option.ite_none_right_eq_some, outside_iff ha]
    constructor
    · rintro ⟨hout, hf⟩
      cases hf
      exact .outside ha hout
    · rintro (hn | ⟨-, hout⟩)
      · exact absurd ha hn
      · exact ⟨hout, rfl⟩
  · rw [refusal, if_pos ha]
    constructor
    · intro hf
      cases hf
      exact .unaligned ha
    · rintro (- | ⟨hz, -⟩)
      · rfl
      · exact absurd hz ha

/-- The check of the alignment leaves the rest of an access to do. -/
theorem Obeys.checked {α : Type} {x : EStateM Fault (Bus PagedMemory) α} {width : Width}
    (hx : a % width.bytes = 0 → Obeys i x bus (bus.halfRefusal a.halfword)) :
    Obeys i (do checkAlignment a width.bytes; x) bus (bus.refusal a width) := by
  by_cases ha : a % width.bytes = 0
  · have hrun : (do checkAlignment a width.bytes; x : EStateM Fault (Bus PagedMemory) α) bus =
        x bus := bind_of_ok (checkAlignment_of_dvd ha bus)
    rw [show bus.refusal a width = bus.halfRefusal a.halfword from if_neg fun hn => hn ha]
    exact ⟨fun hr => hrun ▸ (hx ha).accepted hr, fun hr => hrun ▸ (hx ha).refused hr⟩
  · rw [show bus.refusal a width = some (.unalignedAccess a) from if_pos ha]
    refine ⟨nofun, fun hf => ?_⟩
    cases hf
    exact ⟨bus, bind_of_error (checkAlignment_of_not_dvd ha bus), .refl bus i⟩

/-- A byte is read as a part of its halfword. -/
theorem Inside.readByte (h : bus.Inside) (i : Nat) (a : Address) :
    Obeys i (Bus.readByte i a) bus (bus.refusal a .byte) := by
  rw [show bus.refusal a .byte = bus.halfRefusal a.halfword from
    if_neg fun hn => hn (aligned_byte a)]
  exact (h.fetchHalf i (Address.halfword_even a)).bind fun _ _ _ hstays =>
    hstays.inside.obeys_pure _

/-- The alignment of a halfword is checked first. -/
theorem Inside.readHalf (h : bus.Inside) (i : Nat) (a : Address) :
    Obeys i (Bus.readHalf i a) bus (bus.refusal a .half) := by
  show Obeys i (do checkAlignment a Width.half.bytes; Bus.fetchHalf i a) bus _
  refine .checked fun ha => ?_
  rw [Address.halfword_of_even ha]
  exact h.fetchHalf i ha

/-- A word is read in two halves. If the first lies in memory, so does the second. -/
theorem Inside.readWord (h : bus.Inside) (i : Nat) (a : Address) :
    Obeys i (Bus.readWord i a) bus (bus.refusal a .word) := by
  show Obeys i (do
    checkAlignment a Width.word.bytes
    let lo ← Bus.fetchHalf i a
    let hi ← Bus.fetchHalf i (a + 2)
    return wordOfHalves lo hi) bus _
  refine .checked fun ha => ?_
  obtain ⟨he, he'⟩ := even_of_word ha
  rw [Address.halfword_of_even he]
  refine (h.fetchHalf i he).bind fun hr lo bus₁ hstays => ?_
  have hupper := hstays.inside.fetchHalf i he'
  rw [hstays.upperRefusal ha hr] at hupper
  exact hupper.bind fun _ _ _ hstays' => hstays'.inside.obeys_pure _

/-- A load of any width fails for its refusal only. -/
theorem Inside.load (h : bus.Inside) (width : Width) (i : Nat) (a : Address) :
    Obeys i (Bus.load width i a) bus (bus.refusal a width) := by
  cases width with
  | byte => exact (h.readByte i a).bind fun _ _ _ hstays => hstays.inside.obeys_pure _
  | half => exact (h.readHalf i a).bind fun _ _ _ hstays => hstays.inside.obeys_pure _
  | word => exact h.readWord i a

/-- A byte is written by a fetch and a put of its halfword. The put cannot fail after the fetch. -/
theorem Inside.writeByte (h : bus.Inside) (i : Nat) (a : Address) (v : UInt8) :
    Obeys i (Bus.writeByte i a v) bus (bus.refusal a .byte) := by
  have he := Address.halfword_even a
  rw [show bus.refusal a .byte = bus.halfRefusal a.halfword from
    if_neg fun hn => hn (aligned_byte a)]
  refine (h.fetchHalf i he).bind fun hr half bus₁ hstays => ?_
  have hput := fun v => hstays.inside.putHalf i he v
  rw [halfRefusal_of_hasHalf (hstays.hasHalf (hasHalf_of_halfRefusal he hr))] at hput
  exact hput _

/-- The alignment of a halfword is checked before it is written. -/
theorem Inside.writeHalf (h : bus.Inside) (i : Nat) (a : Address) (v : UInt16) :
    Obeys i (Bus.writeHalf i a v) bus (bus.refusal a .half) := by
  show Obeys i (do checkAlignment a Width.half.bytes; Bus.putHalf i a v) bus _
  refine .checked fun ha => ?_
  rw [Address.halfword_of_even ha]
  exact h.putHalf i ha v

/-- A word is written in two halves. No failure follows the first. -/
theorem Inside.writeWord (h : bus.Inside) (i : Nat) (a : Address) (v : UInt32) :
    Obeys i (Bus.writeWord i a v) bus (bus.refusal a .word) := by
  show Obeys i (do
    checkAlignment a Width.word.bytes
    Bus.putHalf i a (lowHalf v)
    Bus.putHalf i (a + 2) (highHalf v)) bus _
  refine .checked fun ha => ?_
  obtain ⟨he, he'⟩ := even_of_word ha
  rw [Address.halfword_of_even he]
  refine (h.putHalf i he (lowHalf v)).bind fun hr _ bus₁ hstays => ?_
  have hupper := hstays.inside.putHalf i he' (highHalf v)
  rwa [hstays.upperRefusal ha hr] at hupper

/-- A store of any width fails for its refusal only. -/
theorem Inside.storeAt (h : bus.Inside) (width : Width) (i : Nat) (a : Address) (v : UInt32) :
    Obeys i (Bus.storeAt width i a v) bus (bus.refusal a width) := by
  cases width with
  | byte => exact h.writeByte i a v.toUInt8
  | half => exact h.writeHalf i a v.toUInt16
  | word => exact h.writeWord i a v

/-- After an access, whatever it comes to, all lines lie within memory. -/
theorem Obeys.inside {α : Type} {x : EStateM Fault (Bus PagedMemory) α} {r : Option Fault}
    (hx : Obeys i x bus r) (h : bus.Inside) : (finalState x bus).Inside := by
  rcases hrun : x bus with ⟨v, bus'⟩ | ⟨fault, bus'⟩
  · rw [finalState_of_ok hrun]
    exact (hx.of_ok hrun).2.inside
  · have hsame := hx.same_of_error hrun
    rw [finalState_of_error hrun]
    intro j b l hl
    rw [hsame.line?] at hl
    rw [hsame.memory]
    exact h j hl

/-! ## States that can be reached -/

/-- A bus that comes from data caches without lines, of any capacities: by accesses, releases and
broadcasts, by caches that come and go, and by anything that replaces the contents of memory or
the allocation of its pages. -/
inductive Reached : Bus PagedMemory → Prop
  | start {bus : Bus PagedMemory} (h : ∀ i a, (bus.store i).line? a = none) : Reached bus
  | create {bus : Bus PagedMemory} (h : Reached bus) (i capacity : Nat) :
    Reached (bus.setStore i (.empty capacity))
  | register {bus : Bus PagedMemory} (h : Reached bus) (number i : Nat) :
    Reached (bus.register number i)
  | unregister {bus : Bus PagedMemory} (h : Reached bus) (number : Nat) :
    Reached (bus.unregister number)
  | load {bus : Bus PagedMemory} (h : Reached bus) (width : Width) (i : Nat) (a : Address) :
    Reached (finalState (Bus.load width i a) bus)
  | store {bus : Bus PagedMemory} (h : Reached bus) (width : Width) (i : Nat) (a : Address)
    (v : UInt32) : Reached (finalState (storeAt width i a v) bus)
  | release {bus : Bus PagedMemory} (h : Reached bus) (i : Nat) (selector : Selector)
    (writeback remove : Bool) : Reached (finalState (Bus.release i selector writeback remove) bus)
  | broadcast {bus : Bus PagedMemory} (h : Reached bus) (except : Option Nat)
    (selector : Selector) (writeback remove : Bool) :
    Reached (bus.broadcast except selector writeback remove)
  | memory {bus : Bus PagedMemory} (h : Reached bus) {m : PagedMemory}
    (hm : m.pageCount = bus.memory.pageCount) : Reached { bus with memory := m }

/-- No line ever lies outside memory. -/
theorem Reached.inside (h : bus.Reached) : bus.Inside := by
  induction h with
  | start h =>
    intro i a l hl
    cases (h i a).symm.trans hl
  | @create bus _ i capacity ih =>
    exact (ih.put (m := bus.memory)
      (fun {a l} hl => by rw [line?_empty] at hl; cases hl) rfl).inside
  | register _ _ _ ih => exact ih
  | unregister _ _ ih => exact ih
  | load _ width i a ih => exact (ih.load width i a).inside ih
  | store _ width i a v ih => exact (ih.storeAt width i a v).inside ih
  | release _ i selector writeback remove ih =>
    exact (ih.finalState_release i selector writeback remove).inside
  | broadcast _ except selector writeback remove ih =>
    exact (ih.broadcast except selector writeback remove).inside
  | memory _ hm ih => exact fun i a l hl => (PagedMemory.HasHalf.congr hm).2 (ih i hl)

/-- In every state that a bus can reach, a load or a store through any cache fails exactly if its
address is faulty, with the fault that this makes, and then the caches, with their dirty bits and
their order of use, and memory are as before, but that a look-up lets the clock of a cache advance.
No release of lines fails, through whichever caches one after the other, and no insertion at a
halfword of memory does, so that no write-back does; and neither does a word once its lower half is
read or written. -/
theorem access_fails_iff (h : bus.Reached) (i : Nat) (width : Width) (a : Address) (v : UInt32) :
    (∀ fault,
      ((∃ bus', Bus.load width i a bus = .error fault bus') ↔
        FaultyAt bus.memory a width fault) ∧
      ((∃ bus', Bus.storeAt width i a v bus = .error fault bus') ↔
        FaultyAt bus.memory a width fault)) ∧
    a % Width.byte.bytes = 0 ∧
    (∀ fault bus', Bus.load width i a bus = .error fault bus' ∨
      Bus.storeAt width i a v bus = .error fault bus' → bus.Same i bus') ∧
    (∀ (l : List Nat) selector writeback remove, ∃ bus',
      (l.forM fun j => do let _ ← Bus.release j selector writeback remove) bus = .ok () bus') ∧
    (∀ j b line, bus.memory.HasHalf b →
      ∃ t, HalfwordCache.insert b line (bus.store j, bus.memory) = .ok () t) ∧
    (a % 4 = 0 →
      (∀ lo bus', Bus.fetchHalf i a bus = .ok lo bus' →
        ∃ hi bus'', Bus.fetchHalf i (a + 2) bus' = .ok hi bus'') ∧
      ∀ lo hi bus', Bus.putHalf i a lo bus = .ok () bus' →
        ∃ bus'', Bus.putHalf i (a + 2) hi bus' = .ok () bus'') := by
  have hin := h.inside
  have hload := hin.load width i a
  have hstore := hin.storeAt width i a v
  refine ⟨fun fault => ⟨hload.error_iff.trans refusal_eq_some_iff,
      hstore.error_iff.trans refusal_eq_some_iff⟩, aligned_byte a, ?_,
    hin.forM_release, fun j b line hb => ?_, fun ha => ⟨?_, ?_⟩⟩
  · rintro fault bus' (hrun | hrun)
    · exact hload.same_of_error hrun
    · exact hstore.same_of_error hrun
  · obtain ⟨s, m, hrun, -⟩ := hin.insert (i := j) rfl hb line
    exact ⟨(s, m), hrun⟩
  · -- the lower half succeeded, so it lies in memory, and then the upper half does
    intro lo bus' hrun
    obtain ⟨hr, hstays⟩ := (hin.fetchHalf i (even_of_word ha).1).of_ok hrun
    obtain ⟨hi, bus'', hrun', -⟩ := (hstays.inside.fetchHalf i (even_of_word ha).2).accepted
      (hstays.upperRefusal ha hr)
    exact ⟨hi, bus'', hrun'⟩
  · intro lo hi bus' hrun
    obtain ⟨hr, hstays⟩ := (hin.putHalf i (even_of_word ha).1 lo).of_ok hrun
    obtain ⟨_, bus'', hrun', -⟩ := (hstays.inside.putHalf i (even_of_word ha).2 hi).accepted
      (hstays.upperRefusal ha hr)
    exact ⟨bus'', hrun'⟩

/-- Two caches of one line take part, and one has a dirty line. A word behind the end of memory is
not read through the other. -/
theorem access_fails_iff_of_two_caches :
    let start : Bus PagedMemory := { memory := .ofSize 256, capacity := 1 }
    let bus := finalState (Bus.storeAt .half 0 0 7) ((start.register 0 0).register 1 1)
    bus.Reached ∧ FaultyAt bus.memory 256 .word (.memory (.outOfBounds 256 2)) ∧
      ∃ bus', Bus.load .word 1 256 bus = .error (.memory (.outOfBounds 256 2)) bus' ∧
        bus.Same 1 bus' := by
  intro start bus
  have hstart : start.Reached := .start fun _ a => line?_empty 1 a
  have hreached : bus.Reached := ((hstart.register 0 0).register 1 1).store .half 0 0 7
  have hfaulty : FaultyAt bus.memory 256 .word (.memory (.outOfBounds 256 2)) :=
    .outside (a := 256) rfl (by decide +kernel)
  obtain ⟨hiff, -, hsame, -⟩ := access_fails_iff hreached 1 .word 256 0
  obtain ⟨bus', hrun⟩ := (hiff _).1.2 hfaulty
  exact ⟨hreached, hfaulty, bus', hrun, hsame _ _ (.inl hrun)⟩

end Multicore.Bus
