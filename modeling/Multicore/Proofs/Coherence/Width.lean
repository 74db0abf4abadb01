import Multicore.Instruction
import Multicore.Proofs.Coherence.Access

/-!
# Loads and stores

The accesses of bytes, halfwords and words, as one load and one store with the width as a
parameter. `Bus.load_spec` and `Bus.storeAt_spec` say all that they do on a coherent bus: whether
an access is refused depends on its address only (`Bus.refusal`), an accepted load answers the
value at its address, and an accepted store replaces it.
-/

namespace Multicore

/-- The number of bytes of an access. -/
def Width.bytes : Width → UInt32
  | .byte => 1
  | .half => 2
  | .word => 4

namespace Bus

section
variable {β : Type} [PhysicalMemory β]

/-- Load through a data cache. Bytes and halfwords are filled up with zeros. -/
def load (width : Width) (i : Nat) (a : Address) : EStateM Fault (Bus β) UInt32 :=
  match width with
  | .byte => do return (← readByte i a).toUInt32
  | .half => do return (← readHalf i a).toUInt32
  | .word => readWord i a

/-- Store the low part of a value through a data cache. -/
def storeAt (width : Width) (i : Nat) (a : Address) (v : UInt32) : EStateM Fault (Bus β) Unit :=
  match width with
  | .byte => writeByte i a v.toUInt8
  | .half => writeHalf i a v.toUInt16
  | .word => writeWord i a v

end

/-- The fault of an access, if it is refused: at an address that is not a multiple of the width,
or outside memory. -/
def refusal (bus : Bus PagedMemory) (a : Address) (width : Width) : Option Fault :=
  if a % width.bytes ≠ 0 then some (.unalignedAccess a)
  else if bus.memory.size < a.halfword.toNat + 2 then some (.memory (.outOfBounds a.halfword 2))
  else none

/-- The byte at an address, a part of its halfword. -/
def byteAt (bus : Bus PagedMemory) (a : Address) : UInt8 :=
  if a % 2 = 0 then lowByte (bus.halfAt a.halfword) else highByte (bus.halfAt a.halfword)

/-- The value at an address, filled up with zeros. -/
def valueAt (bus : Bus PagedMemory) (a : Address) : Width → UInt32
  | .byte => (bus.byteAt a).toUInt32
  | .half => (bus.halfAt a).toUInt32
  | .word => wordOfHalves (bus.halfAt a) (bus.halfAt (a + 2))

/-- The halfwords that a store replaces. A byte goes into the halfword that holds it. -/
def patch (bus : Bus PagedMemory) (a : Address) (v : UInt32) : Width → Patch
  | .byte =>
    let half := bus.halfAt a.halfword
    .single a.halfword <|
      if a % 2 = 0 then halfOfBytes v.toUInt8 (highByte half)
      else halfOfBytes (lowByte half) v.toUInt8
  | .half => .single a v.toUInt16
  | .word => (Patch.single a (lowHalf v)).andThen (.single (a + 2) (highHalf v))

/-- What an access through cache `i` does: if it is refused, it fails and changes nothing, and
else it answers `v` and writes `patch`. -/
structure Accesses {α : Type} (i : Nat) (x : EStateM Fault (Bus PagedMemory) α)
    (bus : Bus PagedMemory) (refusal : Option Fault) (v : α) (patch : Patch) : Prop where
  accepted : refusal = none → ∃ bus', x bus = .ok v bus' ∧ bus.Written i patch bus'
  refused : ∀ {fault}, refusal = some fault → ∃ bus', x bus = .error fault bus' ∧ bus.Same i bus'

/-- Whether an access is refused or not, a coherent bus comes to what was written. -/
theorem Accesses.written {α : Type} {i : Nat} {x : EStateM Fault (Bus PagedMemory) α}
    {bus : Bus PagedMemory} {r : Option Fault} {v : α} {patch : Patch}
    (hx : Accesses i x bus r v patch) (h : bus.Coherent) (hi : bus.isRegistered i = true) :
    bus.Written i (if r = none then patch else .none) (finalState x bus) := by
  cases r with
  | none =>
    obtain ⟨bus', hrun, hw⟩ := hx.accepted rfl
    rw [finalState_of_ok hrun]
    exact hw
  | some fault =>
    obtain ⟨bus', hrun, hs⟩ := hx.refused rfl
    rw [finalState_of_error hrun]
    exact hs.written h hi

/-! ## What is refused -/

/-- An access is accepted if it is aligned and its first halfword lies in memory. The second one
does then. -/
theorem refusal_eq_none_iff {bus : Bus PagedMemory} {a : Address} {width : Width} :
    bus.refusal a width = none ↔ a % width.bytes = 0 ∧ bus.memory.HasHalf a.halfword := by
  unfold refusal
  constructor
  · intro h
    split at h
    · cases h
    · next ha =>
      split at h
      · cases h
      · next hs =>
        exact ⟨Decidable.not_not.1 ha, Address.halfword_even a, Nat.not_lt.1 hs⟩
  · rintro ⟨ha, hs⟩
    rw [if_neg fun hn => hn ha, if_neg (Nat.not_lt.2 hs.inside)]

/-- An address that is a multiple of a width above one is even. -/
theorem even_of_aligned {a : Address} {width : Width} (h : a % width.bytes = 0)
    (hw : width ≠ .byte) : a % 2 = 0 := by
  cases width with
  | byte => exact absurd rfl hw
  | half => exact h
  | word =>
    rw [Address.even_iff]
    have := Address.dvd_four_iff.1 h
    omega

/-- The halfwords of a word lie at even addresses. -/
theorem even_of_word {a : Address} (ha : a % 4 = 0) : a % 2 = 0 ∧ (a + 2) % 2 = 0 := by
  have hn := Address.toNat_add_two ha
  rw [Address.dvd_four_iff] at ha
  rw [Address.even_iff, Address.even_iff]
  omega

/-- What is refused depends on the size of memory only. -/
theorem refusal_congr {bus bus' : Bus PagedMemory}
    (h : bus'.memory.pageCount = bus.memory.pageCount) (a : Address) (width : Width) :
    bus'.refusal a width = bus.refusal a width := by
  rw [refusal, refusal, PagedMemory.size, PagedMemory.size, h]

/-- A word that is not refused is aligned. -/
theorem aligned_of_refusal {bus : Bus PagedMemory} {a : Address}
    (h : bus.refusal a .word = none) : a % 4 = 0 :=
  (refusal_eq_none_iff.1 h).1

/-- A word is written as two halfwords, low half first. -/
theorem patch_word (bus : Bus PagedMemory) (a : Address) (v : UInt32) (b : Address) :
    bus.patch a v .word b =
      (if b = a + 2 then some (highHalf v) else none).or
        (if b = a then some (lowHalf v) else none) :=
  rfl

/-- An aligned access outside memory is refused with the address of its halfword. -/
theorem refusal_of_not_hasHalf {bus : Bus PagedMemory} {a : Address} {width : Width}
    (h : a % width.bytes = 0) (ha : ¬ bus.memory.HasHalf a.halfword) :
    bus.refusal a width = some (.memory (.outOfBounds a.halfword 2)) := by
  have hs : bus.memory.size < a.halfword.toNat + 2 :=
    Nat.lt_of_not_le fun hle => ha ⟨Address.halfword_even a, hle⟩
  rw [refusal, if_neg fun hn => hn h, if_pos hs]

/-- An aligned address passes. -/
theorem checkAlignment_of_dvd {β : Type} {a : Address} {width : UInt32} (h : a % width = 0)
    (bus : Bus β) : checkAlignment a width bus = .ok () bus := by
  rw [checkAlignment, if_pos h]
  rfl

/-- Any other is reported, and nothing is done. -/
theorem checkAlignment_of_not_dvd {β : Type} {a : Address} {width : UInt32} (h : a % width ≠ 0)
    (bus : Bus β) : checkAlignment a width bus = .error (.unalignedAccess a) bus := by
  rw [checkAlignment, if_neg h]
  rfl

/-! ## Composition -/

variable {α γ : Type} {bus : Bus PagedMemory} {i : Nat} {a : Address} {width : Width} {v : α}
  {patch : Patch} {r : Option Fault}

/-- An access may be followed by a computation on its answer. -/
theorem Accesses.map {x : EStateM Fault (Bus PagedMemory) α} (h : Accesses i x bus r v patch)
    (f : α → γ) : Accesses i (do return f (← x)) bus r (f v) patch where
  accepted hr := by
    obtain ⟨bus', hx, hw⟩ := h.accepted hr
    exact ⟨bus', bind_of_ok hx, hw⟩
  refused hr := by
    obtain ⟨bus', hx, hs⟩ := h.refused hr
    exact ⟨bus', bind_of_error hx, hs⟩

/-- An aligned access does what is said if it does so within memory, and fails elsewhere. -/
theorem Accesses.of_aligned {x : EStateM Fault (Bus PagedMemory) α} (ha : a % width.bytes = 0)
    (hin : bus.memory.HasHalf a.halfword → ∃ bus', x bus = .ok v bus' ∧ bus.Written i patch bus')
    (hout : ¬ bus.memory.HasHalf a.halfword →
      ∃ bus', x bus = .error (.memory (.outOfBounds a.halfword 2)) bus' ∧ bus.Same i bus') :
    Accesses i x bus (bus.refusal a width) v patch where
  accepted hr := hin (refusal_eq_none_iff.1 hr).2
  refused {fault} hr := by
    have hn : ¬ bus.memory.HasHalf a.halfword := fun hh => by
      rw [refusal_eq_none_iff.2 ⟨ha, hh⟩] at hr
      cases hr
    rw [refusal_of_not_hasHalf ha hn] at hr
    cases hr
    exact hout hn

/-- The check of the alignment leaves the rest of an access to do. -/
theorem Accesses.checked {x : EStateM Fault (Bus PagedMemory) α}
    (h : a % width.bytes = 0 → Accesses i x bus (bus.refusal a width) v patch) :
    Accesses i (do checkAlignment a width.bytes; x) bus (bus.refusal a width) v patch := by
  by_cases ha : a % width.bytes = 0
  · have hcheck := checkAlignment_of_dvd ha bus
    refine ⟨fun hr => ?_, fun hr => ?_⟩
    · obtain ⟨bus', hx, hw⟩ := (h ha).accepted hr
      exact ⟨bus', (bind_of_ok hcheck).trans hx, hw⟩
    · obtain ⟨bus', hx, hs⟩ := (h ha).refused hr
      exact ⟨bus', (bind_of_ok hcheck).trans hx, hs⟩
  · have hr : bus.refusal a width = some (.unalignedAccess a) := if_pos ha
    refine ⟨fun hn => ?_, fun {fault} hf => ?_⟩
    · rw [hr] at hn
      cases hn
    · rw [hr] at hf
      cases hf
      exact ⟨bus, bind_of_error (checkAlignment_of_not_dvd ha bus), .refl bus i⟩

/-! ## Loads -/

section
variable (h : bus.Coherent) (hi : bus.isRegistered i = true)
include h hi

/-- A byte is read from its halfword and writes nothing. -/
theorem readByte_spec (a : Address) :
    Accesses i (readByte i a) bus (bus.refusal a .byte) (bus.byteAt a) .none := by
  have ha : a % Width.byte.bytes = 0 := UInt32.toNat_inj.1 (by simp [Width.bytes])
  refine .of_aligned ha (fun hin => ?_) fun hout => ?_
  · obtain ⟨bus', hx, hw⟩ := fetchHalf_of_hasHalf h hi hin
    exact ⟨bus', bind_of_ok hx, hw⟩
  · obtain ⟨bus', hx, hs⟩ :=
      fetchHalf_of_not_hasHalf h.toFitted hi (Address.halfword_even a) hout
    exact ⟨bus', bind_of_error hx, hs⟩

/-- A halfword is read and writes nothing. -/
theorem readHalf_spec (a : Address) :
    Accesses i (readHalf i a) bus (bus.refusal a .half) (bus.halfAt a) .none := by
  show Accesses i (do checkAlignment a Width.half.bytes; fetchHalf i a) bus _ _ _
  refine .checked fun ha => .of_aligned ha (fun hin => ?_) fun hout => ?_
  · rw [Address.halfword_of_even ha] at hin
    exact fetchHalf_of_hasHalf h hi hin
  · rw [Address.halfword_of_even ha] at hout ⊢
    exact fetchHalf_of_not_hasHalf h.toFitted hi ha hout

/-- A word is put together from two halfwords. -/
theorem readWord_spec (a : Address) :
    Accesses i (readWord i a) bus (bus.refusal a .word)
      (wordOfHalves (bus.halfAt a) (bus.halfAt (a + 2))) .none := by
  show Accesses i (do
    checkAlignment a Width.word.bytes
    let lo ← fetchHalf i a
    let hi ← fetchHalf i (a + 2)
    return wordOfHalves lo hi) bus _ _ _
  refine .checked fun ha => ?_
  have he : a % 2 = 0 := even_of_aligned ha (by decide)
  refine .of_aligned ha (fun hin => ?_) fun hout => ?_
  · rw [Address.halfword_of_even he] at hin
    obtain ⟨bus₁, hx₁, hw₁⟩ := fetchHalf_of_hasHalf h hi hin
    have hin₂ : bus₁.memory.HasHalf (a + 2) :=
      hw₁.hasHalf_iff.2 (hin.add_two ha)
    obtain ⟨bus₂, hx₂, hw₂⟩ := fetchHalf_of_hasHalf hw₁.coherent
      ((hw₁.isRegistered i).trans hi) hin₂
    rw [hw₁.halfAt hin₂.even] at hx₂
    exact ⟨bus₂, (bind_of_ok hx₁).trans (bind_of_ok hx₂), hw₁.none_trans hw₂⟩
  · rw [Address.halfword_of_even he] at hout ⊢
    obtain ⟨bus', hx, hs⟩ := fetchHalf_of_not_hasHalf h.toFitted hi he hout
    exact ⟨bus', bind_of_error hx, hs⟩

/-- A load answers the value at its address and changes no value. -/
theorem load_spec (width : Width) (a : Address) :
    Accesses i (load width i a) bus (bus.refusal a width) (bus.valueAt a width) .none := by
  cases width with
  | byte => exact (readByte_spec h hi a).map UInt8.toUInt32
  | half => exact (readHalf_spec h hi a).map UInt16.toUInt32
  | word => exact readWord_spec h hi a

/-! ## Stores -/

/-- A byte is written into its halfword, whose other byte stays. -/
theorem writeByte_spec (a : Address) (v : UInt32) :
    Accesses i (writeByte i a v.toUInt8) bus (bus.refusal a .byte) () (bus.patch a v .byte) := by
  have ha : a % Width.byte.bytes = 0 := UInt32.toNat_inj.1 (by simp [Width.bytes])
  refine .of_aligned ha (fun hin => ?_) fun hout => ?_
  · obtain ⟨bus₁, hx₁, hw₁⟩ := fetchHalf_of_hasHalf h hi hin
    obtain ⟨bus₂, hx₂, hw₂⟩ := putHalf_of_hasHalf hw₁.coherent
      ((hw₁.isRegistered i).trans hi)
      (hw₁.hasHalf_iff.2 hin)
      (if a % 2 = 0 then halfOfBytes v.toUInt8 (highByte (bus.halfAt a.halfword))
        else halfOfBytes (lowByte (bus.halfAt a.halfword)) v.toUInt8)
    exact ⟨bus₂, (bind_of_ok hx₁).trans hx₂, hw₁.none_trans hw₂⟩
  · obtain ⟨bus', hx, hs⟩ :=
      fetchHalf_of_not_hasHalf h.toFitted hi (Address.halfword_even a) hout
    exact ⟨bus', bind_of_error hx, hs⟩

/-- A halfword is written. -/
theorem writeHalf_spec (a : Address) (v : UInt32) :
    Accesses i (writeHalf i a v.toUInt16) bus (bus.refusal a .half) () (bus.patch a v .half) := by
  show Accesses i (do checkAlignment a Width.half.bytes; putHalf i a v.toUInt16) bus _ _ _
  refine .checked fun ha => .of_aligned ha (fun hin => ?_) fun hout => ?_
  · rw [Address.halfword_of_even ha] at hin
    exact putHalf_of_hasHalf h hi hin v.toUInt16
  · rw [Address.halfword_of_even ha] at hout ⊢
    exact ⟨bus, putHalf_of_not_hasHalf h.toFitted hi ha hout _, .refl bus i⟩

/-- A word is written half by half. The second write is accepted if the first was. -/
theorem writeWord_spec (a : Address) (v : UInt32) :
    Accesses i (writeWord i a v) bus (bus.refusal a .word) () (bus.patch a v .word) := by
  show Accesses i (do
    checkAlignment a Width.word.bytes
    putHalf i a (lowHalf v)
    putHalf i (a + 2) (highHalf v)) bus _ _ _
  refine .checked fun ha => ?_
  have he : a % 2 = 0 := even_of_aligned ha (by decide)
  refine .of_aligned ha (fun hin => ?_) fun hout => ?_
  · rw [Address.halfword_of_even he] at hin
    obtain ⟨bus₁, hx₁, hw₁⟩ := putHalf_of_hasHalf h hi hin (lowHalf v)
    obtain ⟨bus₂, hx₂, hw₂⟩ := putHalf_of_hasHalf hw₁.coherent
      ((hw₁.isRegistered i).trans hi)
      (hw₁.hasHalf_iff.2 (hin.add_two ha)) (highHalf v)
    exact ⟨bus₂, (bind_of_ok hx₁).trans hx₂, hw₁.trans hw₂⟩
  · rw [Address.halfword_of_even he] at hout ⊢
    exact ⟨bus, bind_of_error (putHalf_of_not_hasHalf h.toFitted hi he hout _), .refl bus i⟩

/-- A store replaces the value at its address and no other. -/
theorem storeAt_spec (width : Width) (a : Address) (v : UInt32) :
    Accesses i (storeAt width i a v) bus (bus.refusal a width) () (bus.patch a v width) := by
  cases width with
  | byte => exact writeByte_spec h hi a v
  | half => exact writeHalf_spec h hi a v
  | word => exact writeWord_spec h hi a v

end

end Bus

end Multicore
