import Mathlib.Data.Nat.ModEq
import Multicore.Proofs.Computation
import Multicore.Proofs.Memory.Contents

/-!
# Interrupt vectors in a paged memory

The record with some number is looked up at an address that wraps: numbers that differ by a
multiple of `0x40000000` name one record (`mul_vectorSize_inj`), and a number is that of a record of
the table exactly if it is below the number of records up to such a multiple
(`vectorAddress_in_table_iff`).
Memory has a record at an address if the address is aligned and the twelve bytes lie in memory
(`PagedMemory.HasVector`), and then it is looked up (`PagedMemory.loadVector_eq_ok_iff`).
-/

namespace Multicore

/-! ## The numbers of a table -/

/-- Two numbers are those of one record if they differ by a multiple of `0x40000000`, with which the
table goes around the address space. -/
theorem mul_vectorSize_inj {i k : UInt32} : k * vectorSize = i * vectorSize ↔
    k.toNat % 0x40000000 = i.toNat % 0x40000000 := by
  have hmul : ∀ j : UInt32, (j * vectorSize).toNat = 4 * (3 * j.toNat) % (4 * 0x40000000) := by
    intro j
    have hsize : vectorSize.toNat = 12 := rfl
    rw [UInt32.toNat_mul, hsize, ← Nat.mul_assoc, Nat.mul_comm]
  rw [← UInt32.toNat_inj, hmul, hmul]
  exact (Nat.ModEq.mul_left_cancel_iff' (by decide)).trans
    ⟨Nat.ModEq.cancel_left_of_coprime (by decide), Nat.ModEq.mul_left 3⟩

/-- A number stands for a record of the table if it is the number of one, up to multiples of
`0x40000000`, with which the table goes around the address space. -/
theorem vectorAddress_in_table_iff (table : Address) (index : UInt32) :
    (∃ k < vectorCount, PhysicalMemory.vectorAddress table k =
        PhysicalMemory.vectorAddress table index) ↔
      index.toNat % 0x40000000 < vectorCount.toNat := by
  have hsame : ∀ k, PhysicalMemory.vectorAddress table k =
      PhysicalMemory.vectorAddress table index ↔
        k.toNat % 0x40000000 = index.toNat % 0x40000000 := by
    intro k
    rw [← mul_vectorSize_inj]
    exact UInt32.add_right_inj table
  simp only [hsame]
  have hcount : vectorCount.toNat = 64 := rfl
  constructor
  · rintro ⟨k, hk, he⟩
    have hk' : k.toNat < vectorCount.toNat := hk
    omega
  · intro h
    have hnat : (UInt32.ofNat (index.toNat % 0x40000000)).toNat = index.toNat % 0x40000000 :=
      UInt32.toNat_ofNat_of_lt' (show _ < 4294967296 by omega)
    refine ⟨UInt32.ofNat (index.toNat % 0x40000000), ?_, ?_⟩
    · show (UInt32.ofNat (index.toNat % 0x40000000)).toNat < vectorCount.toNat
      rwa [hnat]
    · rw [hnat, Nat.mod_mod]

/-! ## Records -/

namespace PagedMemory

variable {m m' : PagedMemory} {a : Address}

/-- A read succeeds if it is not refused, and changes nothing. -/
theorem readWith_eq_ok_iff {α : Type} {width : UInt32} {f : PagedMemory → Nat → α} {v : α} :
    readWith width f a m = .ok v m' ↔ m.refusal a width = none ∧ v = f m a.toNat ∧ m' = m := by
  unfold readWith
  cases m.refusal a width with
  | none =>
    constructor
    · intro h
      cases h
      exact ⟨rfl, rfl, rfl⟩
    · rintro ⟨-, rfl, rfl⟩
      rfl
  | some e =>
    constructor
    · intro h
      cases h
    · rintro ⟨h, -⟩
      cases h

/-- The record of a vector table that memory has at an address. -/
def vectorAt (m : PagedMemory) (a : Address) : InterruptVector where
  cs := m.halfAt a.toNat
  ds := m.halfAt (a + 2).toNat
  ip := m.wordAt (a + 4).toNat
  sp := m.wordAt (a + 8).toNat

/-- The record at an address can be read: the address is aligned, and all bytes lie within
memory. -/
structure HasVector (m : PagedMemory) (a : Address) : Prop where
  aligned : a % 4 = 0
  inside : a.toNat + 12 ≤ m.size

instance (m : PagedMemory) (a : Address) : Decidable (m.HasVector a) :=
  decidable_of_iff (a % 4 = 0 ∧ a.toNat + 12 ≤ m.size) ⟨fun ⟨h, h'⟩ => ⟨h, h'⟩, fun h => ⟨h.1, h.2⟩⟩

/-- Within memory addresses do not wrap. -/
theorem toNat_add_of_inside {d : UInt32} (h : a.toNat + d.toNat ≤ m.size) :
    (a + d).toNat = a.toNat + d.toNat := by
  have hsize := m.size_lt
  rw [UInt32.toNat_add]
  exact Nat.mod_eq_of_lt (show a.toNat + d.toNat < 4294967296 by omega)

/-- The parts of a record within memory are at addresses that do not wrap. -/
theorem toNat_parts_of_inside (h : a.toNat + 12 ≤ m.size) : (a + 2).toNat = a.toNat + 2 ∧
    (a + 4).toNat = a.toNat + 4 ∧ (a + 8).toNat = a.toNat + 8 := by
  have hpart : ∀ {d : UInt32}, d.toNat ≤ 12 → (a + d).toNat = a.toNat + d.toNat := fun hd =>
    toNat_add_of_inside (m := m) (by omega)
  exact ⟨hpart (d := 2) (by decide), hpart (d := 4) (by decide), hpart (d := 8) (by decide)⟩

/-- A record can be read if its four parts can. -/
theorem hasVector_iff_refusals : m.HasVector a ↔ m.refusal a 2 = none ∧
    m.refusal (a + 2) 2 = none ∧ m.refusal (a + 4) 4 = none ∧ m.refusal (a + 8) 4 = none := by
  simp only [refusal_eq_none_iff, Address.even_iff, Address.dvd_four_iff]
  have htwo : (2 : UInt32).toNat = 2 := rfl
  have hfour : (4 : UInt32).toNat = 4 := rfl
  have height : (8 : UInt32).toNat = 8 := rfl
  have hmod := m.size_mod
  constructor
  · rintro ⟨ha, hin⟩
    rw [Address.dvd_four_iff] at ha
    obtain ⟨h₂, h₄, h₈⟩ := toNat_parts_of_inside hin
    rw [h₂, h₄, h₈]
    omega
  · rintro ⟨⟨ha, hin⟩, -, ⟨ha₄, hin₄⟩, ⟨ha₈, hin₈⟩⟩
    have hwrap : (a + 4).toNat = (a.toNat + 4) % 4294967296 := UInt32.toNat_add ..
    have halign : a.toNat % 4 = 0 := by omega
    -- each part ends within memory, so the next one starts without a wrap
    have h₄ := toNat_add_of_inside (m := m) (a := a) (d := 4) (by omega)
    have h₈ := toNat_add_of_inside (m := m) (a := a) (d := 8) (by omega)
    exact ⟨Address.dvd_four_iff.2 halign, by omega⟩

/-- A record that is loaded is the one that memory has, and it can be read. -/
theorem loadVector_eq_ok_iff {table : Address} {index : UInt32} {v : InterruptVector} :
    PhysicalMemory.loadVector table index m = .ok v m' ↔
      m.HasVector (PhysicalMemory.vectorAddress table index) ∧
        v = m.vectorAt (PhysicalMemory.vectorAddress table index) ∧ m' = m := by
  rw [hasVector_iff_refusals]
  constructor
  · intro h
    obtain ⟨cs, m₁, hcs, h⟩ := of_bind_eq_ok h
    obtain ⟨hr, rfl, rfl⟩ := readWith_eq_ok_iff.1 hcs
    obtain ⟨ds, m₂, hds, h⟩ := of_bind_eq_ok h
    obtain ⟨hr₂, rfl, rfl⟩ := readWith_eq_ok_iff.1 hds
    obtain ⟨ip, m₃, hip, h⟩ := of_bind_eq_ok h
    obtain ⟨hr₄, rfl, rfl⟩ := readWith_eq_ok_iff.1 hip
    obtain ⟨sp, m₄, hsp, h⟩ := of_bind_eq_ok h
    obtain ⟨hr₈, rfl, rfl⟩ := readWith_eq_ok_iff.1 hsp
    cases h
    exact ⟨⟨hr, hr₂, hr₄, hr₈⟩, rfl, rfl⟩
  · rintro ⟨⟨hr, hr₂, hr₄, hr₈⟩, rfl, rfl⟩
    refine (bind_of_ok (readWith_eq_ok_iff.2 ⟨hr, rfl, rfl⟩)).trans ?_
    refine (bind_of_ok (readWith_eq_ok_iff.2 ⟨hr₂, rfl, rfl⟩)).trans ?_
    refine (bind_of_ok (readWith_eq_ok_iff.2 ⟨hr₄, rfl, rfl⟩)).trans ?_
    exact bind_of_ok (readWith_eq_ok_iff.2 ⟨hr₈, rfl, rfl⟩)

/-- What a handler with the stack of a vector needs: a free page in its data segment if it has no
stack pointer, and else 36 words below an aligned stack pointer within memory. -/
def HasStack (m : PagedMemory) (v : InterruptVector) : Prop :=
  if v.sp = 0 then (m.nextFree? (some v.ds.toUInt32)).isSome = true
  else
    let top := segmentAddress v.ds.toUInt32 v.sp
    top % 4 = 0 ∧ 144 ≤ top.toNat ∧ top.toNat ≤ m.size

instance (m : PagedMemory) (v : InterruptVector) : Decidable (m.HasStack v) := by
  unfold HasStack
  infer_instance

end PagedMemory

end Multicore
