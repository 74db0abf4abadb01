import Multicore.Proofs.Memory.Pages
import Multicore.Proofs.Memory.Vectors

/-!
# Vector tables in a paged memory

A record of a vector table takes twelve bytes (`PagedMemory.bytesOfVector`), at twelve times its
number behind the start of the table. So records with different numbers do not overlap, and a
record stays as it is when others are written (`PagedMemory.vectorAt_setVectors_of_not_listed`).
Of the records that are written for one number the last one stays
(`PagedMemory.vectorAt_setVectors_of_lookup`), which is what a table that was installed is read
back by (`PagedMemory.loadVector_of_installVectors`).
-/

namespace Multicore

namespace PagedMemory

variable {m : PagedMemory} {a table : Address} {i : UInt32} {v : InterruptVector}

/-! ## The bytes of a record -/

/-- The bytes of a record. -/
def bytesOfVector (v : InterruptVector) : List UInt8 :=
  bytesOfHalf v.cs ++ (bytesOfHalf v.ds ++ (bytesOfWord v.ip ++ bytesOfWord v.sp))

/-- A record has twelve bytes. -/
@[simp] theorem length_bytesOfVector (v : InterruptVector) : (bytesOfVector v).length = 12 := rfl

/-- A record within memory is made of twelve bytes in a row. -/
theorem vectorAt_eq (h : a.toNat + 12 ≤ m.size) :
    m.vectorAt a =
      let byte k := m.byteAt (a.toNat + k)
      { cs := halfOfBytes (byte 0) (byte 1)
        ds := halfOfBytes (byte 2) (byte 3)
        ip := wordOfBytes (byte 4) (byte 5) (byte 6) (byte 7)
        sp := wordOfBytes (byte 8) (byte 9) (byte 10) (byte 11) } := by
  obtain ⟨h₂, h₄, h₈⟩ := toNat_parts_of_inside h
  rw [vectorAt, h₂, h₄, h₈]
  rfl

/-- The record at an address depends on its twelve bytes. -/
theorem vectorAt_congr {m' : PagedMemory} (h : a.toNat + 12 ≤ m.size) (hsize : m'.size = m.size)
    (hbytes : ∀ k < 12, m'.byteAt (a.toNat + k) = m.byteAt (a.toNat + k)) :
    m'.vectorAt a = m.vectorAt a := by
  rw [vectorAt_eq h, vectorAt_eq (by rwa [hsize])]
  simp only [hbytes, Nat.reduceLT]

/-- A record that was written is read back. -/
theorem vectorAt_setBytes_bytesOfVector (h : a.toNat + 12 ≤ m.size) (v : InterruptVector) :
    (m.setBytes a.toNat (bytesOfVector v)).vectorAt a = v := by
  have hbyte : ∀ k (hk : k < 12), (m.setBytes a.toNat (bytesOfVector v)).byteAt (a.toNat + k) =
      (bytesOfVector v)[k] := fun k hk => byteAt_setBytes_add _ _ _ hk
  rw [vectorAt_eq (by rwa [size_setBytes])]
  simp only [hbyte, Nat.reduceLT]
  simp [bytesOfVector, bytesOfHalf, bytesOfWord, wordOfBytes]

/-- A record that can be read can be written: its bytes are replaced. -/
theorem storeVector_of_hasVector
    (h : m.HasVector (PhysicalMemory.vectorAddress table i)) (v : InterruptVector) :
    PhysicalMemory.storeVector table i v m =
      .ok () (m.setBytes (PhysicalMemory.vectorAddress table i).toNat (bytesOfVector v)) := by
  obtain ⟨h₀, h₂, h₄, h₈⟩ := hasVector_iff_refusals.1 h
  unfold PhysicalMemory.storeVector
  generalize PhysicalMemory.vectorAddress table i = a at *
  obtain ⟨e₂, e₄, e₈⟩ := toNat_parts_of_inside h.inside
  refine (bind_of_ok (writeWith_of_accepted h₀ (bytesOfHalf v.cs))).trans ?_
  refine (bind_of_ok (writeWith_of_accepted (by rwa [refusal_setBytes])
    (bytesOfHalf v.ds))).trans ?_
  refine (bind_of_ok (writeWith_of_accepted (by rwa [refusal_setBytes, refusal_setBytes])
    (bytesOfWord v.ip))).trans ?_
  refine (writeWith_of_accepted (by rwa [refusal_setBytes, refusal_setBytes, refusal_setBytes])
    (bytesOfWord v.sp)).trans ?_
  rw [bytesOfVector, setBytes_append, setBytes_append, setBytes_append, e₂, e₄, e₈]
  rfl

/-! ## Records of a table -/

/-- The address of a record that ends within memory does not wrap. -/
theorem toNat_vectorAddress (h : table.toNat + 12 * i.toNat + 12 ≤ m.size) :
    (PhysicalMemory.vectorAddress table i).toNat = table.toNat + 12 * i.toNat := by
  have hsize := m.size_lt
  have hoffset : (i * vectorSize).toNat = 12 * i.toNat := by
    rw [UInt32.toNat_mul, Nat.mul_comm]
    exact Nat.mod_eq_of_lt (by show 12 * i.toNat < 4294967296; omega)
  rw [PhysicalMemory.vectorAddress, UInt32.toNat_add, hoffset]
  exact Nat.mod_eq_of_lt (by omega)

/-- A record that ends within memory can be read if its table is aligned. -/
theorem hasVector_vectorAddress (ha : table % 4 = 0)
    (h : table.toNat + 12 * i.toNat + 12 ≤ m.size) :
    m.HasVector (PhysicalMemory.vectorAddress table i) := by
  have hnat := toNat_vectorAddress h
  rw [Address.dvd_four_iff] at ha
  exact ⟨by rw [Address.dvd_four_iff, hnat]; omega, by rw [hnat]; exact h⟩

/-- Memory with records of a table replaced, one after the other. -/
def setVectors (m : PagedMemory) (table : Nat) : List (UInt32 × InterruptVector) → PagedMemory
  | [] => m
  | (i, v) :: rest => (m.setBytes (table + 12 * i.toNat) (bytesOfVector v)).setVectors table rest

variable {vectors : List (UInt32 × InterruptVector)}

/-- Records leave the size of memory. -/
@[simp] theorem size_setVectors (m : PagedMemory) (t : Nat)
    (vectors : List (UInt32 × InterruptVector)) : (m.setVectors t vectors).size = m.size := by
  induction vectors generalizing m with
  | nil => rfl
  | cons e rest ih => rw [setVectors, ih, size_setBytes]

/-- Records leave the allocation of pages. -/
@[simp] theorem allocated_setVectors (m : PagedMemory) (t : Nat)
    (vectors : List (UInt32 × InterruptVector)) :
    (m.setVectors t vectors).allocated = m.allocated := by
  induction vectors generalizing m with
  | nil => rfl
  | cons e rest ih => rw [setVectors, ih, allocated_setBytes]

/-- Records may be written in two parts. -/
theorem setVectors_append (m : PagedMemory) (t : Nat) (xs ys : List (UInt32 × InterruptVector)) :
    m.setVectors t (xs ++ ys) = (m.setVectors t xs).setVectors t ys := by
  induction xs generalizing m with
  | nil => rfl
  | cons e rest ih => rw [List.cons_append, setVectors, setVectors, ih]

/-- Bytes outside of the records that are written stay. -/
theorem byteAt_setVectors_of_outside {t b : Nat}
    (h : ∀ e ∈ vectors, b < t + 12 * e.1.toNat ∨ t + 12 * e.1.toNat + 12 ≤ b) :
    (m.setVectors t vectors).byteAt b = m.byteAt b := by
  induction vectors generalizing m with
  | nil => rfl
  | cons e rest ih =>
    obtain ⟨he, hrest⟩ := List.forall_mem_cons.1 h
    rw [setVectors, ih hrest, byteAt_setBytes_of_outside _ (by rwa [length_bytesOfVector])]

/-- A record that is not written stays. -/
theorem vectorAt_setVectors_of_not_listed (h : table.toNat + 12 * i.toNat + 12 ≤ m.size)
    (hi : ∀ e ∈ vectors, e.1 ≠ i) :
    (m.setVectors table.toNat vectors).vectorAt (PhysicalMemory.vectorAddress table i) =
      m.vectorAt (PhysicalMemory.vectorAddress table i) := by
  have hnat := toNat_vectorAddress h
  refine vectorAt_congr (hnat ▸ h) (size_setVectors ..) fun k hk => ?_
  refine byteAt_setVectors_of_outside fun e he => ?_
  have hne : e.1.toNat ≠ i.toNat := fun heq => hi e he (UInt32.toNat_inj.1 heq)
  omega

/-- Of the records that are written for one number, the last one stays. -/
theorem vectorAt_setVectors_of_lookup (h : table.toNat + 12 * i.toNat + 12 ≤ m.size)
    (hi : vectors.reverse.lookup i = some v) :
    (m.setVectors table.toNat vectors).vectorAt (PhysicalMemory.vectorAddress table i) = v := by
  obtain ⟨later, earlier, hsplit, hlater⟩ := List.lookup_eq_some_iff.1 hi
  have hvectors : vectors = earlier.reverse ++ (i, v) :: later.reverse := by
    rw [← List.reverse_reverse vectors, hsplit]
    simp
  have hnot : ∀ e ∈ later.reverse, e.1 ≠ i := by
    intro e he heq
    have hne := hlater e (List.mem_reverse.1 he)
    simp [heq] at hne
  have hnat := toNat_vectorAddress h
  rw [hvectors, setVectors_append, setVectors,
    vectorAt_setVectors_of_not_listed (by simpa using h) hnot, ← hnat]
  exact vectorAt_setBytes_bytesOfVector (by rw [hnat, size_setVectors]; exact h) v

/-! ## Installation -/

/-- Records that end within memory are written, one after the other. -/
theorem storeVectors_of_inside (ha : table % 4 = 0)
    (h : ∀ e ∈ vectors, table.toNat + 12 * e.1.toNat + 12 ≤ m.size) :
    (vectors.forM fun (i, v) => PhysicalMemory.storeVector table i v :
      EStateM MemoryError PagedMemory PUnit) m = .ok ⟨⟩ (m.setVectors table.toNat vectors) := by
  induction vectors generalizing m with
  | nil => rfl
  | cons e rest ih =>
    obtain ⟨i, v⟩ := e
    obtain ⟨hi, hrest⟩ := List.forall_mem_cons.1 h
    have hstore := storeVector_of_hasVector (hasVector_vectorAddress ha hi) v
    rw [toNat_vectorAddress hi] at hstore
    rw [setVectors]
    refine (bind_of_ok hstore).trans (ih ?_)
    rwa [size_setBytes]

/-- Records that end within memory are installed exactly if the whole table does: the pages of the
table are then allocated. -/
theorem installVectors_cases (ha : table % 4 = 0)
    (h : ∀ e ∈ vectors, table.toNat + 12 * e.1.toNat + 12 ≤ m.size) :
    (table.toNat + 768 ≤ m.size ∧ ∃ m', PhysicalMemory.installVectors table vectors m = .ok () m' ∧
      (m.setVectors table.toNat vectors).Marked (Touches table.toNat 768) m') ∨
    m.size < table.toNat + 768 ∧ PhysicalMemory.installVectors table vectors m =
      .error (.outOfBounds table 768) (m.setVectors table.toNat vectors) := by
  have hrun : PhysicalMemory.installVectors table vectors m =
      PhysicalMemory.reserve table 768 (m.setVectors table.toNat vectors) :=
    bind_of_ok (storeVectors_of_inside ha h)
  have hlength : (768 : UInt32).toNat = 768 := rfl
  rw [hrun]
  obtain ⟨hfits, m', hreserve, hmarked⟩ | ⟨⟨-, hlt⟩, hreserve⟩ :=
    (m.setVectors table.toNat vectors).reserve_cases table 768
  · have hfits := hfits.resolve_left (by decide)
    rw [hlength, size_setVectors] at hfits
    exact .inl ⟨hfits, m', hreserve, hmarked⟩
  · rw [hlength, size_setVectors] at hlt
    exact .inr ⟨hlt, hreserve⟩

/-- Records of an aligned table that end within memory are installed exactly if the whole table ends
within memory. Then every record that was listed is read back, the last one if there are several for
one number, and every other record in memory is read as before. No byte outside of the listed
records changes. The pages that the table touches are allocated, and the others are as before. -/
theorem loadVector_of_installVectors (ha : table % 4 = 0)
    (h : ∀ e ∈ vectors, table.toNat + 12 * e.1.toNat + 12 ≤ m.size) :
    ((∃ m', PhysicalMemory.installVectors table vectors m = .ok () m') ↔
      table.toNat + 768 ≤ m.size) ∧
    ∀ m', PhysicalMemory.installVectors table vectors m = .ok () m' →
      (∀ i ∈ vectors.map Prod.fst, ∃ v, vectors.reverse.lookup i = some v ∧
        PhysicalMemory.loadVector table i m' = .ok v m') ∧
      (∀ i ∉ vectors.map Prod.fst, table.toNat + 12 * i.toNat + 12 ≤ m.size →
        ∃ v, PhysicalMemory.loadVector table i m = .ok v m ∧
          PhysicalMemory.loadVector table i m' = .ok v m') ∧
      (∀ b, (∀ e ∈ vectors, b < table.toNat + 12 * e.1.toNat ∨
          table.toNat + 12 * e.1.toNat + 12 ≤ b) → m'.byteAt b = m.byteAt b) ∧
      ∀ p, p ∈ m'.allocated ↔ Touches table.toNat 768 p ∨ p ∈ m.allocated := by
  obtain ⟨hfits, m₁, hrun, hmarked⟩ | ⟨hlt, hrun⟩ := installVectors_cases ha h
  · refine ⟨iff_of_true ⟨m₁, hrun⟩ hfits, fun m' hrun' => ?_⟩
    cases hrun.symm.trans hrun'
    have hsize : m₁.size = m.size := by rw [hmarked.size_eq, size_setVectors]
    -- the reservation changes no record
    have hload : ∀ {i v}, table.toNat + 12 * i.toNat + 12 ≤ m.size →
        (m.setVectors table.toNat vectors).vectorAt (PhysicalMemory.vectorAddress table i) = v →
        PhysicalMemory.loadVector table i m₁ = .ok v m₁ := by
      intro i v hi hv
      have hvector := hasVector_vectorAddress ha hi
      refine loadVector_eq_ok_iff.2 ⟨hasVector_vectorAddress ha (by rwa [hsize]), ?_, rfl⟩
      rw [← hv, vectorAt_congr (by simpa using hvector.inside) hmarked.size_eq
        fun k _ => hmarked.bytes _]
    refine ⟨fun i hi => ?_, fun i hi hinside => ?_, fun b hb => ?_, fun p => ?_⟩
    · obtain ⟨e, he, rfl⟩ := List.mem_map.1 hi
      obtain ⟨v, hv⟩ := Option.isSome_iff_exists.1 (List.lookup_isSome_iff.2
        ⟨e, List.mem_reverse.2 he, beq_self_eq_true e.1⟩)
      exact ⟨v, hv, hload (h e he) (vectorAt_setVectors_of_lookup (h e he) hv)⟩
    · have hnot : ∀ e ∈ vectors, e.1 ≠ i := fun e he heq => hi (List.mem_map.2 ⟨e, he, heq⟩)
      exact ⟨_, loadVector_eq_ok_iff.2 ⟨hasVector_vectorAddress ha hinside, rfl, rfl⟩,
        hload hinside (vectorAt_setVectors_of_not_listed hinside hnot)⟩
    · rw [hmarked.bytes, byteAt_setVectors_of_outside hb]
    · rw [hmarked.allocated, allocated_setVectors]
  · refine ⟨iff_of_false ?_ (Nat.not_le.2 hlt), fun m' hrun' => ?_⟩
    · rintro ⟨m', hrun'⟩
      cases hrun.symm.trans hrun'
    · cases hrun.symm.trans hrun'

/-- A table at the end of memory, with two records for one number and one for the last number. -/
theorem loadVector_of_installVectors_at_end :
    let m := ofSize 1024
    let vectors : List (UInt32 × InterruptVector) :=
      [(5, ⟨1, 2, 3, 4⟩), (63, ⟨5, 6, 7, 8⟩), (5, ⟨9, 10, 11, 0⟩)]
    (256 : Address) % 4 = 0 ∧
      (∀ e ∈ vectors, (256 : Address).toNat + 12 * e.1.toNat + 12 ≤ m.size) ∧
      ∃ m', PhysicalMemory.installVectors 256 vectors m = .ok () m' ∧
        PhysicalMemory.loadVector 256 5 m' = .ok ⟨9, 10, 11, 0⟩ m' ∧
        PhysicalMemory.loadVector 256 4 m' = .ok ⟨0, 0, 0, 0⟩ m' ∧
        m'.byteAt 255 = 0 ∧ 1 ∈ m'.allocated ∧ 0 ∉ m'.allocated := by
  intro m vectors
  have ha : (256 : Address) % 4 = 0 := rfl
  have h : ∀ e ∈ vectors, (256 : Address).toNat + 12 * e.1.toNat + 12 ≤ m.size := by decide
  obtain ⟨hiff, hinstalled⟩ := loadVector_of_installVectors ha h
  obtain ⟨m', hrun⟩ := hiff.2 (by decide)
  obtain ⟨hlisted, hother, hbytes, hpages⟩ := hinstalled m' hrun
  refine ⟨ha, h, m', hrun, ?_, ?_, ?_, (hpages 1).2 (.inl ⟨256, by decide, by decide, rfl⟩), ?_⟩
  · obtain ⟨v, hv, hload⟩ := hlisted 5 (by decide)
    cases hv
    exact hload
  · obtain ⟨v, hold, hnew⟩ := hother 4 (by decide) (by decide)
    have hzero : v = ⟨0, 0, 0, 0⟩ := (loadVector_eq_ok_iff.1 hold).2.1.trans (by decide +kernel)
    rwa [hzero] at hnew
  · rw [hbytes 255 (by decide)]
    rfl
  · rw [hpages]
    rintro (⟨b, hle, -, hb⟩ | hmem)
    · have hle : 256 ≤ b := hle
      omega
    · exact Std.TreeSet.not_mem_emptyc hmem

end PagedMemory

end Multicore
