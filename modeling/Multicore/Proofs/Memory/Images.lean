import Multicore.Memory.Scripted
import Multicore.Proofs.Computation
import Multicore.Proofs.Memory.Pages

/-!
# Images in a paged memory

An image is written all or nothing, in one piece (`PagedMemory.load_of_fits`), and the pages that it
touches are reserved. Both steps accept the images that end within memory, so that an image is
placed exactly if it does (`PagedMemory.placeImage_all_or_nothing`).

A memory may also write an image byte after byte, at addresses that wrap. Memory ends before the
address space does, so the writes stop at the end of memory, and never go on at its beginning
(`PagedMemory.storeBytes_of_not_fits`). An image that is written to its end is therefore one that
ends within memory, and the bytes are the same (`PagedMemory.storeBytes_iff_load`).
-/

namespace Multicore

namespace PagedMemory

variable {m : PagedMemory} {a : Address} {image : List UInt8}

/-! ## In one piece -/

/-- An image that fits is loaded as a whole. -/
theorem load_of_fits (h : a.toNat + image.length ≤ m.size) :
    PhysicalMemory.load a image m = .ok () (m.setBytes a.toNat image) :=
  if_pos h

/-- An image that does not fit is refused before a byte is written. -/
theorem load_of_not_fits (h : m.size < a.toNat + image.length) :
    PhysicalMemory.load a image m = .error (.outOfBounds a image.length.toUInt32) m :=
  if_neg (Nat.not_le.2 h)

/-- What succeeds for the images that end within memory, and fails for every other one. -/
theorem eq_ok_iff_of_fits {r : EStateM.Result MemoryError PagedMemory Unit} {m₁ m' : PagedMemory}
    (hfits : a.toNat + image.length ≤ m.size → r = .ok () m₁)
    (hnot : m.size < a.toNat + image.length → ∃ e m₂, r = .error e m₂) :
    r = .ok () m' ↔ a.toNat + image.length ≤ m.size ∧ m' = m₁ := by
  constructor
  · rintro rfl
    rcases Nat.lt_or_ge m.size (a.toNat + image.length) with hlt | hle
    · obtain ⟨e, m₂, hrun⟩ := hnot hlt
      cases hrun
    · cases hfits hle
      exact ⟨hle, rfl⟩
  · rintro ⟨hle, rfl⟩
    exact hfits hle

/-- What is loaded ends within memory. -/
theorem load_eq_ok_iff {m' : PagedMemory} : PhysicalMemory.load a image m = .ok () m' ↔
    a.toNat + image.length ≤ m.size ∧ m' = m.setBytes a.toNat image :=
  eq_ok_iff_of_fits load_of_fits fun h => ⟨_, _, load_of_not_fits h⟩

/-- The length of an image that fits is known to the reservation. -/
theorem toNat_length_of_fits (h : a.toNat + image.length ≤ m.size) :
    image.length.toUInt32.toNat = image.length := by
  have hsize := m.size_lt
  exact UInt32.toNat_ofNat_of_lt' (by show image.length < 4294967296; omega)

/-- The pages of an image that was loaded can be reserved. -/
theorem reserve_of_load {m' : PagedMemory} (h : PhysicalMemory.load a image m = .ok () m') :
    ∃ m'', PhysicalMemory.reserve a image.length.toUInt32 m' = .ok () m'' ∧
      m'.Marked (Touches a.toNat image.length) m'' := by
  obtain ⟨hfits, rfl⟩ := load_eq_ok_iff.1 h
  have hlength := toNat_length_of_fits hfits
  obtain ⟨-, m'', hrun, hmarked⟩ | ⟨⟨-, hlt⟩, -⟩ :=
    (m.setBytes a.toNat image).reserve_cases a image.length.toUInt32
  · rw [hlength] at hmarked
    exact ⟨m'', hrun, hmarked⟩
  · rw [hlength, size_setBytes] at hlt
    omega

/-- An image that fits is placed: memory holds its bytes, and nothing but the allocation of pages
changes otherwise. -/
theorem placeImage_of_fits (h : a.toNat + image.length ≤ m.size) :
    ∃ m', PhysicalMemory.placeImage a image m = .ok () m' ∧
      (m.setBytes a.toNat image).Marked (Touches a.toNat image.length) m' := by
  have hload := load_of_fits h
  obtain ⟨m', hrun, hmarked⟩ := reserve_of_load hload
  exact ⟨m', (bind_of_ok hload).trans hrun, hmarked⟩

/-- Memory after an image was placed: the image is where it should be, its pages are allocated, and
nothing else changed. -/
structure Placed (m : PagedMemory) (a : Nat) (image : List UInt8) (m' : PagedMemory) : Prop where
  pageCount : m'.pageCount = m.pageCount
  inside : ∀ k (hk : k < image.length), m'.byteAt (a + k) = image[k]
  outside : ∀ b, b < a ∨ a + image.length ≤ b → m'.byteAt b = m.byteAt b
  allocated : ∀ p, p ∈ m'.allocated ↔ Touches a image.length p ∨ p ∈ m.allocated

/-- An image that ends within memory is placed, and every other one is refused and leaves memory as
it was. The pages of an image that was loaded are always reserved. -/
theorem placeImage_all_or_nothing (m : PagedMemory) (a : Address) (image : List UInt8) :
    (if a.toNat + image.length ≤ m.size then
      ∃ m', PhysicalMemory.placeImage a image m = .ok () m' ∧ m.Placed a.toNat image m'
    else PhysicalMemory.placeImage a image m = .error (.outOfBounds a image.length.toUInt32) m) ∧
      ∀ m₁, PhysicalMemory.load a image m = .ok () m₁ →
        ∃ m₂, PhysicalMemory.reserve a image.length.toUInt32 m₁ = .ok () m₂ := by
  refine ⟨?_, fun m₁ h => ?_⟩
  · split
    · next h =>
      obtain ⟨m', hrun, hmarked⟩ := placeImage_of_fits h
      refine ⟨m', hrun, hmarked.pageCount.trans (setBytes_pageCount ..), fun k hk => ?_,
        fun b hb => ?_, fun p => ?_⟩
      · rw [hmarked.bytes, byteAt_setBytes_add _ _ _ hk]
      · rw [hmarked.bytes, byteAt_setBytes_of_outside _ hb]
      · rw [hmarked.allocated, allocated_setBytes]
    · next h => exact bind_of_error (load_of_not_fits (Nat.lt_of_not_le h))
  · obtain ⟨m₂, hrun, -⟩ := reserve_of_load h
    exact ⟨m₂, hrun⟩

/-! ## Byte after byte -/

/-- A byte in memory is written. -/
theorem writeByte_of_lt (b : UInt8) (h : a.toNat < m.size) :
    PhysicalMemory.writeByte a b m = .ok () (m.setByte a.toNat b) :=
  writeWith_of_accepted (refusal_eq_none_iff.2 ⟨Address.mod_one a, h⟩) [b]

/-- A byte past the end is refused. -/
theorem writeByte_of_le (b : UInt8) (h : m.size ≤ a.toNat) :
    PhysicalMemory.writeByte a b m = .error (.outOfBounds a 1) m := by
  show writeWith 1 a [b] m = _
  rw [writeWith, refusal_of_lt (Address.mod_one a) (Nat.lt_succ_of_le h)]

/-- The address behind one within memory does not wrap. -/
theorem toNat_succ_of_lt (h : a.toNat < m.size) : (a + 1).toNat = a.toNat + 1 := by
  have hsize := m.size_lt
  rw [UInt32.toNat_add]
  exact Nat.mod_eq_of_lt (show a.toNat + 1 < 4294967296 by omega)

/-- An image that ends within memory is written to its end. -/
theorem storeBytes_of_fits (h : a.toNat + image.length ≤ m.size) :
    storeBytes PhysicalMemory.writeByte a image m = .ok () (m.setBytes a.toNat image) := by
  induction image generalizing m a with
  | nil => rfl
  | cons b rest ih =>
    rw [List.length_cons] at h
    have hlt : a.toNat < m.size := by omega
    have hnext := toNat_succ_of_lt hlt
    refine (bind_of_ok (writeByte_of_lt b hlt)).trans ?_
    rw [ih (by rw [hnext]; show a.toNat + 1 + rest.length ≤ m.size; omega), hnext]
    rfl

/-- Of any other image, the bytes that lie within memory are written. It stops at the end of memory,
or where it starts if that is beyond. -/
theorem storeBytes_of_not_fits (hne : image ≠ []) (h : m.size < a.toNat + image.length) :
    storeBytes PhysicalMemory.writeByte a image m =
      .error (.outOfBounds (max a.toNat m.size).toUInt32 1)
        (m.setBytes a.toNat (image.take (m.size - a.toNat))) := by
  induction image generalizing m a with
  | nil => exact absurd rfl hne
  | cons b rest ih =>
    rw [List.length_cons] at h
    rcases Nat.lt_or_ge a.toNat m.size with hlt | hle
    · -- the next byte is not the first one of memory, and there is one, or the image would fit
      have hnext := toNat_succ_of_lt hlt
      have hrest : rest ≠ [] := by
        rintro rfl
        rw [List.length_nil] at h
        omega
      have hsize : (m.setByte a.toNat b).size = m.size := rfl
      have hroom : m.size - a.toNat = (m.size - (a.toNat + 1)) + 1 := by omega
      refine (bind_of_ok (writeByte_of_lt b hlt)).trans ?_
      rw [ih hrest (by rw [hnext, hsize]; omega), hnext, hsize, hroom, Nat.max_eq_right hlt,
        Nat.max_eq_right (Nat.le_of_lt hlt)]
      rfl
    · refine (bind_of_error (writeByte_of_le b hle)).trans ?_
      rw [Nat.max_eq_left hle, Nat.sub_eq_zero_of_le hle]
      congr
      exact (UInt32.ofNat_toNat).symm

/-- No image is written below the address where it starts, whatever comes of it. -/
theorem byteAt_storeBytes_of_lt (m : PagedMemory) (a : Address) (image : List UInt8) {b : Nat}
    (hb : b < a.toNat) :
    (finalState (storeBytes PhysicalMemory.writeByte a image) m).byteAt b = m.byteAt b := by
  rcases Nat.lt_or_ge m.size (a.toNat + image.length) with hlt | hle
  · by_cases hne : image = []
    · subst hne
      rfl
    · rw [finalState_of_error (storeBytes_of_not_fits hne hlt),
        byteAt_setBytes_of_outside _ (.inl hb)]
  · rw [finalState_of_ok (storeBytes_of_fits hle), byteAt_setBytes_of_outside _ (.inl hb)]

/-- An image that is written to its end ends within memory. -/
theorem storeBytes_eq_ok_iff (hne : image ≠ []) {m' : PagedMemory} :
    storeBytes PhysicalMemory.writeByte a image m = .ok () m' ↔
      a.toNat + image.length ≤ m.size ∧ m' = m.setBytes a.toNat image :=
  eq_ok_iff_of_fits storeBytes_of_fits fun h => ⟨_, _, storeBytes_of_not_fits hne h⟩

end PagedMemory

namespace ScriptedMemory

/-- Without rules an operation is what it is on the memory behind. -/
theorem guarded_nil {α : Type} (op : MemoryOperation) (place : UInt32) (e : MemoryError)
    (x : EStateM MemoryError PagedMemory α) (m : PagedMemory) :
    guarded op place e x ⟨m, []⟩ = match x m with
      | .ok answer m' => .ok answer ⟨m', []⟩
      | .error e m' => .error e ⟨m', []⟩ := by
  rcases hrun : x m with ⟨answer, m'⟩ | ⟨e, m'⟩
  · simp [guarded, RefusalRule.judge, hrun]
  · simp [guarded, RefusalRule.judge, hrun]

/-- So an image is written byte after byte. -/
theorem load_nil (m : PagedMemory) (a : Address) (image : List UInt8) :
    PhysicalMemory.load a image (⟨m, []⟩ : ScriptedMemory) =
      match storeBytes PhysicalMemory.writeByte a image m with
      | .ok _ m' => .ok () ⟨m', []⟩
      | .error e m' => .error e ⟨m', []⟩ := by
  show storeBytes PhysicalMemory.writeByte a image (⟨m, []⟩ : ScriptedMemory) = _
  induction image generalizing m a with
  | nil => rfl
  | cons b rest ih =>
    have hwrite := guarded_nil .writeByte a (.outOfBounds a 1) (PhysicalMemory.writeByte a b) m
    rcases hrun : PhysicalMemory.writeByte a b m with ⟨_, m'⟩ | ⟨e, m'⟩
    · rw [hrun] at hwrite
      rw [storeBytes, storeBytes, bind_of_ok hrun]
      exact (bind_of_ok hwrite).trans (ih m' (a + 1))
    · rw [hrun] at hwrite
      rw [storeBytes, storeBytes, bind_of_error hrun]
      exact bind_of_error hwrite

end ScriptedMemory

namespace PagedMemory

/-- An image of at least one byte is written to its end, byte after byte, exactly if it is loaded in
one piece, and then both leave the same memory. This holds for the writes alone and for a memory
that leaves the load to them. In no case are bytes below the image written. -/
theorem storeBytes_iff_load (m : PagedMemory) (a : Address) {image : List UInt8}
    (hne : image ≠ []) :
    (∀ m', storeBytes PhysicalMemory.writeByte a image m = .ok () m' ↔
      PhysicalMemory.load a image m = .ok () m') ∧
    (∀ m', PhysicalMemory.load a image (⟨m, []⟩ : ScriptedMemory) = .ok () ⟨m', []⟩ ↔
      PhysicalMemory.load a image m = .ok () m') ∧
    ∀ b < a.toNat,
      (finalState (storeBytes PhysicalMemory.writeByte a image) m).byteAt b = m.byteAt b := by
  have hiff : ∀ m', storeBytes PhysicalMemory.writeByte a image m = .ok () m' ↔
      PhysicalMemory.load a image m = .ok () m' := fun m' =>
    (storeBytes_eq_ok_iff hne).trans load_eq_ok_iff.symm
  refine ⟨hiff, fun m' => ?_, fun b hb => m.byteAt_storeBytes_of_lt a image hb⟩
  rw [← hiff, ScriptedMemory.load_nil]
  rcases storeBytes PhysicalMemory.writeByte a image m with ⟨_, m₁⟩ | ⟨e, m₁⟩
  · simp
  · simp

/-- In the largest memory, two bytes at the last address are refused, and the first byte of memory,
at the address that follows, is not written. -/
theorem storeBytes_iff_load_of_last_address :
    let m := ofSize 0xffffffff
    ([1, 2] : List UInt8) ≠ [] ∧
      (∀ m', storeBytes PhysicalMemory.writeByte 0xffffffff [1, 2] m ≠ .ok () m') ∧
      (finalState (storeBytes PhysicalMemory.writeByte 0xffffffff [1, 2]) m).byteAt 0 = 0 := by
  intro m
  have hne : ([1, 2] : List UInt8) ≠ [] := nofun
  obtain ⟨hiff, -, hbelow⟩ := storeBytes_iff_load m 0xffffffff hne
  refine ⟨hne, fun m' h => ?_, ?_⟩
  · obtain ⟨hfits, -⟩ := load_eq_ok_iff.1 ((hiff m').1 h)
    exact absurd hfits (by decide)
  · rw [hbelow 0 (by decide)]
    rfl

end PagedMemory

end Multicore
