import Multicore.Proofs.Cache.Eviction
import Multicore.Proofs.Coherence.Parts

/-!
# What accesses leave alone in memory

All that the data caches do with memory is to read and to write halfwords. So what can be seen of
memory and is changed by neither (`PhysicalMemory.Unaffected`) is changed by no release, broadcast,
load or store, on whatever memory, and also if memory fails on the way. The pages of a paged memory
and their allocation are such a view.
-/

namespace Multicore

variable {β δ : Type} [PhysicalMemory β] {view : β → δ}

/-- Reads and writes of halfwords do not change what is seen of memory, whether they succeed or
fail. -/
structure PhysicalMemory.Unaffected (view : β → δ) : Prop where
  readHalf : ∀ a, Preserves view (PhysicalMemory.readHalf a)
  writeHalf : ∀ a v, Preserves view (PhysicalMemory.writeHalf a v)

/-! ## Caches -/

namespace HalfwordCache

/-- What is seen of the memory behind a cache. -/
abbrev behind (view : β → δ) (t : HalfwordCache × β) : δ := view t.2

section
variable (hview : PhysicalMemory.Unaffected view)
include hview

/-- An insertion writes to memory at most, where it evicts a dirty line. -/
theorem preserves_insert (a : Address) (line : CacheLine) :
    Preserves (behind view) (insert a line) := by
  rintro ⟨s, memory⟩
  obtain ⟨s', hrun, -⟩ | ⟨victim, ⟨_ | _, value⟩, s', -, -, hrun⟩ := insert_cases s memory a line
  · rw [finalState_of_ok hrun]
  · rw [finalState_of_ok hrun]
  · have hwrite := hview.writeHalf victim value memory
    rcases hw : PhysicalMemory.writeHalf victim value memory with ⟨_, memory'⟩ | ⟨e, memory'⟩
    · simp only [if_true, hw] at hrun
      rw [finalState_of_ok hw] at hwrite
      rw [finalState_of_ok hrun]
      exact hwrite
    · simp only [if_true, hw] at hrun
      rw [finalState_of_error hw] at hwrite
      rw [finalState_of_error hrun]
      exact hwrite

/-- A line that is filled in is inserted. -/
theorem preserves_fill (a : Address) (value : UInt16) :
    Preserves (behind view) (fill a value) :=
  fun t => preserves_insert hview a ⟨false, value⟩ ({ t.1 with misses := t.1.misses + 1 }, t.2)

/-- A line that is stored to is inserted. -/
theorem preserves_store (a : Address) (value : UInt16) :
    Preserves (behind view) (store a value) :=
  preserves_insert hview a ⟨true, value⟩

/-- A line is written back by one write. -/
theorem preserves_memory_writeBack (a : Address) : Preserves (behind view) (writeBack a) := by
  rintro ⟨s, memory⟩
  rcases writeBack_cases s memory a with ⟨hrun, -⟩ | ⟨value, -, hrun⟩
  · rw [finalState_of_ok hrun]
  · have hwrite := hview.writeHalf a value memory
    rcases hw : PhysicalMemory.writeHalf a value memory with ⟨_, memory'⟩ | ⟨e, memory'⟩
    · rw [hw] at hrun
      rw [finalState_of_ok hw] at hwrite
      rw [finalState_of_ok hrun]
      exact hwrite
    · rw [hw] at hrun
      rw [finalState_of_error hw] at hwrite
      rw [finalState_of_error hrun]
      exact hwrite

/-- A release writes lines back, one after the other, and then drops them. -/
theorem preserves_releaseInOrder (order keys : List Address) (writeback remove : Bool) :
    Preserves (behind view) (releaseInOrder order keys writeback remove) := by
  have hwrite := Preserves.forM order (preserves_memory_writeBack hview)
  cases writeback with
  | false => cases remove <;> exact fun _ => rfl
  | true => cases remove <;> exact .bind hwrite fun _ _ => rfl

/-- A release that goes by the order of the cache is one of them. -/
theorem preserves_release (selector : Selector) (writeback remove : Bool) :
    Preserves (behind view) (release selector writeback remove) :=
  .bind (fun _ => rfl) fun _ => preserves_releaseInOrder hview _ _ writeback remove

end

end HalfwordCache

/-! ## Buses -/

namespace Bus

/-- What is seen of the memory of a bus. -/
abbrev ofMemory (view : β → δ) (bus : Bus β) : δ := view bus.memory

omit [PhysicalMemory β] in
/-- What preserves the view of memory preserves it on the bus. -/
theorem preserves_onMemory {α : Type} {x : EStateM MemoryError β α} (hx : Preserves view x) :
    Preserves (ofMemory view) (onMemory x) := by
  intro bus
  rw [finalState_onMemory]
  exact hx bus.memory

omit [PhysicalMemory β] in
/-- What preserves the view behind a cache preserves it on the bus. -/
theorem preserves_onStore {α : Type} {x : HalfwordCache.Run β α}
    (hx : Preserves (HalfwordCache.behind view) x) (i : Nat) :
    Preserves (ofMemory view) (onStore i x) := by
  intro bus
  rw [finalState_onStore]
  exact hx (bus.store i, bus.memory)

section
variable (hview : PhysicalMemory.Unaffected view)
include hview

/-- A broadcast is a number of releases. -/
theorem ofMemory_broadcast (bus : Bus β) (except : Option Nat) (selector : Selector)
    (writeback remove : Bool) :
    ofMemory view (bus.broadcast except selector writeback remove) = ofMemory view bus :=
  chains_broadcast (Preserves.chains (ofMemory view))
    (preserves_onStore (HalfwordCache.preserves_release hview selector writeback remove)) bus except

/-- Nothing that an access is made of changes what is seen of memory. -/
theorem allowsParts_ofMemory (i : Nat) :
    AllowsParts i fun bus bus' => ofMemory view bus' = ofMemory view bus where
  toChains := Preserves.chains (ofMemory view)
  lookup _ _ := rfl
  readHalf a := preserves_onMemory (hview.readHalf a)
  fill a v := preserves_onStore (HalfwordCache.preserves_fill hview a v) i
  store a v := preserves_onStore (HalfwordCache.preserves_store hview a v) i
  broadcast := ofMemory_broadcast hview

/-- No load changes what is seen of memory. -/
theorem preserves_load (width : Width) (i : Nat) (a : Address) :
    Preserves (ofMemory view) (load width i a) :=
  (allowsParts_ofMemory hview i).load width a

/-- No store changes what is seen of memory. -/
theorem preserves_storeAt (width : Width) (i : Nat) (a : Address) (v : UInt32) :
    Preserves (ofMemory view) (storeAt width i a v) :=
  (allowsParts_ofMemory hview i).storeAt width a v

end

end Bus

/-! ## Pages -/

namespace PagedMemory

/-- The pages that are allocated, and the size of memory, are no concern of the data caches. -/
theorem unaffected_pages :
    PhysicalMemory.Unaffected fun m : PagedMemory => (m.pageCount, m.allocated) where
  readHalf a := (reads_readHalf a).preserves _
  writeHalf a v := preserves_writeWith 2 a (bytesOfHalf v)

end PagedMemory

end Multicore
