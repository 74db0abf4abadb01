import Multicore.Proofs.Coherence.Bystanders
import Multicore.Proofs.Machine.BusUse

/-!
# What a core does to the others

A core cannot disturb another one. Whatever is done with it, on whatever memory, the other cores are
as before, with their registers, their frames and their instruction caches, and their data caches
have been thinned at most: lines of them are gone or clean, but none is new, and none has another
value or another place in the order of use (`Machine.others_undisturbed`).
-/

namespace Multicore

variable {β : Type} [PhysicalMemory β]

/-- To the data caches of the others a core does no more than to thin them. -/
theorem Bus.allowsCore_thinsOthers (i : Nat) : AllowsCore i (ThinsOthers i (β := β)) where
  toChains := chains_thinsOthers i
  readWord _ := thinsOthers_onMemory i _
  loadVector _ _ := thinsOthers_onMemory i _
  allocatePage _ := thinsOthers_onMemory i _
  describePage _ := thinsOthers_onMemory i _
  freePage _ := thinsOthers_onMemory i _
  load := (allowsParts_thinsOthers i).load
  storeAt := (allowsParts_thinsOthers i).storeAt
  release _ _ _ := thinsOthers_onStore i _
  discard bus selector j _ := thinned_broadcast bus none selector false true j
  register bus j _ := .refl (bus.store j)
  unregister bus j _ := .refl (bus.store j)

namespace Machine

/-- The number of each core is its place. -/
def Numbered (m : Machine β) : Prop :=
  ∀ (i : Nat) (core : Core), m.cores[i]? = some core → core.id = i

variable {m : Machine β}

omit [PhysicalMemory β] in
/-- The cores of a new machine are numbered. -/
theorem numbered_new (p : Platform) (memory : β) (cores instructionCapacity dataCapacity : Nat)
    (recording : Bool) :
    (Machine.new p memory cores instructionCapacity dataCapacity recording).Numbered := by
  intro i core h
  rw [getElem?_cores_new p memory cores instructionCapacity dataCapacity recording h]
  rfl

/-- No core gets another number. -/
theorem Numbered.operation (h : m.Numbered) (i : Nat) (op : Operation) :
    (op.onMachine m i).Numbered := by
  unfold Operation.onMachine
  rcases hn : m.node? i with _ | n
  · exact h
  · have hid := (op.staysWithin_perform Bus.allowsCore_thinsOthers m.platform n).1
    intro j core hj
    by_cases hji : j = i
    · subst hji
      cases (node?_eq_some_iff.1 (node?_setNode_self hn)).1.symm.trans hj
      exact hid.trans (h j _ (node?_eq_some_iff.1 hn).1)
    · have hcores : (m.setNode i (op.perform m.platform n)).cores[j]? = m.cores[j]? :=
        List.getElem?_set_ne (Ne.symm hji)
      exact h j core (hcores ▸ hj)

/-- A run leaves the numbers of the cores. -/
theorem Numbered.runOn (h : m.Numbered) (ops : List (Nat × Operation)) :
    (Operation.runOn m ops).Numbered := by
  induction ops generalizing m with
  | nil => exact h
  | cons op rest ih => exact ih (h.operation op.1 op.2)

/-- What is done with a core leaves the others alone, but for the lines that it takes from their
data caches. -/
theorem Numbered.undisturbed (h : m.Numbered) (op : Operation) {i j : Nat} (hj : j ≠ i) :
    (op.onMachine m i).cores[j]? = m.cores[j]? ∧
      (m.bus.store j).Thinned ((op.onMachine m i).bus.store j) := by
  unfold Operation.onMachine
  rcases hn : m.node? i with _ | n
  · exact ⟨rfl, .refl (m.bus.store j)⟩
  · obtain ⟨hc, hshared⟩ := node?_eq_some_iff.1 hn
    have hbus := (op.staysWithin_perform Bus.allowsCore_thinsOthers m.platform n).2 j
      (by rwa [h i _ hc])
    rw [congrArg Shared.bus hshared] at hbus
    exact ⟨List.getElem?_set_ne hj.symm, hbus⟩

/-- In every state that a machine can reach, whatever is done with a core, be it that it executes an
instruction or gets an interrupt, every other core is as before. The data cache of that core has no
line that it did not have, its values and its order of use are as before, and lines of it are gone
or clean at most. -/
theorem others_undisturbed (p : Platform) (memory : β)
    (cores instructionCapacity dataCapacity : Nat) (recording : Bool)
    (ops : List (Nat × Operation)) (op : Operation) {i j : Nat} (hj : j ≠ i) :
    let m := Operation.runOn
      (Machine.new p memory cores instructionCapacity dataCapacity recording) ops
    (op.onMachine m i).cores[j]? = m.cores[j]? ∧
      (m.bus.store j).Thinned ((op.onMachine m i).bus.store j) :=
  ((numbered_new p memory cores instructionCapacity dataCapacity recording).runOn ops).undisturbed
    op hj

/-- A core has stored two words, and another one stores to the first of them. The core loses its
lines of that word. It keeps those of the other, in their order, and all else. -/
theorem others_undisturbed_by_store :
    let memory := (PagedMemory.ofSize 256).setBytes 0 (bytesOfWords [0x80028, 0xc0028])
    let ops :=
      [(0, .boot ⟨0, 0, 0, 0, true⟩), (1, .boot ⟨0, 0, 0, 0, true⟩), (1, .step), (1, .step)]
    let m := Operation.runOn (Machine.new {} memory 2 4 4 false) ops
    let m' := Operation.step.onMachine m 0
    (m.bus.store 1).lines.keys = [8, 10, 12, 14] ∧ (m'.bus.store 1).lines.keys = [12, 14] ∧
      1 ≠ 0 ∧ m'.cores[1]? = m.cores[1]? ∧ (m.bus.store 1).Thinned (m'.bus.store 1) := by
  intro memory ops m m'
  have hne : 1 ≠ 0 := by decide
  have h := others_undisturbed {} memory 2 4 4 false ops .step hne
  subst m' m
  exact ⟨by decide +kernel, by decide +kernel, hne, h⟩

end Machine

end Multicore
