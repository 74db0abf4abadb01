import Multicore.Proofs.Cache.Thinning
import Multicore.Proofs.Coherence.Parts

/-!
# Data caches that stand by

What is done through one data cache reaches the others by broadcasts only, and a broadcast makes
them release lines. So to another cache it can do no more than to thin it (`Bus.ThinsOthers`),
whatever memory does meanwhile, and also if it fails on the way.
-/

namespace Multicore.Bus

variable {β : Type}

/-- Every data cache but `i` has been thinned. -/
def ThinsOthers (i : Nat) (bus bus' : Bus β) : Prop :=
  ∀ j, j ≠ i → (bus.store j).Thinned (bus'.store j)

/-- To thin the others is a relation that chains. -/
theorem chains_thinsOthers (i : Nat) : Chains (ThinsOthers i (β := β)) where
  refl bus j _ := .refl (bus.store j)
  trans h h' j hj := (h j hj).trans (h' j hj)

/-- Memory is none of the data caches. -/
theorem thinsOthers_onMemory (i : Nat) {α : Type} (x : EStateM MemoryError β α) :
    Within (ThinsOthers i) (onMemory x) := by
  intro bus j _
  rw [finalState_onMemory]
  exact .refl (bus.store j)

/-- What is done with a data cache is not done with the others. -/
theorem thinsOthers_onStore (i : Nat) {α : Type} (x : HalfwordCache.Run β α) :
    Within (ThinsOthers i) (onStore i x) := by
  intro bus j hj
  rw [finalState_onStore, store_put, if_neg hj]
  exact .refl (bus.store j)

/-- A look-up is no matter of the other caches. -/
theorem thinsOthers_lookup (i : Nat) (a : Address) :
    Within (ThinsOthers i) (lookup i a : EStateM Fault (Bus β) (Option UInt16)) := by
  intro bus j hj
  show (bus.store j).Thinned ((bus.setStore i _).store j)
  rw [store_setStore, if_neg hj]
  exact .refl (bus.store j)

variable [PhysicalMemory β]

/-- A release thins the data cache of which it releases lines. -/
theorem thinned_release (i j : Nat) (selector : Selector) (writeback remove : Bool) (bus : Bus β) :
    (bus.store j).Thinned ((finalState (release i selector writeback remove) bus).store j) := by
  by_cases hj : j = i
  · subst hj
    rw [release, finalState_onStore, store_put, if_pos rfl]
    exact HalfwordCache.thins_release selector writeback remove (bus.store j, bus.memory)
  · exact thinsOthers_onStore i _ bus j hj

/-- A broadcast thins the data caches. -/
theorem thinned_broadcast (bus : Bus β) (except : Option Nat) (selector : Selector)
    (writeback remove : Bool) (j : Nat) :
    (bus.store j).Thinned ((bus.broadcast except selector writeback remove).store j) :=
  chains_broadcast (R := fun bus bus' => (bus.store j).Thinned (bus'.store j))
    ⟨fun bus => .refl (bus.store j), HalfwordCache.Thinned.trans⟩
    (fun i bus => thinned_release i j selector writeback remove bus) bus except

/-- Nothing that an access is made of does more to the other data caches. -/
theorem allowsParts_thinsOthers (i : Nat) : AllowsParts i (ThinsOthers i (β := β)) where
  toChains := chains_thinsOthers i
  lookup := thinsOthers_lookup i
  readHalf _ := thinsOthers_onMemory i _
  fill _ _ := thinsOthers_onStore i _
  store _ _ := thinsOthers_onStore i _
  broadcast bus except selector writeback remove j _ :=
    thinned_broadcast bus except selector writeback remove j

end Multicore.Bus
