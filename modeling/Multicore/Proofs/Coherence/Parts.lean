import Multicore.Proofs.Coherence.Width

/-!
# What accesses are made of

A broadcast is releases, one after the other (`Bus.chains_broadcast`). An access through a data
cache looks a halfword up, reads it from memory, fills the cache or stores into it, and broadcasts.
A relation between buses that holds of each of these, and of one after another, holds of every load
and every store (`Bus.AllowsParts.load`, `Bus.AllowsParts.storeAt`), also if it fails on the way.
-/

namespace Multicore.Bus

variable {β : Type} [PhysicalMemory β] {i : Nat} {R : Bus β → Bus β → Prop}

/-- What holds of every release of lines, and of one thing after another, holds of a broadcast. -/
theorem chains_broadcast (hR : Chains R) {selector : Selector} {writeback remove : Bool}
    (hrelease : ∀ i, Within R (release i selector writeback remove)) (bus : Bus β)
    (except : Option Nat) : R bus (bus.broadcast except selector writeback remove) := by
  unfold broadcast
  generalize bus.registry.toList.filter _ = heard
  induction heard generalizing bus with
  | nil => exact hR.refl bus
  | cons entry rest ih => exact hR.trans (hrelease entry.2 bus) (ih _)

/-- A relation between buses that holds of all that an access through a data cache is made of. -/
structure AllowsParts (i : Nat) (R : Bus β → Bus β → Prop) : Prop extends Chains R where
  lookup : ∀ a, Within R (Bus.lookup i a)
  readHalf : ∀ a, Within R (onMemory (PhysicalMemory.readHalf a))
  fill : ∀ a v, Within R (onStore i (HalfwordCache.fill a v))
  store : ∀ a v, Within R (onStore i (HalfwordCache.store a v))
  broadcast : ∀ bus except selector writeback remove,
    R bus (bus.broadcast except selector writeback remove)

namespace AllowsParts

variable (hR : AllowsParts i R)
include hR

/-- A check of the alignment does nothing. -/
theorem checkAlignment (a : Address) (width : UInt32) :
    Within R (checkAlignment a width : EStateM Fault (Bus β) Unit) :=
  .ite (hR.pure ()) (hR.throw _)

/-- A fetch is a look-up, and on a miss a broadcast, a read and a fill. -/
theorem fetchHalf (a : Address) : Within R (Bus.fetchHalf i a) := by
  refine hR.bind (hR.lookup a) fun found => ?_
  cases found with
  | some value => exact hR.pure value
  | none =>
    refine hR.bind (fun bus => hR.broadcast bus _ _ _ _) fun _ => ?_
    exact hR.bind (hR.readHalf a) fun value => hR.bind (hR.fill a value) fun _ => hR.pure value

/-- A put is a read and a fill on a miss, then a store and a broadcast. -/
theorem putHalf (a : Address) (value : UInt16) : Within R (Bus.putHalf i a value) := by
  have hput : Within R (do
      onStore i (HalfwordCache.store a value)
      modify fun bus => bus.announceWrite i a : EStateM Fault (Bus β) Unit) :=
    hR.bind (hR.store a value) fun _ bus => hR.broadcast bus _ _ _ _
  refine hR.bind (fun bus => hR.refl bus) fun bus => ?_
  exact .ite hput (hR.bind (hR.readHalf a) fun current => hR.bind (hR.fill a current) fun _ => hput)

/-- A load is made of fetches. -/
theorem load (width : Width) (a : Address) : Within R (Bus.load width i a) := by
  cases width with
  | byte => exact hR.bind (hR.bind (hR.fetchHalf _) fun _ => hR.pure _) fun _ => hR.pure _
  | half =>
    exact hR.bind (hR.bind (hR.checkAlignment a 2) fun _ => hR.fetchHalf a) fun _ => hR.pure _
  | word =>
    refine hR.bind (hR.checkAlignment a 4) fun _ => hR.bind (hR.fetchHalf a) fun _ => ?_
    exact hR.bind (hR.fetchHalf _) fun _ => hR.pure _

/-- A store is made of fetches and puts. -/
theorem storeAt (width : Width) (a : Address) (v : UInt32) :
    Within R (Bus.storeAt width i a v) := by
  cases width with
  | byte => exact hR.bind (hR.fetchHalf _) fun _ => hR.putHalf _ _
  | half => exact hR.bind (hR.checkAlignment a 2) fun _ => hR.putHalf a _
  | word =>
    refine hR.bind (hR.checkAlignment a 4) fun _ => hR.bind (hR.putHalf a _) fun _ => ?_
    exact hR.putHalf _ _

end AllowsParts

end Multicore.Bus
