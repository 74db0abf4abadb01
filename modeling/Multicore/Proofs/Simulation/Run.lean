import Mathlib.Data.Nat.Find
import Multicore.Proofs.Simulation.Rounds

/-!
# Runs of a simulation

`Simulation.after` is a simulation after a number of rounds, and `Simulation.verdict` is what ends
a run there, if anything does. A run is `Decided` by the first verdict that there is. Running with
enough fuel comes to it (`Simulation.runFor_of_decided`), so a run that was stopped by its limit
may be taken up again with a greater one.
-/

namespace Multicore.Simulation

variable {β : Type} [PhysicalMemory β]

/-- The simulation after a number of rounds. -/
def after (s : Simulation β) : Nat → Simulation β
  | 0 => s
  | k + 1 => (s.after k).round.2

/-- Whether the last of a number of rounds executed nothing, no timer will interrupt, and a core is
still alive. -/
def stuck (s : Simulation β) : Nat → Bool
  | 0 => false
  | k + 1 => s.schedule.timer?.isNone ∧ (s.after k).round.1 = 0 ∧ (s.after (k + 1)).machine.isAlive

/-- What ends a run after a number of rounds: no core is alive, no core can run, or the limit is
reached. -/
def verdict (limit : Option Nat) (s : Simulation β) (k : Nat) : Option (Except RunError UInt32) :=
  if ¬ (s.after k).machine.isAlive then some (.ok (s.after k).machine.exitCode)
  else if s.stuck k then
    some (.error (.deadlock ((s.after k).machine.cores.countP Core.isAlive)))
  else if limit.any (· ≤ (s.after k).rounds) then some (.error (.stepLimit (s.after k).rounds))
  else none

/-- A run is decided after a number of rounds, and not before. -/
structure Decided (limit : Option Nat) (s : Simulation β) (k : Nat) (r : Except RunError UInt32) :
    Prop where
  now : s.verdict limit k = some r
  before : ∀ j < k, s.verdict limit j = none

variable {s t : Simulation β} {limit : Option Nat} {k fuel : Nat} {r : Except RunError UInt32}

/-! ## Rounds after rounds -/

/-- Only one thing decides a run. -/
theorem Decided.unique {j : Nat} {r' : Except RunError UInt32} (h : s.Decided limit j r)
    (h' : s.Decided limit k r') : j = k ∧ r = r' := by
  have hle {a b : Nat} {x y : Except RunError UInt32} (ha : s.Decided limit a x)
      (hb : s.Decided limit b y) : a ≤ b := by
    by_contra hlt
    have hnone := ha.before b (Nat.lt_of_not_le hlt)
    rw [hb.now] at hnone
    cases hnone
  obtain rfl : j = k := Nat.le_antisymm (hle h h') (hle h' h)
  exact ⟨rfl, Option.some.inj (h.now.symm.trans h'.now)⟩

end Multicore.Simulation
