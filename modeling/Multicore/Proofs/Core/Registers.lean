import Multicore.Proofs.Core.Steps
import Multicore.Proofs.Instruction.Fields

/-!
# Registers after a write

What is read from a register file after one register was set: from the register itself the value
(`RegisterFile.read_set_self`), but for the flags, which keep six bits only, and from another one
what was there before, if instructions can name both (`RegisterFile.read_set_of_ne`). A core may
write a register unless it is a protected one in unprivileged mode.
-/

namespace Multicore

namespace RegisterFile

/-- What was written to a register other than the flags is read from it. -/
theorem read_set_self (f : RegisterFile) {r : Register} (hr : r ≠ .flags) (v : UInt32) :
    (f.set r v).read r = v := by
  cases r with
  | general number => exact Node.read_set_general f number v
  | cnt => exact UInt32.toUInt32_toUInt64 v
  | flags => exact absurd rfl hr
  | _ => rfl

/-- The registers that instructions can name are apart from each other. -/
theorem read_set_of_ne (f : RegisterFile) {r r' : Register} (hr : r.IsNamed) (hr' : r'.IsNamed)
    (hne : r ≠ r') (v : UInt32) : (f.set r v).read r' = f.read r' := by
  cases r with
  | general number =>
    cases r' with
    | general number' =>
      have hnumber : number.toNat < 30 := hr
      have hnumber' : number'.toNat < 30 := hr'
      have hindex : number.toNat % 30 ≠ number'.toNat % 30 := by
        rw [Nat.mod_eq_of_lt hnumber, Nat.mod_eq_of_lt hnumber']
        exact fun h => hne (congrArg _ (UInt8.toNat_inj.1 h))
      exact Vector.getElem_set_ne (generalIndex number).isLt (generalIndex number').isLt hindex
    | _ => rfl
  | fp =>
    cases r' with
    | fp => exact absurd rfl hne
    | _ => rfl
  | sp =>
    cases r' with
    | sp => exact absurd rfl hne
    | _ => rfl
  | _ => exact hr.elim

end RegisterFile

/-- Instructions cannot name the flags. -/
theorem Register.IsNamed.ne_flags {r : Register} (hr : r.IsNamed) : r ≠ .flags := by
  rintro rfl
  exact hr

/-- Of the registers that instructions can name, the frame pointer alone is protected. -/
theorem Register.IsNamed.isProtected_iff {r : Register} (hr : r.IsNamed) :
    r.isProtected = true ↔ r = .fp := by
  cases r with
  | general number | sp => exact iff_of_false Bool.false_ne_true nofun
  | fp => exact iff_of_true rfl rfl
  | _ => exact hr.elim

namespace Node

variable {β : Type} {n : Node β} {r : Register}

/-- A write to a register that is not protected, or in privileged mode, is made. -/
theorem write_of_allowed (h : r.isProtected = true → n.core.regs.flags.privileged = true)
    (v : UInt32) : write r v n = .ok () (n.mapRegs fun regs => regs.set r v) := by
  have hallowed : ¬ (r.isProtected = true ∧ ¬ n.core.regs.flags.privileged = true) :=
    fun ⟨hr, hu⟩ => hu (h hr)
  unfold write
  rw [getRegs_bind, RegisterFile.write, if_neg hallowed]
  rfl

/-- Any other is refused and changes nothing. -/
theorem write_of_refused (h : ¬ (r.isProtected = true → n.core.regs.flags.privileged = true))
    (v : UInt32) :
    write r v n = .error (.accessViolation (.protectedRegister r)) n := by
  unfold write
  rw [getRegs_bind, RegisterFile.write, if_pos (Classical.not_imp.1 h)]
  rfl

end Node

end Multicore
