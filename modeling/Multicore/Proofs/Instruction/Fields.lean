import Multicore.Instruction.Decode
import Multicore.Instruction.Encode
import Mathlib.Tactic.Ring

/-!
# Instruction words as numbers

A word is a number in mixed radix: the opcode counts ones, the first register counts 64s, the
second 2048s, and what stands above depends on the layout. `toNat_opcode` and its siblings read
the fields off the number, `toNat_withRegister` and its siblings give the number of a word that
is built from its fields. The fields of a built word then follow by arithmetic.

A register can be read back from its code only if it has one of the 32 codes for itself
(`Register.IsNamed`). The code of a general register above `r29` is that of another register or
does not fit its field.
-/

namespace Multicore

/-! ## Registers -/

namespace Register

/-- The registers with an operand code of their own: `r0` to `r29`, the frame pointer and the
stack pointer. -/
def IsNamed : Register → Prop
  | .general n => n < 30
  | .fp | .sp => True
  | _ => False

instance : DecidablePred IsNamed
  | .general n => UInt8.decLt n 30
  | .fp | .sp => .isTrue trivial
  | .ds | .cs | .ip | .flags | .cnt => .isFalse id

/-- Every operand code names a register that has a code of its own. -/
theorem isNamed_ofOperand (code : UInt8) : (ofOperand code).IsNamed := by
  unfold ofOperand
  split
  · trivial
  split
  · trivial
  · show (code % 30).toNat < 30
    rw [UInt8.toNat_mod]
    exact Nat.mod_lt _ (by decide)

/-- The code of a named register fits the field and names the register. -/
theorem IsNamed.exists_code {r : Register} (h : r.IsNamed) :
    ∃ code : UInt8, r.operand? = some code ∧ code.toNat < 32 ∧ ofOperand code = r := by
  cases r with
  | general n =>
    have hn : n.toNat < 30 := h
    refine ⟨n, rfl, by omega, ?_⟩
    have h30 : n ≠ 30 := by rintro rfl; exact absurd hn (by decide)
    have h31 : n ≠ 31 := by rintro rfl; exact absurd hn (by decide)
    have hmod : n % 30 = n := by
      rw [← UInt8.toNat_inj, UInt8.toNat_mod]
      exact Nat.mod_eq_of_lt hn
    rw [ofOperand, if_neg h30, if_neg h31, hmod]
  | fp => exact ⟨30, rfl, by decide, rfl⟩
  | sp => exact ⟨31, rfl, by decide, rfl⟩
  | _ => exact h.elim

/-- Instructions can name a register that has a code of its own. -/
theorem IsNamed.isAddressable {r : Register} (h : r.IsNamed) : r.isAddressable := by
  obtain ⟨code, hcode, -, -⟩ := h.exists_code
  rw [Register.isAddressable, hcode]
  rfl

end Register

namespace Word

/-- The code that is written for a named register. -/
theorem registerCode_lt {r : Register} (h : r.IsNamed) : (registerCode r).toNat < 32 := by
  obtain ⟨code, hcode, hlt, -⟩ := h.exists_code
  simpa [registerCode, hcode] using hlt

/-- A register field that holds the code of a named register names that register. -/
theorem ofOperand_of_toNat_eq {r : Register} (h : r.IsNamed) {field : UInt8}
    (hf : field.toNat = (registerCode r).toNat) : Register.ofOperand field = r := by
  obtain ⟨code, hcode, -, hr⟩ := h.exists_code
  have hfield : field = code := by
    rw [← UInt8.toNat_inj, hf]
    simp [registerCode, hcode]
  rw [hfield, hr]

/-! ## Reading fields -/

/-- A mask keeps the low bits. -/
theorem toNat_and_mask (w : Word) {mask : Word} (n : Nat) (hm : mask.toNat = 2 ^ n - 1) :
    (w &&& mask).toNat = w.toNat % 2 ^ n := by
  rw [UInt32.toNat_and, hm, Nat.and_two_pow_sub_one_eq_mod]

/-- Reading low bits as a signed number is the balanced remainder. -/
theorem toInt_signExtend {n : Nat} (w : Word) (hn : n ≤ 32) :
    (signExtend n w).toInt = (w.toNat : Int).bmod (2 ^ n) := by
  rw [signExtend, Int32.toInt_ofBitVec, BitVec.toInt_signExtend, Nat.min_eq_right hn,
    BitVec.toInt_setWidth, Int.bmod_bmod]
  rfl

/-- The opcode is the lowest six bits. -/
theorem toNat_opcode (w : Word) : w.opcode.toNat = w.toNat % 64 := by
  rw [opcode, UInt32.toNat_toUInt8, toNat_and_mask w 6 rfl]
  omega

/-- The first register is five bits from bit 6. -/
theorem toNat_reg1 (w : Word) : w.reg1.toNat = w.toNat / 64 % 32 := by
  rw [reg1, UInt32.toNat_toUInt8, toNat_and_mask _ 5 rfl, UInt32.toNat_shiftRight,
    Nat.shiftRight_eq_div_pow]
  simp only [UInt32.reduceToNat, Nat.reduceMod, Nat.reducePow]
  omega

/-- The second register is five bits from bit 11. -/
theorem toNat_reg2 (w : Word) : w.reg2.toNat = w.toNat / 2048 % 32 := by
  rw [reg2, UInt32.toNat_toUInt8, toNat_and_mask _ 5 rfl, UInt32.toNat_shiftRight,
    Nat.shiftRight_eq_div_pow]
  simp only [UInt32.reduceToNat, Nat.reduceMod, Nat.reducePow]
  omega

/-- Bit 16 says that the operand is immediate. -/
theorem hasImmediate_iff (w : Word) : w.hasImmediate ↔ w.toNat / 65536 % 2 = 1 := by
  simp [hasImmediate, ← UInt32.toNat_inj, Nat.shiftRight_eq_div_pow]

/-- The short immediate is signed, from bit 17. -/
theorem toInt_imm15 (w : Word) :
    w.imm15.toInt = ((w.toNat / 131072 : Nat) : Int).bmod 32768 := by
  rw [imm15, toInt_signExtend _ (by decide), UInt32.toNat_shiftRight, Nat.shiftRight_eq_div_pow]
  rfl

/-- The long immediate is signed, from bit 11. -/
theorem toInt_imm21 (w : Word) :
    w.imm21.toInt = ((w.toNat / 2048 : Nat) : Int).bmod 2097152 := by
  rw [imm21, toInt_signExtend _ (by decide), UInt32.toNat_shiftRight, Nat.shiftRight_eq_div_pow]
  rfl

/-- The unsigned immediate is the upper half. -/
theorem toNat_uimm16 (w : Word) : w.uimm16.toNat = w.toNat / 65536 := by
  have := w.toNat_lt
  rw [uimm16, UInt32.toNat_toUInt16, UInt32.toNat_shiftRight, Nat.shiftRight_eq_div_pow]
  simp only [UInt32.reduceToNat, Nat.reduceMod, Nat.reducePow]
  omega

/-- The offset and the upper immediate are one field, read with and without a sign. -/
theorem offset16_eq (w : Word) : w.offset16 = w.uimm16.toInt16 := rfl

/-- A 15-bit immediate that was read fits its field. -/
theorem fitsImm15_imm15 (w : Word) : fitsImm15 w.imm15 := by
  have hlo := Int.le_bmod (x := ((w.toNat / 131072 : Nat) : Int)) (m := 32768) (by decide)
  have hhi := Int.bmod_lt (x := ((w.toNat / 131072 : Nat) : Int)) (m := 32768) (by decide)
  simp only [fitsImm15, decide_eq_true_eq, toInt_imm15]
  omega

/-- A 21-bit immediate that was read fits its field. -/
theorem fitsImm21_imm21 (w : Word) : fitsImm21 w.imm21 := by
  have hlo := Int.le_bmod (x := ((w.toNat / 2048 : Nat) : Int)) (m := 2097152) (by decide)
  have hhi := Int.bmod_lt (x := ((w.toNat / 2048 : Nat) : Int)) (m := 2097152) (by decide)
  simp only [fitsImm21, decide_eq_true_eq, toInt_imm21]
  omega

/-! ## Building words -/

/-- Writing a value above the bits in use adds it at its place, less the bits that fall out at
the top. -/
theorem toNat_or_shiftLeft {w : Word} (x : Word) {k : Word} {n : Nat} (hk : k.toNat = n)
    (hn : n < 32) (hw : w.toNat < 2 ^ n) :
    (w ||| x <<< k).toNat = w.toNat + 2 ^ n * (x.toNat % 2 ^ (32 - n)) := by
  have htop : x.toNat <<< n % 2 ^ 32 = (x.toNat % 2 ^ (32 - n)) <<< n := by
    rw [Nat.shiftLeft_eq, Nat.shiftLeft_eq, ← Nat.mul_mod_mul_right, ← pow_add,
      Nat.sub_add_cancel hn.le]
  rw [UInt32.toNat_or, UInt32.toNat_shiftLeft, hk, Nat.mod_eq_of_lt hn, htop, Nat.or_comm,
    ← Nat.shiftLeft_add_eq_or_of_lt hw, Nat.shiftLeft_eq, Nat.mul_comm, Nat.add_comm]

variable {code : UInt8} {r r₁ r₂ : Register}

/-- The word of an instruction without operands is its opcode. -/
theorem toNat_bare (hc : code.toNat < 64) : (bare code).toNat = code.toNat := by
  rw [bare, toNat_and_mask _ 6 rfl, UInt8.toNat_toUInt32]
  omega

/-- The number of a word with one register, for a register that has a code. -/
theorem toNat_withRegister (hc : code.toNat < 64) (hr : r.IsNamed) :
    (withRegister code r).toNat = code.toNat + 64 * (registerCode r).toNat := by
  have hr := registerCode_lt hr
  have hbare := toNat_bare hc
  rw [withRegister, toNat_or_shiftLeft (n := 6) _ rfl (by decide) (by omega)]
  omega

/-- The number of a word with two registers. -/
theorem toNat_withRegisters (hc : code.toNat < 64) (h₁ : r₁.IsNamed) (h₂ : r₂.IsNamed) :
    (withRegisters code r₁ r₂).toNat =
      code.toNat + 64 * (registerCode r₁).toNat + 2048 * (registerCode r₂).toNat := by
  have hone := toNat_withRegister hc h₁
  have h₁ := registerCode_lt h₁
  have h₂ := registerCode_lt h₂
  rw [withRegisters, toNat_or_shiftLeft (n := 11) _ rfl (by decide) (by omega)]
  omega

/-- The number of a word with an immediate, of which fifteen bits are kept. -/
theorem toNat_withImmediate (hc : code.toNat < 64) (value : Int32) :
    (withImmediate code value).toNat =
      code.toNat + 65536 + 131072 * (value.toUInt32.toNat % 32768) := by
  have hbare := toNat_bare hc
  have hflag : (bare code ||| (1 : Word) <<< 16).toNat = code.toNat + 65536 := by
    rw [toNat_or_shiftLeft (n := 16) _ rfl (by decide) (by omega), hbare]
    rfl
  rw [withImmediate, toNat_or_shiftLeft (n := 17) _ rfl (by decide) (by omega)]
  omega

/-- The number of a word with a register and an immediate. -/
theorem toNat_withRegisterImmediate (hc : code.toNat < 64) (hr : r.IsNamed) (value : Int32) :
    (withRegisterImmediate code r value).toNat =
      code.toNat + 64 * (registerCode r).toNat + 65536 +
        131072 * (value.toUInt32.toNat % 32768) := by
  have hone := toNat_withRegister hc hr
  have hr := registerCode_lt hr
  -- The register is written last, below bits that are already in use.
  have hfields : withRegisterImmediate code r value =
      withRegister code r ||| (1 : Word) <<< 16 ||| value.toUInt32 <<< 17 := by
    have hcomm (a b c d : Word) : a ||| b ||| c ||| d = a ||| d ||| b ||| c := by ac_rfl
    exact hcomm _ _ _ _
  have hflag : (withRegister code r ||| (1 : Word) <<< 16).toNat =
      (withRegister code r).toNat + 65536 := by
    rw [toNat_or_shiftLeft (n := 16) _ rfl (by decide) (by omega)]
    rfl
  rw [hfields, toNat_or_shiftLeft (n := 17) _ rfl (by decide) (by omega)]
  omega

/-- The number of a word with two registers and an offset, which shares no bit with them. -/
theorem toNat_withOffset (hc : code.toNat < 64) (h₁ : r₁.IsNamed) (h₂ : r₂.IsNamed)
    (offset : Int16) :
    (withOffset code r₁ r₂ offset).toNat =
      code.toNat + 64 * (registerCode r₁).toNat + 2048 * (registerCode r₂).toNat +
        65536 * offset.toUInt16.toNat := by
  have htwo := toNat_withRegisters hc h₁ h₂
  have h₁ := registerCode_lt h₁
  have h₂ := registerCode_lt h₂
  have hoffset := offset.toUInt16.toNat_lt
  rw [withOffset, toNat_or_shiftLeft (n := 16) _ rfl (by decide) (by omega),
    UInt16.toNat_toUInt32]
  omega

/-- The number of a word with a register and a long immediate, of which twenty-one bits are kept. -/
theorem toNat_withLongImmediate (hc : code.toNat < 64) (hr : r.IsNamed) (value : Int32) :
    (withLongImmediate code r value).toNat =
      code.toNat + 64 * (registerCode r).toNat + 2048 * (value.toUInt32.toNat % 2097152) := by
  have hone := toNat_withRegister hc hr
  have hr := registerCode_lt hr
  rw [withLongImmediate, toNat_or_shiftLeft (n := 11) _ rfl (by decide) (by omega)]
  omega

/-- The number of a word with a register and an unsigned immediate, above the immediate flag. -/
theorem toNat_withUpperImmediate (hc : code.toNat < 64) (hr : r.IsNamed) (value : UInt16) :
    (withUpperImmediate code r value).toNat =
      code.toNat + 64 * (registerCode r).toNat + 65536 * value.toNat := by
  have hone := toNat_withRegister hc hr
  have hr := registerCode_lt hr
  have hvalue := value.toNat_lt
  rw [withUpperImmediate, toNat_or_shiftLeft (n := 16) _ rfl (by decide) (by omega),
    UInt16.toNat_toUInt32]
  omega

/-! ## Signed values in a field -/

/-- A value that is cut to `n` bits and read back with its sign is unchanged if it is in the
range of the field. -/
theorem bmod_toUInt32 {v : Int32} {n : Nat} (hn : n ∣ 2 ^ 32) (hlo : -(n : Int) ≤ v.toInt * 2)
    (hhi : v.toInt * 2 < n) : ((v.toUInt32.toNat % n : Nat) : Int).bmod n = v.toInt :=
  calc ((v.toUInt32.toNat % n : Nat) : Int).bmod n
    _ = (v.toUInt32.toNat : Int).bmod n := by rw [Int.natCast_emod, Int.emod_bmod]
    _ = ((v.toUInt32.toNat : Int).bmod (2 ^ 32)).bmod n := (Int.bmod_bmod_of_dvd hn).symm
    _ = v.toInt.bmod n := congrArg (·.bmod n) (BitVec.toInt_eq_toNat_bmod v.toBitVec).symm
    _ = v.toInt := Int.bmod_eq_of_le_mul_two hlo hhi

/-- A 15-bit immediate is read back if it fits its field. -/
theorem bmod_of_fitsImm15 {v : Int32} (h : fitsImm15 v) :
    ((v.toUInt32.toNat % 32768 : Nat) : Int).bmod 32768 = v.toInt := by
  simp only [fitsImm15, decide_eq_true_eq] at h
  exact bmod_toUInt32 ⟨2 ^ 17, rfl⟩ (by omega) (by omega)

/-- A 21-bit immediate is read back if it fits its field. -/
theorem bmod_of_fitsImm21 {v : Int32} (h : fitsImm21 v) :
    ((v.toUInt32.toNat % 2097152 : Nat) : Int).bmod 2097152 = v.toInt := by
  simp only [fitsImm21, decide_eq_true_eq] at h
  exact bmod_toUInt32 ⟨2 ^ 11, rfl⟩ (by omega) (by omega)

/-! ## Fields of built words -/

/-- The first register field names the register that is written there. -/
theorem register1_eq {w : Word} (hr : r.IsNamed)
    (hw : w.toNat / 64 % 32 = (registerCode r).toNat) : w.register1 = r :=
  ofOperand_of_toNat_eq hr ((toNat_reg1 w).trans hw)

/-- The second register field names the register that is written there. -/
theorem register2_eq {w : Word} (hr : r.IsNamed)
    (hw : w.toNat / 2048 % 32 = (registerCode r).toNat) : w.register2 = r :=
  ofOperand_of_toNat_eq hr ((toNat_reg2 w).trans hw)

/-- The opcode field holds the code that is written there. -/
theorem opcode_eq {w : Word} (hw : w.toNat % 64 = code.toNat) : w.opcode = code := by
  rw [← UInt8.toNat_inj, toNat_opcode, hw]

/-- The opcode reads back from a word without operands. -/
theorem opcode_bare (hc : code.toNat < 64) : (bare code).opcode = code := by
  have hbare := toNat_bare hc
  exact opcode_eq (by omega)

/-- A register reads back, as the first register and as the sole operand. -/
theorem withRegister_spec (hc : code.toNat < 64) (hr : r.IsNamed) :
    (withRegister code r).opcode = code ∧ (withRegister code r).register1 = r ∧
      (withRegister code r).soleOperand = .reg r := by
  have hnat := toNat_withRegister hc hr
  have hlt := registerCode_lt hr
  have hregister := register1_eq (w := withRegister code r) hr (by omega)
  have hflag : ¬ (withRegister code r).hasImmediate := by
    rw [hasImmediate_iff]
    omega
  refine ⟨opcode_eq (by omega), hregister, ?_⟩
  rw [soleOperand, if_neg hflag, hregister]

/-- Two registers read back, and the second one as an operand too. -/
theorem withRegisters_spec (hc : code.toNat < 64) (h₁ : r₁.IsNamed) (h₂ : r₂.IsNamed) :
    (withRegisters code r₁ r₂).opcode = code ∧ (withRegisters code r₁ r₂).register1 = r₁ ∧
      (withRegisters code r₁ r₂).register2 = r₂ ∧
      (withRegisters code r₁ r₂).secondOperand = .reg r₂ := by
  have hnat := toNat_withRegisters hc h₁ h₂
  have hlt₁ := registerCode_lt h₁
  have hlt₂ := registerCode_lt h₂
  have hregister := register2_eq (w := withRegisters code r₁ r₂) h₂ (by omega)
  have hflag : ¬ (withRegisters code r₁ r₂).hasImmediate := by
    rw [hasImmediate_iff]
    omega
  refine ⟨opcode_eq (by omega), register1_eq h₁ (by omega), hregister, ?_⟩
  rw [secondOperand, if_neg hflag, hregister]

/-- An immediate that fits fifteen bits reads back as the sole operand. -/
theorem withImmediate_spec (hc : code.toNat < 64) {v : Int32} (hv : fitsImm15 v) :
    (withImmediate code v).opcode = code ∧ (withImmediate code v).soleOperand = .imm v := by
  have hnat := toNat_withImmediate hc v
  have hflag : (withImmediate code v).hasImmediate := by
    rw [hasImmediate_iff]
    omega
  have himm : (withImmediate code v).imm15 = v := by
    have hfield : (withImmediate code v).toNat / 131072 = v.toUInt32.toNat % 32768 := by omega
    rw [← Int32.toInt_inj, toInt_imm15, hfield, bmod_of_fitsImm15 hv]
  refine ⟨opcode_eq (by omega), ?_⟩
  rw [soleOperand, if_pos hflag, himm]

/-- A register and an immediate that fits fifteen bits read back. -/
theorem withRegisterImmediate_spec (hc : code.toNat < 64) (hr : r.IsNamed) {v : Int32}
    (hv : fitsImm15 v) :
    (withRegisterImmediate code r v).opcode = code ∧
      (withRegisterImmediate code r v).register1 = r ∧
      (withRegisterImmediate code r v).secondOperand = .imm v := by
  have hnat := toNat_withRegisterImmediate hc hr v
  have hlt := registerCode_lt hr
  have hflag : (withRegisterImmediate code r v).hasImmediate := by
    rw [hasImmediate_iff]
    omega
  have himm : (withRegisterImmediate code r v).imm15 = v := by
    have hfield : (withRegisterImmediate code r v).toNat / 131072 = v.toUInt32.toNat % 32768 := by
      omega
    rw [← Int32.toInt_inj, toInt_imm15, hfield, bmod_of_fitsImm15 hv]
  refine ⟨opcode_eq (by omega), register1_eq hr (by omega), ?_⟩
  rw [secondOperand, if_pos hflag, himm]

/-- Two registers and an offset read back. -/
theorem withOffset_spec (hc : code.toNat < 64) (h₁ : r₁.IsNamed) (h₂ : r₂.IsNamed)
    (offset : Int16) :
    (withOffset code r₁ r₂ offset).opcode = code ∧
      (withOffset code r₁ r₂ offset).register1 = r₁ ∧
      (withOffset code r₁ r₂ offset).register2 = r₂ ∧
      (withOffset code r₁ r₂ offset).offset16 = offset := by
  have hnat := toNat_withOffset hc h₁ h₂ offset
  have hlt₁ := registerCode_lt h₁
  have hlt₂ := registerCode_lt h₂
  have hfield : (withOffset code r₁ r₂ offset).uimm16 = offset.toUInt16 := by
    rw [← UInt16.toNat_inj, toNat_uimm16]
    omega
  refine ⟨opcode_eq (by omega), register1_eq h₁ (by omega), register2_eq h₂ (by omega), ?_⟩
  rw [offset16_eq, hfield]
  rfl

/-- A register and an immediate that fits twenty-one bits read back. -/
theorem withLongImmediate_spec (hc : code.toNat < 64) (hr : r.IsNamed) {v : Int32}
    (hv : fitsImm21 v) :
    (withLongImmediate code r v).opcode = code ∧ (withLongImmediate code r v).register1 = r ∧
      (withLongImmediate code r v).imm21 = v := by
  have hnat := toNat_withLongImmediate hc hr v
  have hlt := registerCode_lt hr
  have hfield : (withLongImmediate code r v).toNat / 2048 = v.toUInt32.toNat % 2097152 := by omega
  refine ⟨opcode_eq (by omega), register1_eq hr (by omega), ?_⟩
  rw [← Int32.toInt_inj, toInt_imm21, hfield, bmod_of_fitsImm21 hv]

/-- A register and an unsigned immediate read back. -/
theorem withUpperImmediate_spec (hc : code.toNat < 64) (hr : r.IsNamed) (v : UInt16) :
    (withUpperImmediate code r v).opcode = code ∧ (withUpperImmediate code r v).register1 = r ∧
      (withUpperImmediate code r v).uimm16 = v := by
  have hnat := toNat_withUpperImmediate hc hr v
  have hlt := registerCode_lt hr
  refine ⟨opcode_eq (by omega), register1_eq hr (by omega), ?_⟩
  rw [← UInt16.toNat_inj, toNat_uimm16]
  omega

end Word

end Multicore
