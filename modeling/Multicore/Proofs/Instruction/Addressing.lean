import Multicore.Proofs.Instruction.RoundTrip

/-!
# Registers without a code of their own

What the encoder refuses and what it writes for an instruction that it accepts. An instruction
has a word exactly if instructions can name its registers and its immediates fit their fields
(`Instruction.encode?_eq_none_iff`). Every general register passes this test, but only those
below `r30` have a code of their own, so that the owner of an instruction decodes its word to the
instruction exactly if no general register from `r30` on occurs in it
(`Instruction.decode_owner_iff`).
-/

namespace Multicore

/-- Among the registers that instructions can name, the general registers from `r30` on are the
ones without a code of their own. -/
theorem Register.isNamed_iff_of_isAddressable {r : Register} (h : r.isAddressable) :
    r.IsNamed ↔ ∀ n, r = .general n → n < 30 := by
  cases r with
  | general n => exact ⟨fun hn m hm => Register.general.inj hm ▸ hn, fun hn => hn n rfl⟩
  | fp | sp => exact ⟨nofun, fun _ => trivial⟩
  | ds | cs | ip | flags | cnt => cases h

/-- Whether an immediate operand fits its field. -/
def Operand.Fits : Operand → Prop
  | .reg _ => True
  | .imm v => Word.fitsImm15 v

namespace Instruction

/-- The dialect whose opcodes an instruction is written in. -/
def owner : Instruction → Dialect
  | .math _ => .math
  | _ => .base

/-- Whether the immediates of an instruction fit their fields. An offset and an upper half always
do. -/
def ImmediatesFit : Instruction → Prop
  | .hlt o | .int o | .call o | .sis o | .jump _ o | .push o | .alu _ _ o | .cmp _ o => o.Fits
  | .li _ v => Word.fitsImm21 v
  | _ => True

/-- An instruction belongs to its owner. -/
theorem owner_has (i : Instruction) : i.owner.Has i := by
  cases i <;> trivial

/-! ## What the encoder refuses -/

/-- A sole operand is encoded if its register has a code, or if its immediate fits. -/
theorem isSome_encodeSole_iff {op : BaseOpcode} {o : Operand} :
    (encodeSole op o).isSome ↔ (∀ r ∈ o.registers, r.isAddressable) ∧ o.Fits := by
  cases o with
  | reg r => simp [encodeSole, Operand.registers, Operand.Fits]
  | imm v => simp [encodeSole, Operand.registers, Operand.Fits]

/-- A register and an operand are encoded if both can be. -/
theorem isSome_encodeTwo_iff {op : BaseOpcode} {dst : Register} {o : Operand} :
    (encodeTwo op dst o).isSome ↔ (∀ r ∈ dst :: o.registers, r.isAddressable) ∧ o.Fits := by
  cases o with
  | reg r => simp [encodeTwo, Operand.registers, Operand.Fits]
  | imm v => simp [encodeTwo, Operand.registers, Operand.Fits]

/-- A register is encoded if it has a code. -/
theorem isSome_encodeRegister_iff {code : UInt8} {r : Register} :
    (encodeRegister code r).isSome ↔ ∀ s ∈ [r], s.isAddressable := by
  simp [encodeRegister]

/-- An access to memory is encoded if both its registers have codes. Every offset fits. -/
theorem isSome_encodeAccess_iff {op : BaseOpcode} {data base : Register} {offset : Int16} :
    (encodeAccess op data base offset).isSome ↔ ∀ r ∈ [data, base], r.isAddressable := by
  simp [encodeAccess]

/-- A math instruction is encoded if its register has a code, if it names one. -/
theorem isSome_encodeMath_iff {op : MathOp} :
    (encodeMath op).isSome ↔ ∀ r ∈ op.registers, r.isAddressable := by
  cases op
  case pushw | pushuw | popw | popuw => exact isSome_encodeRegister_iff
  all_goals simp [encodeMath, MathOp.registers]

/-- The encoder accepts an instruction exactly if instructions can name its registers and its
immediates fit their fields. -/
theorem isSome_encode?_iff {i : Instruction} :
    i.encode?.isSome ↔ (∀ r ∈ i.registers, r.isAddressable) ∧ i.ImmediatesFit := by
  cases i
  case hlt | int | call | sis | jump | push => exact isSome_encodeSole_iff
  case alu | cmp => exact isSome_encodeTwo_iff
  case mov dst src =>
    exact isSome_encodeTwo_iff (o := .reg src)
  case not | inc | dec | pop => exact isSome_encodeRegister_iff.trans (and_iff_left trivial).symm
  case load | store => exact isSome_encodeAccess_iff.trans (and_iff_left trivial).symm
  case math => exact isSome_encodeMath_iff.trans (and_iff_left trivial).symm
  all_goals simp [encode?, registers, ImmediatesFit]

/-! ## What an accepted instruction is read back as -/

/-- The owner of an instruction reads its word back exactly if the registers of the instruction
have codes of their own: the decoder produces no other registers. -/
theorem decode_owner_iff_isNamed {i : Instruction} {w : Word} (h : i.encode? = some w) :
    i.owner.decode w = .ok i ↔ ∀ r ∈ i.registers, r.IsNamed := by
  constructor
  · intro hdecode
    obtain ⟨-, hnamed, -⟩ := Dialect.spec_of_decode hdecode
    exact hnamed
  · intro hnamed
    exact decode_of_encode? i.owner_has hnamed h

/-- What the encoder guarantees. It refuses an instruction exactly if instructions cannot name one
of its registers or one of its immediates does not fit. The word that it writes otherwise is
decoded to the instruction by its owner exactly if no general register from `r30` on occurs:
every general register is taken for one that instructions can name. -/
theorem decode_of_encode?_iff (i : Instruction) :
    (i.encode? = none ↔ (∃ r ∈ i.registers, ¬ r.isAddressable) ∨ ¬ i.ImmediatesFit) ∧
      ∀ w, i.encode? = some w →
        (i.owner.decode w = .ok i ↔ ∀ n, .general n ∈ i.registers → n < 30) := by
  constructor
  · rw [← Option.not_isSome_iff_eq_none, isSome_encode?_iff]
    simp only [not_and_or, not_forall, exists_prop]
  · intro w hw
    obtain ⟨haddr, -⟩ := isSome_encode?_iff.mp (Option.isSome_of_eq_some hw)
    calc i.owner.decode w = .ok i
      _ ↔ ∀ r ∈ i.registers, r.IsNamed := decode_owner_iff_isNamed hw
      _ ↔ ∀ r ∈ i.registers, ∀ n, r = .general n → n < 30 :=
        forall₂_congr fun r hr => Register.isNamed_iff_of_isAddressable (haddr r hr)
      _ ↔ ∀ n, .general n ∈ i.registers → n < 30 :=
        ⟨fun h n hn => h _ hn n rfl, fun h r hr n hn => h n (hn ▸ hr)⟩

/-- A comparison of the last general register with the smallest immediate: it is accepted, and
its word is read back. -/
theorem decode_of_encode?_cmp :
    encode? (.cmp (.general 29) (.imm (-0x4000))) = some 0x8001075b ∧
      Dialect.base.decode 0x8001075b = .ok (.cmp (.general 29) (.imm (-0x4000))) := by
  have hw : encode? (.cmp (.general 29) (.imm (-0x4000))) = some 0x8001075b := by decide +kernel
  obtain ⟨-, hiff⟩ := decode_of_encode?_iff (.cmp (.general 29) (.imm (-0x4000)))
  refine ⟨hw, (hiff _ hw).mpr ?_⟩
  rintro n hn
  cases List.mem_singleton.mp hn
  decide

/-- Words of another instruction. `r30` is written as the frame pointer. From `r32` on the
register leaves its field: as the first register it changes the second one or the immediate, as
the second one it sets the immediate flag or changes the offset. -/
theorem decode_ne_of_encode? :
    ¬ (∀ i w, encode? i = some w → i.owner.decode w = .ok i) ∧
      (encode? (.pop (.general 30)) = encode? (.pop .fp) ∧ (encode? (.pop .fp)).isSome) ∧
      encode? (.mov (.general 32) (.general 0)) = encode? (.mov (.general 0) (.general 1)) ∧
      encode? (.li (.general 32) 0) = encode? (.li (.general 0) 1) ∧
      encode? (.alu .add (.general 1) (.reg (.general 32))) =
        encode? (.alu .add (.general 1) (.imm 0)) ∧
      encode? (.load .word (.general 1) (.general 32) 0) =
        encode? (.load .word (.general 1) (.general 0) 1) := by
  refine ⟨fun h => ?_, ?_⟩
  · have hpop : Dialect.base.decode 0x7ac = .ok (.pop (.general 30)) :=
      h (.pop (.general 30)) _ (by decide +kernel)
    revert hpop
    decide +kernel
  · decide +kernel

end Instruction

end Multicore
