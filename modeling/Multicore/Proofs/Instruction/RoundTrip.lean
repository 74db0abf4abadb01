import Multicore.Proofs.Instruction.Fields

/-!
# Encoding and decoding

An instruction whose registers have codes of their own is read back from its word by the
dialect that it belongs to (`Dialect.decode_of_encode?`), and the decoder produces such
instructions only (`Dialect.spec_of_decode`). Every word that a dialect decodes therefore has one
canonical word, the encoding of its instruction (`Dialect.canonical?`).
-/

namespace Multicore

/-- The register of an operand, if it is one. -/
def Operand.registers : Operand → List Register
  | .reg r => [r]
  | .imm _ => []

/-- The register of a coprocessor operation, if it has one. -/
def MathOp.registers : MathOp → List Register
  | .pushw r | .pushuw r | .popw r | .popuw r => [r]
  | _ => []

/-- The registers that an instruction names. -/
def Instruction.registers : Instruction → List Register
  | .hlt o | .int o | .call o | .sis o | .jump _ o | .push o => o.registers
  | .li r _ | .liu r _ | .not r | .inc r | .dec r | .pop r => [r]
  | .mov r₁ r₂ | .load _ r₁ r₂ _ | .store _ r₁ r₂ _ => [r₁, r₂]
  | .alu _ r o | .cmp r o => r :: o.registers
  | .math op => op.registers
  | .nop | .idle | .retint | .ret | .cli | .sti | .lpm => []

/-- Whether the instruction belongs to the dialect. The two dialects share the empty
instruction and the selection of an instruction set. -/
def Dialect.Has : Dialect → Instruction → Prop
  | .base, .math _ => False
  | .base, _ => True
  | .math, .nop | .math, .sis _ | .math, .math _ => True
  | .math, _ => False

/-! ## Opcodes -/

/-- The code of a base operation fits the opcode field. -/
theorem BaseOpcode.code_lt (op : BaseOpcode) : op.code.toNat < 64 := by
  obtain ⟨hlt, -⟩ := List.getElem?_eq_some_iff.mp (BaseOpcode.ofCode?_code op)
  have hlength : BaseOpcode.all.length = 45 := rfl
  omega

/-- The code of a math operation fits the opcode field. -/
theorem MathOpcode.code_lt (op : MathOpcode) : op.code.toNat < 64 := by
  obtain ⟨hlt, -⟩ := List.getElem?_eq_some_iff.mp (MathOpcode.ofCode?_code op)
  have hlength : MathOpcode.all.length = 16 := rfl
  omega

/-- A word with the code of a base operation decodes to that operation. -/
theorem Dialect.decode_base_of_opcode {w : Word} {op : BaseOpcode} (h : w.opcode = op.code) :
    Dialect.base.decode w = .ok (op.instruction w) := by
  simp [Dialect.decode, h, BaseOpcode.ofCode?_code]

/-- A word with the code of a math operation decodes to that operation. -/
theorem Dialect.decode_math_of_opcode {w : Word} (op : MathOpcode) (h : w.opcode = op.code) :
    Dialect.math.decode w = .ok (op.instruction w) := by
  simp [Dialect.decode, h, MathOpcode.ofCode?_code]

/-- What the base dialect decodes is one of its operations with the operands of the word. -/
theorem Dialect.exists_of_decode_base {w : Word} {i : Instruction}
    (h : Dialect.base.decode w = .ok i) : ∃ op : BaseOpcode, i = op.instruction w := by
  cases hop : BaseOpcode.ofCode? w.opcode with
  | none => simp [Dialect.decode, hop] at h
  | some op =>
    simp only [Dialect.decode, hop, Option.map_some, Except.ok.injEq] at h
    exact ⟨op, h.symm⟩

/-- What the math dialect decodes is one of its operations with the operands of the word. -/
theorem Dialect.exists_of_decode_math {w : Word} {i : Instruction}
    (h : Dialect.math.decode w = .ok i) : ∃ op : MathOpcode, i = op.instruction w := by
  cases hop : MathOpcode.ofCode? w.opcode with
  | none => simp [Dialect.decode, hop] at h
  | some op =>
    simp only [Dialect.decode, hop, Option.map_some, Except.ok.injEq] at h
    exact ⟨op, h.symm⟩

/-! ## What the encoder writes is read back -/

namespace Instruction

open Word

/-- The word of a one-operand instruction is read back. -/
theorem encodeSole_spec {op : BaseOpcode} {o : Operand} {w : Word} (h : encodeSole op o = some w)
    (ho : ∀ r ∈ o.registers, r.IsNamed) : w.opcode = op.code ∧ w.soleOperand = o := by
  cases o with
  | reg r =>
    have hr : r.IsNamed := ho r (by simp [Operand.registers])
    simp only [encodeSole, hr.isAddressable, if_true, Option.some.injEq] at h
    obtain ⟨hop, -, hsole⟩ := withRegister_spec op.code_lt hr
    exact h ▸ ⟨hop, hsole⟩
  | imm v =>
    simp only [encodeSole, Option.ite_none_right_eq_some, Option.some.injEq] at h
    obtain ⟨hv, rfl⟩ := h
    exact withImmediate_spec op.code_lt hv

/-- The word of a two-operand instruction is read back. A move reads its second register without
a look at the immediate flag. -/
theorem encodeTwo_spec (op : BaseOpcode) {dst : Register} (o : Operand) {w : Word}
    (h : encodeTwo op dst o = some w) (ho : ∀ r ∈ dst :: o.registers, r.IsNamed) :
    w.opcode = op.code ∧ w.register1 = dst ∧ w.secondOperand = o ∧
      ∀ r, o = .reg r → w.register2 = r := by
  have hdst : dst.IsNamed := ho dst (by simp)
  cases o with
  | reg r =>
    have hr : r.IsNamed := ho r (by simp [Operand.registers])
    simp only [encodeTwo, hdst.isAddressable, hr.isAddressable, and_self, if_true,
      Option.some.injEq] at h
    obtain ⟨hop, hfirst, hsecond, hoperand⟩ := withRegisters_spec op.code_lt hdst hr
    subst h
    exact ⟨hop, hfirst, hoperand, fun s hs => by cases hs; exact hsecond⟩
  | imm v =>
    simp only [encodeTwo, hdst.isAddressable, true_and, Option.ite_none_right_eq_some,
      Option.some.injEq] at h
    obtain ⟨hv, rfl⟩ := h
    obtain ⟨hop, hfirst, hoperand⟩ := withRegisterImmediate_spec op.code_lt hdst hv
    exact ⟨hop, hfirst, hoperand, fun s hs => by cases hs⟩

/-- The word of an instruction whose only operand is a register is read back. -/
theorem encodeRegister_spec {code : UInt8} (hc : code.toNat < 64) {r : Register} {w : Word}
    (h : encodeRegister code r = some w) (hr : ∀ s ∈ [r], s.IsNamed) :
    w.opcode = code ∧ w.register1 = r := by
  have hr : r.IsNamed := hr r (by simp)
  simp only [encodeRegister, hr.isAddressable, if_true, Option.some.injEq] at h
  obtain ⟨hop, hfirst, -⟩ := withRegister_spec hc hr
  exact h ▸ ⟨hop, hfirst⟩

/-- The word of a load or a store is read back. -/
theorem encodeAccess_spec {op : BaseOpcode} {data base : Register} {offset : Int16} {w : Word}
    (h : encodeAccess op data base offset = some w) (hr : ∀ r ∈ [data, base], r.IsNamed) :
    w.opcode = op.code ∧ w.register1 = data ∧ w.register2 = base ∧ w.offset16 = offset := by
  have hdata : data.IsNamed := hr data (by simp)
  have hbase : base.IsNamed := hr base (by simp)
  simp only [encodeAccess, hdata.isAddressable, hbase.isAddressable, and_self, if_true,
    Option.some.injEq] at h
  exact h ▸ withOffset_spec op.code_lt hdata hbase offset

/-- The word of the load of an immediate is read back. -/
theorem encodeLong_spec {r : Register} {v : Int32} {w : Word}
    (h : encode? (.li r v) = some w) (hr : ∀ s ∈ [r], s.IsNamed) :
    w.opcode = BaseOpcode.li.code ∧ w.register1 = r ∧ w.imm21 = v := by
  have hr : r.IsNamed := hr r (by simp)
  simp only [encode?, hr.isAddressable, true_and, Option.ite_none_right_eq_some,
    Option.some.injEq] at h
  obtain ⟨hv, rfl⟩ := h
  exact withLongImmediate_spec (BaseOpcode.code_lt _) hr hv

/-- The word of the load of an upper half is read back. -/
theorem encodeUpper_spec {r : Register} {v : UInt16} {w : Word}
    (h : encode? (.liu r v) = some w) (hr : ∀ s ∈ [r], s.IsNamed) :
    w.opcode = BaseOpcode.liu.code ∧ w.register1 = r ∧ w.uimm16 = v := by
  have hr : r.IsNamed := hr r (by simp)
  simp only [encode?, hr.isAddressable, if_true, Option.some.injEq] at h
  exact h ▸ withUpperImmediate_spec (BaseOpcode.code_lt _) hr v

/-- The word of a coprocessor operation is read back. -/
theorem decode_of_encodeMath {op : MathOp} {w : Word} (h : encodeMath op = some w)
    (hr : ∀ r ∈ op.registers, r.IsNamed) : Dialect.math.decode w = .ok (.math op) := by
  cases op
  case pushw r | pushuw r | popw r | popuw r =>
    obtain ⟨hop, hfirst⟩ := encodeRegister_spec (MathOpcode.code_lt _) h hr
    rw [Dialect.decode_math_of_opcode _ hop, MathOpcode.instruction, hfirst]
  all_goals
    obtain rfl := Option.some.inj h
    exact Dialect.decode_math_of_opcode _ (opcode_bare (MathOpcode.code_lt _))

/-- The word of an instruction of the base dialect is read back. -/
theorem decode_base_of_encode? {i : Instruction} {w : Word} (hi : Dialect.base.Has i)
    (hr : ∀ r ∈ i.registers, r.IsNamed) (h : i.encode? = some w) :
    Dialect.base.decode w = .ok i := by
  cases i
  case hlt o | int o | call o | sis o | jump cond o | push o =>
    obtain ⟨hop, hsole⟩ := encodeSole_spec h hr
    rw [Dialect.decode_base_of_opcode hop, BaseOpcode.instruction, hsole]
  case alu op dst o | cmp dst o =>
    obtain ⟨hop, hfirst, hsecond, -⟩ := encodeTwo_spec _ _ h hr
    rw [Dialect.decode_base_of_opcode hop, BaseOpcode.instruction, hfirst, hsecond]
  case mov dst src =>
    obtain ⟨hop, hfirst, -, hsecond⟩ := encodeTwo_spec .mov (.reg src) h hr
    rw [Dialect.decode_base_of_opcode hop, BaseOpcode.instruction, hfirst, hsecond src rfl]
  case not r | inc r | dec r | pop r =>
    obtain ⟨hop, hfirst⟩ := encodeRegister_spec (BaseOpcode.code_lt _) h hr
    rw [Dialect.decode_base_of_opcode hop, BaseOpcode.instruction, hfirst]
  case load width data base offset | store width data base offset =>
    obtain ⟨hop, hfirst, hsecond, hoffset⟩ := encodeAccess_spec h hr
    rw [Dialect.decode_base_of_opcode hop, BaseOpcode.instruction, hfirst, hsecond, hoffset]
  case li r v =>
    obtain ⟨hop, hfirst, himm⟩ := encodeLong_spec h hr
    rw [Dialect.decode_base_of_opcode hop, BaseOpcode.instruction, hfirst, himm]
  case liu r v =>
    obtain ⟨hop, hfirst, himm⟩ := encodeUpper_spec h hr
    rw [Dialect.decode_base_of_opcode hop, BaseOpcode.instruction, hfirst, himm]
  case math op => exact hi.elim
  -- The instructions without operands.
  all_goals
    obtain rfl := Option.some.inj h
    exact Dialect.decode_base_of_opcode (opcode_bare (BaseOpcode.code_lt _))

/-- The word of an instruction of the math dialect is read back. The instructions that the
dialects share have the same codes in both. -/
theorem decode_math_of_encode? {i : Instruction} {w : Word} (hi : Dialect.math.Has i)
    (hr : ∀ r ∈ i.registers, r.IsNamed) (h : i.encode? = some w) :
    Dialect.math.decode w = .ok i := by
  cases i
  case nop =>
    obtain rfl := Option.some.inj h
    exact Dialect.decode_math_of_opcode .nop (opcode_bare (BaseOpcode.code_lt .nop))
  case sis o =>
    obtain ⟨hop, hsole⟩ := encodeSole_spec h hr
    rw [Dialect.decode_math_of_opcode .sis hop, MathOpcode.instruction, hsole]
  case math op => exact decode_of_encodeMath h hr
  all_goals exact hi.elim

/-- An instruction whose registers have codes of their own is read back from its word in each
dialect that it belongs to. -/
theorem decode_of_encode? {d : Dialect} {i : Instruction} {w : Word} (hi : d.Has i)
    (hr : ∀ r ∈ i.registers, r.IsNamed) (h : i.encode? = some w) : d.decode w = .ok i := by
  cases d with
  | base => exact decode_base_of_encode? hi hr h
  | math => exact decode_math_of_encode? hi hr h

end Instruction

/-! ## What the decoder reads can be written -/

namespace Word

variable (w : Word)

/-- The first register of any word has a name. -/
theorem isNamed_register1 : w.register1.IsNamed := Register.isNamed_ofOperand _

/-- So has the second. -/
theorem isNamed_register2 : w.register2.IsNamed := Register.isNamed_ofOperand _

/-- A register that is the sole operand has a name. -/
theorem isNamed_of_mem_soleOperand : ∀ r ∈ w.soleOperand.registers, r.IsNamed := by
  unfold soleOperand
  split <;> simp [Operand.registers, isNamed_register1]

/-- A register that is an operand besides another has a name. -/
theorem isNamed_of_mem_secondOperand : ∀ r ∈ w.secondOperand.registers, r.IsNamed := by
  unfold secondOperand
  split <;> simp [Operand.registers, isNamed_register2]

/-- The operand of a one-operand instruction can be written again. -/
theorem isSome_encodeSole (op : BaseOpcode) : (Instruction.encodeSole op w.soleOperand).isSome := by
  unfold soleOperand
  split
  · simp [Instruction.encodeSole, fitsImm15_imm15]
  · simp [Instruction.encodeSole, w.isNamed_register1.isAddressable]

/-- The operands of a two-operand instruction can be written again. -/
theorem isSome_encodeTwo (op : BaseOpcode) :
    (Instruction.encodeTwo op w.register1 w.secondOperand).isSome := by
  unfold secondOperand
  split
  · simp [Instruction.encodeTwo, fitsImm15_imm15, w.isNamed_register1.isAddressable]
  · simp [Instruction.encodeTwo, w.isNamed_register1.isAddressable,
      w.isNamed_register2.isAddressable]

end Word

/-- The operations of the base dialect produce instructions of the dialect that name registers
by codes of their own and can be encoded. -/
theorem BaseOpcode.instruction_spec (op : BaseOpcode) (w : Word) :
    Dialect.base.Has (op.instruction w) ∧ (∀ r ∈ (op.instruction w).registers, r.IsNamed) ∧
      (op.instruction w).encode?.isSome := by
  have h₁ := w.isNamed_register1
  have h₂ := w.isNamed_register2
  refine ⟨by cases op <;> trivial, ?_, ?_⟩
  · cases op
    all_goals simp only [BaseOpcode.instruction, Instruction.registers]
    case hlt | int | call | sis | jump | push => exact w.isNamed_of_mem_soleOperand
    case alu | cmp =>
      exact List.forall_mem_cons.mpr ⟨h₁, w.isNamed_of_mem_secondOperand⟩
    all_goals simp [h₁, h₂]
  · cases op
    all_goals simp only [BaseOpcode.instruction, Instruction.encode?]
    case hlt | int | call | sis | jump | push => exact w.isSome_encodeSole _
    case alu | cmp => exact w.isSome_encodeTwo _
    all_goals simp [Instruction.encodeTwo, Instruction.encodeRegister, Instruction.encodeAccess,
      h₁.isAddressable, h₂.isAddressable, Word.fitsImm21_imm21]

/-- The operations of the math dialect produce instructions of the dialect that name registers
by codes of their own and can be encoded. -/
theorem MathOpcode.instruction_spec (op : MathOpcode) (w : Word) :
    Dialect.math.Has (op.instruction w) ∧ (∀ r ∈ (op.instruction w).registers, r.IsNamed) ∧
      (op.instruction w).encode?.isSome := by
  have h₁ := w.isNamed_register1
  refine ⟨by cases op <;> trivial, ?_, ?_⟩
  · cases op
    case sis => exact w.isNamed_of_mem_soleOperand
    all_goals simp [MathOpcode.instruction, Instruction.registers, MathOp.registers, h₁]
  · cases op
    case sis => exact w.isSome_encodeSole _
    all_goals simp [MathOpcode.instruction, Instruction.encode?, Instruction.encodeMath,
      Instruction.encodeRegister, h₁.isAddressable]

namespace Dialect

/-- What a dialect decodes belongs to it, names registers by codes of their own and can be
encoded. -/
theorem spec_of_decode {d : Dialect} {w : Word} {i : Instruction} (h : d.decode w = .ok i) :
    d.Has i ∧ (∀ r ∈ i.registers, r.IsNamed) ∧ i.encode?.isSome := by
  cases d with
  | base =>
    obtain ⟨op, rfl⟩ := exists_of_decode_base h
    exact op.instruction_spec w
  | math =>
    obtain ⟨op, rfl⟩ := exists_of_decode_math h
    exact op.instruction_spec w

/-! ## Canonical words -/

/-- The canonical word of a word: the encoding of the instruction that it decodes to. A word
that decodes to no instruction has none. -/
def canonical? (d : Dialect) (w : Word) : Option Word :=
  match d.decode w with
  | .ok i => i.encode?
  | .error _ => none

/-- A word with a canonical word decodes to an instruction with that encoding, and the
canonical word decodes to the same instruction. -/
theorem of_canonical_eq_some {d : Dialect} {w w' : Word} (h : d.canonical? w = some w') :
    ∃ i, d.decode w = .ok i ∧ i.encode? = some w' ∧ d.decode w' = .ok i := by
  unfold canonical? at h
  split at h
  next i hdecode =>
    obtain ⟨hhas, hnamed, -⟩ := spec_of_decode hdecode
    exact ⟨i, hdecode, h, Instruction.decode_of_encode? hhas hnamed h⟩
  next => cases h

/-- Encoding inverts decoding. The instruction that a word decodes to has an encoding, which
decodes to the same instruction and is its own canonical word. It is the canonical word of
exactly the words that decode to this instruction. -/
theorem canonical_of_decode {d : Dialect} {w : Word} {i : Instruction} (h : d.decode w = .ok i) :
    ∃ w', i.encode? = some w' ∧ d.decode w' = .ok i ∧ d.canonical? w' = some w' ∧
      ∀ v, d.canonical? v = some w' ↔ d.decode v = .ok i := by
  obtain ⟨hhas, hnamed, hsome⟩ := spec_of_decode h
  obtain ⟨w', hw'⟩ := Option.isSome_iff_exists.mp hsome
  have hdecode := Instruction.decode_of_encode? hhas hnamed hw'
  have hcanonical (v : Word) (hv : d.decode v = .ok i) : d.canonical? v = some w' := by
    simp only [canonical?, hv, hw']
  refine ⟨w', hw', hdecode, hcanonical w' hdecode, fun v => ⟨fun hv => ?_, hcanonical v⟩⟩
  obtain ⟨j, hj, -, hj'⟩ := of_canonical_eq_some hv
  rw [hj, ← hj', hdecode]

/-- A word of a comparison with bits set in the second register field, which its immediate form
does not read. -/
theorem canonical_of_decode_of_cmp :
    Dialect.base.decode 0x0003f85b = .ok (.cmp (.general 1) (.imm 1)) ∧
      Dialect.base.canonical? 0x0003f85b = some 0x0003005b := by
  have h : Dialect.base.decode 0x0003f85b = .ok (.cmp (.general 1) (.imm 1)) := by decide +kernel
  obtain ⟨w', hw', -, -, hiff⟩ := canonical_of_decode h
  have hword : w' = 0x0003005b := Option.some.inj (hw'.symm.trans (by decide +kernel))
  exact ⟨h, hword ▸ (hiff _).mpr h⟩

end Dialect

end Multicore
