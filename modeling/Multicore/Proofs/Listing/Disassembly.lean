import Multicore.InstructionSet
import Multicore.Proofs.Listing.Arguments
import Mathlib.Data.List.Forall2
import Mathlib.Data.List.Nodup

/-!
# Disassembly is unambiguous

The text of an instruction is its mnemonic and its arguments. The mnemonic tells the operation
(`Instruction.mnemonic_inj`), and the operation with the arguments is the instruction
(`Instruction.assemble?_arguments`), so the text tells the instruction (`Instruction.text_inj`).
Data are shown under a name that is no mnemonic. A listing therefore tells the words apart that do
not decode to one instruction (`InstructionSets.disassemble_eq_iff`).
-/

namespace Multicore

open Text

/-- An operation of one of the two dialects. -/
abbrev Opcode := BaseOpcode ⊕ MathOpcode

/-- An operand as an argument. -/
def Operand.argument : Operand → Argument
  | .reg r => .register r
  | .imm v => .immediate v.toInt

/-- The operand that an argument stands for. -/
def Argument.operand? : Argument → Option Operand
  | .register r => some (.reg r)
  | .immediate v => some (.imm (.ofInt v))
  | .memory .. => none

/-- An operand is read back from its argument. -/
theorem Operand.operand?_argument (x : Operand) : x.argument.operand? = some x := by
  cases x with
  | reg r => rfl
  | imm v => rw [argument, Argument.operand?, Int32.ofInt_toInt]

/-- An argument is listed as its operand is. -/
theorem Operand.text_argument (x : Operand) : x.argument.text = x.text := by
  cases x <;> rfl

/-- The opcode of a coprocessor operation. -/
def MathOp.opcode : MathOp → MathOpcode
  | .pushw _ => .pushw
  | .pushuw _ => .pushuw
  | .popw _ => .popw
  | .popuw _ => .popuw
  | .add => .add
  | .sub => .sub
  | .mul => .mul
  | .div => .div
  | .mod => .mod
  | .inc => .inc
  | .dec => .dec
  | .dup => .dup
  | .drop => .drop
  | .swap => .swap

namespace Instruction

/-- The operation of an instruction. The two that both dialects have are those of the base
dialect. -/
def opcode : Instruction → Opcode
  | .nop => .inl .nop
  | .hlt _ => .inl .hlt
  | .idle => .inl .idle
  | .int _ => .inl .int
  | .retint => .inl .retint
  | .call _ => .inl .call
  | .ret => .inl .ret
  | .cli => .inl .cli
  | .sti => .inl .sti
  | .lpm => .inl .lpm
  | .sis _ => .inl .sis
  | .li .. => .inl .li
  | .liu .. => .inl .liu
  | .mov .. => .inl .mov
  | .alu op _ _ => .inl (.alu op)
  | .not _ => .inl .not
  | .inc _ => .inl .inc
  | .dec _ => .inl .dec
  | .cmp .. => .inl .cmp
  | .jump cond _ => .inl (.jump cond)
  | .load width .. => .inl (.load width)
  | .store width .. => .inl (.store width)
  | .push _ => .inl .push
  | .pop _ => .inl .pop
  | .math op => .inr op.opcode

/-- The arguments of an instruction, in the order in which they are written. -/
def arguments : Instruction → List Argument
  | .nop | .idle | .retint | .ret | .cli | .sti | .lpm => []
  | .hlt x | .int x | .call x | .sis x | .jump _ x | .push x => [x.argument]
  | .li dst v => [.register dst, .immediate v.toInt]
  | .liu dst v => [.register dst, .immediate v.toNat]
  | .mov dst src => [.register dst, .register src]
  | .alu _ dst src => [.register dst, src.argument]
  | .not dst | .inc dst | .dec dst | .pop dst => [.register dst]
  | .cmp lhs rhs => [.register lhs, rhs.argument]
  | .load _ dst base offset => [.register dst, .memory base offset]
  | .store _ src base offset => [.memory base offset, .register src]
  | .math op => op.register?.toList.map .register

/-- The instruction with an operation and arguments. -/
def assemble? : Opcode → List Argument → Option Instruction
  | .inl .nop, [] => some .nop
  | .inl .hlt, [x] => x.operand?.map .hlt
  | .inl .idle, [] => some .idle
  | .inl .int, [x] => x.operand?.map .int
  | .inl .retint, [] => some .retint
  | .inl .call, [x] => x.operand?.map .call
  | .inl .ret, [] => some .ret
  | .inl .cli, [] => some .cli
  | .inl .sti, [] => some .sti
  | .inl .lpm, [] => some .lpm
  | .inl .sis, [x] => x.operand?.map .sis
  | .inl .li, [.register dst, .immediate v] => some (.li dst (.ofInt v))
  | .inl .liu, [.register dst, .immediate v] => some (.liu dst (.ofNat v.toNat))
  | .inl .mov, [.register dst, .register src] => some (.mov dst src)
  | .inl (.alu op), [.register dst, x] => x.operand?.map (.alu op dst)
  | .inl .not, [.register dst] => some (.not dst)
  | .inl .inc, [.register dst] => some (.inc dst)
  | .inl .dec, [.register dst] => some (.dec dst)
  | .inl .cmp, [.register lhs, x] => x.operand?.map (.cmp lhs)
  | .inl (.jump cond), [x] => x.operand?.map (.jump cond)
  | .inl (.load width), [.register dst, .memory base offset] => some (.load width dst base offset)
  | .inl (.store width), [.memory base offset, .register src] => some (.store width src base offset)
  | .inl .push, [x] => x.operand?.map .push
  | .inl .pop, [.register dst] => some (.pop dst)
  | .inr .pushw, [.register r] => some (.math (.pushw r))
  | .inr .pushuw, [.register r] => some (.math (.pushuw r))
  | .inr .popw, [.register r] => some (.math (.popw r))
  | .inr .popuw, [.register r] => some (.math (.popuw r))
  | .inr .add, [] => some (.math .add)
  | .inr .sub, [] => some (.math .sub)
  | .inr .mul, [] => some (.math .mul)
  | .inr .div, [] => some (.math .div)
  | .inr .mod, [] => some (.math .mod)
  | .inr .inc, [] => some (.math .inc)
  | .inr .dec, [] => some (.math .dec)
  | .inr .dup, [] => some (.math .dup)
  | .inr .drop, [] => some (.math .drop)
  | .inr .swap, [] => some (.math .swap)
  | _, _ => none

/-- An instruction is put together from its operation and its arguments. -/
theorem assemble?_arguments (i : Instruction) : assemble? i.opcode i.arguments = some i := by
  cases i with
  | hlt x => exact congrArg (Option.map hlt) x.operand?_argument
  | int x => exact congrArg (Option.map int) x.operand?_argument
  | call x => exact congrArg (Option.map call) x.operand?_argument
  | sis x => exact congrArg (Option.map sis) x.operand?_argument
  | jump cond x => exact congrArg (Option.map (jump cond)) x.operand?_argument
  | push x => exact congrArg (Option.map push) x.operand?_argument
  | alu op dst x => exact congrArg (Option.map (alu op dst)) x.operand?_argument
  | cmp lhs x => exact congrArg (Option.map (cmp lhs)) x.operand?_argument
  | li dst v => exact congrArg (fun v => some (li dst v)) (Int32.ofInt_toInt v)
  | liu dst v => exact congrArg (fun v => some (liu dst v)) UInt16.ofNat_toNat
  | math op => cases op <;> rfl
  | _ => rfl

/-- The operands of a listed instruction are the texts of its arguments. -/
theorem operandTexts_eq (i : Instruction) : i.operandTexts = i.arguments.map Argument.text := by
  cases i with
  | hlt x | int x | call x | sis x | jump _ x | push x =>
    exact congrArg (fun t => [t]) x.text_argument.symm
  | alu _ dst x | cmp dst x => exact congrArg (fun t => [dst.name, t]) x.text_argument.symm
  | liu dst v =>
    have hupper : signedHex v.toNat = hex v.toNat := if_neg (by omega)
    exact congrArg (fun t => [dst.name, t]) hupper.symm
  | math op => cases op <;> rfl
  | _ => rfl

end Instruction

/-! ## Mnemonics -/

namespace Opcode

/-- The mnemonic of an operation, whatever its arguments. -/
def mnemonic : Opcode → String
  | .inl op => (op.instruction 0).mnemonic
  | .inr op => (op.instruction 0).mnemonic

/-- The operations, the two that both dialects have once. -/
def all : List Opcode :=
  BaseOpcode.all.map .inl ++ (MathOpcode.all.filter fun op => op ≠ .nop ∧ op ≠ .sis).map .inr

/-- No two operations have the same mnemonic. -/
theorem nodup_mnemonics : (all.map mnemonic).Nodup := by decide +kernel

/-- A mnemonic is a word, and it is not that of data. -/
theorem mnemonic_spec {op : Opcode} (h : op ∈ all) : op.mnemonic ≠ ".word" ∧
    ∀ c ∈ op.mnemonic.toList, (c != ' ') = true := by
  have hall : all.all (fun op => op.mnemonic != ".word" && op.mnemonic.toList.all (· != ' ')) =
      true := by decide +kernel
  have hop := List.all_eq_true.1 hall op h
  rw [Bool.and_eq_true, bne_iff_ne] at hop
  exact ⟨hop.1, List.all_eq_true.1 hop.2⟩

end Opcode

namespace Instruction

/-- Every instruction has an opcode of the list. -/
theorem opcode_mem (i : Instruction) : i.opcode ∈ Opcode.all := by
  have hbase (op : BaseOpcode) : .inl op ∈ Opcode.all :=
    List.mem_append_left _ (List.mem_map_of_mem (List.mem_of_getElem? (BaseOpcode.ofCode?_code op)))
  cases i with
  | math op =>
    refine List.mem_append_right _ (List.mem_map_of_mem (List.mem_filter.2 ⟨?_, ?_⟩))
    · exact List.mem_of_getElem? (MathOpcode.ofCode?_code op.opcode)
    · cases op <;> rfl
  | _ => exact hbase _

/-- The opcode determines the mnemonic. -/
theorem mnemonic_opcode (i : Instruction) : i.opcode.mnemonic = i.mnemonic := by
  cases i with
  | math op => cases op <;> rfl
  | _ => rfl

/-- The mnemonic of an instruction tells its operation. -/
theorem mnemonic_inj {i j : Instruction} : i.mnemonic = j.mnemonic ↔ i.opcode = j.opcode := by
  rw [← i.mnemonic_opcode, ← j.mnemonic_opcode]
  exact ⟨List.inj_on_of_nodup_map Opcode.nodup_mnemonics i.opcode_mem j.opcode_mem, congrArg _⟩

/-! ## Texts -/

/-- The text of an instruction is the mnemonic followed by the text of its arguments. -/
theorem toList_text (i : Instruction) :
    i.text.toList = i.mnemonic.toList ++ Argument.listText i.arguments := by
  rw [text, operandTexts_eq]
  rcases i.arguments with _ | ⟨x, xs⟩
  · simp [Argument.listText]
  · show (i.mnemonic ++ " " ++ ", ".intercalate ((x :: xs).map Argument.text)).toList = _
    rw [String.toList_append, Argument.toList_intercalate]
    simp [Argument.listText]

/-- The mnemonic of an instruction is a word, and it is not that of data. -/
theorem mnemonic_spec (i : Instruction) : i.mnemonic ≠ ".word" ∧
    ∀ c ∈ i.mnemonic.toList, (c != ' ') = true := by
  rw [← i.mnemonic_opcode]
  exact Opcode.mnemonic_spec i.opcode_mem

/-- The text of an instruction tells the instruction. -/
theorem text_inj {i j : Instruction} : i.text = j.text ↔ i = j := by
  refine ⟨fun h => ?_, congrArg _⟩
  rw [← String.toList_inj, toList_text, toList_text] at h
  -- the first blank of a text, if there is one, ends the mnemonic
  obtain ⟨hmnemonic, harguments⟩ := append_inj_of_span i.mnemonic_spec.2 j.mnemonic_spec.2
    (Argument.head_listText _) (Argument.head_listText _) h
  rw [String.toList_inj, mnemonic_inj] at hmnemonic
  rw [Argument.listText_inj] at harguments
  have hassemble := i.assemble?_arguments
  rw [hmnemonic, harguments, assemble?_arguments] at hassemble
  exact (Option.some.inj hassemble).symm

/-- No instruction has the text of data. -/
theorem text_ne_data (i : Instruction) (width n : Nat) :
    i.text ≠ ".word " ++ paddedHex width n := by
  intro h
  have hdata : (".word " ++ paddedHex width n).toList =
      ".word".toList ++ ' ' :: (paddedHex width n).toList := by
    rw [String.toList_append]
    rfl
  rw [← String.toList_inj, toList_text, hdata] at h
  obtain ⟨hmnemonic, -⟩ := append_inj_of_span i.mnemonic_spec.2
    (List.all_eq_true.1 (by decide)) (Argument.head_listText _) (by simp) h
  exact i.mnemonic_spec.1 (String.toList_inj.1 hmnemonic)

end Instruction

/-! ## Listings -/

/-- An instruction set takes two words for the same: they decode to one instruction, or neither
decodes to an instruction and they are equal. -/
def InstructionSet.Alike (s : InstructionSet) (w w' : Word) : Prop :=
  (∃ i, s.decode w = .ok i ∧ s.decode w' = .ok i) ∨
    ((∀ i, s.decode w ≠ .ok i) ∧ (∀ i, s.decode w' ≠ .ok i) ∧ w = w')

namespace InstructionSets

variable {table : InstructionSets} {id : UInt8} {set : InstructionSet}

/-- A word that is decoded is listed as its instruction. -/
theorem disassemble_of_ok (h : table[id]? = some set) {w : Word} {i : Instruction}
    (hi : set.decode w = .ok i) : table.disassemble id w = i.text := by
  simp only [disassemble, h, hi]

/-- A word that is not is listed as its number. -/
theorem disassemble_of_error (h : table[id]? = some set) {w : Word} {fault : Fault}
    (hw : set.decode w = .error fault) :
    table.disassemble id w = ".word " ++ paddedHex 8 w.toNat := by
  simp only [disassemble, h, hw]

/-- The text of a word tells what it decodes to, and the word itself if it decodes to nothing. -/
theorem disassemble_eq_iff_alike (h : table[id]? = some set) {w w' : Word} :
    table.disassemble id w = table.disassemble id w' ↔ set.Alike w w' := by
  unfold InstructionSet.Alike
  cases hw : set.decode w with
  | ok i =>
    rw [disassemble_of_ok h hw]
    cases hw' : set.decode w' with
    | ok j =>
      rw [disassemble_of_ok h hw', Instruction.text_inj]
      simp [eq_comm]
    | error fault =>
      rw [disassemble_of_error h hw']
      simp [i.text_ne_data]
  | error fault =>
    rw [disassemble_of_error h hw]
    cases hw' : set.decode w' with
    | ok j =>
      rw [disassemble_of_ok h hw']
      simp [(j.text_ne_data _ _).symm]
    | error fault' =>
      rw [disassemble_of_error h hw', String.append_right_inj, paddedHex_inj, UInt32.toNat_inj]
      simp

/-- Disassembly is unambiguous. With an installed instruction set two words have the same text
exactly if they decode to one instruction, or if neither decodes to an instruction and they are
equal. So a listing tells every instruction and every word of data that it shows. -/
theorem disassemble_eq_iff (h : table[id]? = some set) :
    (∀ w w' : Word, table.disassemble id w = table.disassemble id w' ↔
      (∃ i, set.decode w = .ok i ∧ set.decode w' = .ok i) ∨
        ((∀ i, set.decode w ≠ .ok i) ∧ (∀ i, set.decode w' ≠ .ok i) ∧ w = w')) ∧
    ∀ ws ws' : List Word, ws.map (table.disassemble id) = ws'.map (table.disassemble id) ↔
      List.Forall₂ set.Alike ws ws' := by
  refine ⟨fun w w' => disassemble_eq_iff_alike h, fun ws ws' => ?_⟩
  rw [← List.forall₂_eq_eq_eq, List.forall₂_map_left_iff, List.forall₂_map_right_iff]
  simp only [disassemble_eq_iff_alike h]

/-- In the base set the bits that a comparison with an immediate does not read are not shown; two
words of data are told apart, and a word of data from an instruction. In the math set the bits that
an addition does not read are not shown. -/
theorem disassemble_eq_iff_of_standard :
    standard[(0 : UInt8)]? = some .base ∧ standard[(1 : UInt8)]? = some .math ∧
      standard.disassemble 0 0x0003f85b = standard.disassemble 0 0x0003005b ∧
      standard.disassemble 0 0x0003003f ≠ standard.disassemble 0 0x0003007f ∧
      standard.disassemble 0 0x0003003f ≠ standard.disassemble 0 0x0003005b ∧
      standard.disassemble 1 0x00000045 = standard.disassemble 1 0x00000005 := by
  have hbase : standard[(0 : UInt8)]? = some .base := rfl
  have hmath : standard[(1 : UInt8)]? = some .math := rfl
  obtain ⟨hwords, -⟩ := disassemble_eq_iff hbase
  have hcmp : InstructionSet.base.decode 0x0003f85b = .ok (.cmp (.general 1) (.imm 1)) := by
    decide +kernel
  have hcmp' : InstructionSet.base.decode 0x0003005b = .ok (.cmp (.general 1) (.imm 1)) := by
    decide +kernel
  have hdata : InstructionSet.base.decode 0x0003003f = .error (.invalidOpcode 0x3f 0x0003003f) := by
    decide +kernel
  have hnone (i : Instruction) : InstructionSet.base.decode 0x0003003f ≠ .ok i := by
    rw [hdata]
    nofun
  have hadd : InstructionSet.math.decode 0x00000045 = .ok (.math .add) := by decide +kernel
  have hadd' : InstructionSet.math.decode 0x00000005 = .ok (.math .add) := by decide +kernel
  refine ⟨hbase, hmath, (hwords _ _).2 (.inl ⟨_, hcmp, hcmp'⟩), fun h => ?_, fun h => ?_,
    ((disassemble_eq_iff hmath).1 _ _).2 (.inl ⟨_, hadd, hadd'⟩)⟩
  · rcases (hwords _ _).1 h with ⟨i, hi, -⟩ | ⟨-, -, heq⟩
    · exact hnone i hi
    · exact absurd heq (by decide)
  · rcases (hwords _ _).1 h with ⟨i, hi, -⟩ | ⟨-, hne, -⟩
    · exact hnone i hi
    · exact hne _ hcmp'

end InstructionSets

end Multicore
