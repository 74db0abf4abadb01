import Multicore.Proofs.Arithmetic.Alu
import Multicore.Proofs.Core.Registers

/-!
# Arithmetic instructions and comparisons

An instruction that goes through the arithmetic unit stores the result and sets the flags by it
(`Node.Stored`); a comparison sets the flags so that the conditions of a jump tell the signed order
of its operands (`Flags.afterCompare_order`). Together with what the unit yields this is
`Node.arithmetic_is_exact`.
-/

namespace Multicore

/-- The operation, the destination and the second operand of an instruction that replaces a register
by a result of the arithmetic unit. -/
def Instruction.operation? : Instruction → Option (AluOp × Register × Operand)
  | .alu op dst src => some (op, dst, src)
  | .inc dst => some (.add, dst, .imm 1)
  | .dec dst => some (.sub, dst, .imm 1)
  | _ => none

namespace Flags

/-- The flags tell of a result whether it is zero, whether it is negative, and whether it
overflowed. -/
structure Describes (f : Flags) (r : UInt32) (overflow : Bool) : Prop where
  zero : f.zero = true ↔ r = 0
  sign : f.sign = true ↔ signed r < 0
  overflows : f.overflow = overflow

/-- The flags after an arithmetic instruction describe its result. -/
theorem describes_afterArithmetic (f : Flags) (r : UInt32) (overflow : Bool) :
    (f.afterArithmetic r overflow).Describes r overflow where
  zero := decide_eq_true_iff
  sign := decide_eq_true_iff.trans Int32.lt_iff_toInt_lt
  overflows := rfl

/-- Of the conditions for equal, smaller and greater operands just one holds, and it tells the order
of two numbers. -/
structure Orders (f : Flags) (x y : Int) : Prop where
  exactlyOne : ∃! c, c ∈ [Condition.equal, .less, .greater] ∧ c.holds f = true
  equal : Condition.equal.holds f = true ↔ x = y
  less : Condition.less.holds f = true ↔ x < y
  greater : Condition.greater.holds f = true ↔ y < x

/-- Just one of the three conditions holds if they tell the order. -/
theorem Orders.of_conditions {f : Flags} {x y : Int}
    (equal : Condition.equal.holds f = true ↔ x = y)
    (less : Condition.less.holds f = true ↔ x < y)
    (greater : Condition.greater.holds f = true ↔ y < x) : f.Orders x y := by
  refine ⟨?_, equal, less, greater⟩
  have honly : ∀ c, c ∈ [Condition.equal, .less, .greater] ∧ c.holds f = true →
      (x = y ∧ c = .equal) ∨ (x < y ∧ c = .less) ∨ (y < x ∧ c = .greater) := by
    rintro c ⟨hc, hholds⟩
    obtain rfl | rfl | rfl : c = .equal ∨ c = .less ∨ c = .greater := by simpa using hc
    · exact .inl ⟨equal.1 hholds, rfl⟩
    · exact .inr (.inl ⟨less.1 hholds, rfl⟩)
    · exact .inr (.inr ⟨greater.1 hholds, rfl⟩)
  obtain ⟨c, hc⟩ : ∃ c, c ∈ [Condition.equal, .less, .greater] ∧ c.holds f = true := by
    rcases Int.lt_trichotomy x y with h | h | h
    · exact ⟨_, by simp, less.2 h⟩
    · exact ⟨_, by simp, equal.2 h⟩
    · exact ⟨_, by simp, greater.2 h⟩
  refine ⟨c, hc, fun c' hc' => ?_⟩
  have h := honly c hc
  have h' := honly c' hc'
  grind

/-- After a comparison the conditions tell the signed order of the operands. -/
theorem afterCompare_order (f : Flags) (l r : UInt32) :
    (f.afterCompare l r).Orders (signed l) (signed r) := by
  have hequal : (f.afterCompare l r).equal = true ↔ signed l = signed r :=
    decide_eq_true_iff.trans signed_inj.symm
  have hsign : (f.afterCompare l r).sign = true ↔ signed l < signed r :=
    decide_eq_true_iff.trans Int32.lt_iff_toInt_lt
  refine .of_conditions hequal ?_ ?_
  · rw [Condition.holds, Bool.and_eq_true, hsign, Bool.not_eq_true', ← Bool.not_eq_true, hequal]
    omega
  · rw [Condition.holds, Bool.and_eq_true, Bool.not_eq_true', Bool.not_eq_true',
      ← Bool.not_eq_true, ← Bool.not_eq_true, hequal, hsign]
    omega

end Flags

/-- The registers after a result was written and the flags set by it. -/
def RegisterFile.withResult (f : RegisterFile) (dst : Register) (r : UInt32) (overflow : Bool) :
    RegisterFile :=
  let f := f.set dst r
  { f with flags := f.flags.afterArithmetic r overflow }

/-- The result is stored, unless the flags were its destination. -/
theorem RegisterFile.read_withResult (f : RegisterFile) {dst : Register} (hdst : dst ≠ .flags)
    (r : UInt32) (overflow : Bool) : (f.withResult dst r overflow).read dst = r := by
  refine Eq.trans ?_ (f.read_set_self hdst r)
  cases dst with
  | flags => exact absurd rfl hdst
  | _ => rfl

namespace Node

variable {β : Type} {n n' : Node β} {op : AluOp} {dst : Register} {b r : UInt32} {overflow : Bool}

/-- A result was stored in a register, and the flags describe it. The register has the result unless
it was the flags, which have bits of their own. -/
structure Stored (n n' : Node β) (dst : Register) (r : UInt32) (overflow : Bool) : Prop where
  node : n' = n.mapRegs fun regs => regs.withResult dst r overflow
  value : dst ≠ .flags → n'.core.regs.read dst = r
  flags : n'.core.regs.flags.Describes r overflow

/-- A result is stored unless the register is protected. -/
theorem writeResult_eq (n : Node β) (dst : Register) (r : UInt32) (overflow : Bool) :
    writeResult dst r overflow n =
      if dst.isProtected = true → n.core.regs.flags.privileged = true then
        .ok () (n.mapRegs fun regs => regs.withResult dst r overflow)
      else .error (.accessViolation (.protectedRegister dst)) n := by
  split
  · next h => exact bind_of_ok (write_of_allowed h r)
  · next h => exact bind_of_error (write_of_refused h r)

/-- A result is refused for a protected register in unprivileged mode only. -/
theorem writeResult_ok_iff : (∃ n', writeResult dst r overflow n = .ok () n') ↔
    (dst.isProtected = true → n.core.regs.flags.privileged = true) := by
  rw [writeResult_eq]
  split
  · next h => exact iff_of_true ⟨_, rfl⟩ h
  · next h => exact iff_of_false (fun ⟨_, h'⟩ => by cases h') h

/-- A result that is written is stored with its flags. -/
theorem stored_of_writeResult (h : writeResult dst r overflow n = .ok () n') :
    Stored n n' dst r overflow := by
  rw [writeResult_eq] at h
  split at h
  · cases h
    exact ⟨rfl, fun hdst => RegisterFile.read_withResult n.core.regs hdst r overflow,
      Flags.describes_afterArithmetic _ r overflow⟩
  · cases h

/-- A result is written if there is one. -/
theorem arithmetic_of_ok (h : Alu.execute op (n.core.regs.read dst) b = .ok (r, overflow)) :
    Node.arithmetic op dst b n = writeResult dst r overflow n := by
  have hread : read dst n = .ok (n.core.regs.read dst) n := rfl
  unfold Node.arithmetic
  rw [bind_of_ok hread, h]

/-- Without a result the fault is raised and nothing is changed. -/
theorem arithmetic_of_error {fault : Fault}
    (h : Alu.execute op (n.core.regs.read dst) b = .error fault) :
    Node.arithmetic op dst b n = .error fault n := by
  have hread : read dst n = .ok (n.core.regs.read dst) n := rfl
  unfold Node.arithmetic
  rw [bind_of_ok hread, h]
  rfl

variable [PhysicalMemory β]

/-- What an instruction does that goes through the arithmetic unit. -/
theorem execute_operation (p : Platform) {i : Instruction} {src : Operand}
    (hi : i.operation? = some (op, dst, src)) (n : Node β) :
    execute p .base i n = Node.arithmetic op dst (n.core.regs.operand src) n := by
  cases i with
  | alu | inc | dec =>
    cases hi
    rfl
  | _ => cases hi

/-- The arithmetic unit computes exactly, for every operation and all operands, and refuses only to
divide by zero. An instruction that goes through the unit succeeds unless the unit refuses or its
destination is protected; then the destination holds the result and the flags describe it, and so
they do for the complement of a register. After a comparison just one of the conditions for equal,
smaller and greater operands holds, and it tells their signed order. -/
theorem arithmetic_is_exact (p : Platform) :
    (∀ (op : AluOp) (a b : UInt32),
      if op.Defined b then
        ∃ r overflow, Alu.execute op a b = .ok (r, overflow) ∧ op.Yields a b r overflow
      else Alu.execute op a b = .error .divideByZero) ∧
    (∀ (n : Node β) (i : Instruction) (op : AluOp) (dst : Register) (src : Operand),
      i.operation? = some (op, dst, src) →
      ((∃ n', execute p .base i n = .ok () n') ↔ op.Defined (n.core.regs.operand src) ∧
        (dst.isProtected = true → n.core.regs.flags.privileged = true)) ∧
      ∀ n', execute p .base i n = .ok () n' → ∃ r overflow,
        Alu.execute op (n.core.regs.read dst) (n.core.regs.operand src) = .ok (r, overflow) ∧
        Stored n n' dst r overflow) ∧
    (∀ (n : Node β) (dst : Register),
      ((∃ n', execute p .base (.not dst) n = .ok () n') ↔
        (dst.isProtected = true → n.core.regs.flags.privileged = true)) ∧
      ∀ n', execute p .base (.not dst) n = .ok () n' →
        Stored n n' dst (~~~ n.core.regs.read dst) false) ∧
    ∀ (n : Node β) (lhs : Register) (rhs : Operand), ∃ n',
      execute p .base (.cmp lhs rhs) n = .ok () n' ∧
      n'.core.regs.flags.Orders (signed (n.core.regs.read lhs))
        (signed (n.core.regs.operand rhs)) := by
  refine ⟨fun op a b => ?_, fun n i op dst src hi => ?_,
    fun n dst => ⟨writeResult_ok_iff, fun n' => stored_of_writeResult⟩,
    fun n lhs rhs => ⟨_, rfl, Flags.afterCompare_order _ _ _⟩⟩
  · split
    · next h => exact Alu.execute_of_defined h a
    · next h => exact Alu.execute_of_undefined h a
  · rw [execute_operation p hi]
    by_cases hdefined : op.Defined (n.core.regs.operand src)
    · obtain ⟨r, overflow, hrun, -⟩ := Alu.execute_of_defined hdefined (n.core.regs.read dst)
      rw [arithmetic_of_ok hrun]
      exact ⟨writeResult_ok_iff.trans (and_iff_right hdefined).symm,
        fun n' hn' => ⟨r, overflow, hrun, stored_of_writeResult hn'⟩⟩
    · rw [arithmetic_of_error (Alu.execute_of_undefined hdefined _)]
      exact ⟨iff_of_false (fun ⟨_, h⟩ => by cases h) fun h => hdefined h.1, fun _ h => by cases h⟩

/-- The least number divided by minus one: the quotient is `2 ^ 31`, of which the least number is
left, and the flags say that it is negative and overflowed. -/
theorem arithmetic_is_exact_of_least :
    let regs : RegisterFile := { general := .replicate 30 0x80000000 }
    let n : Node PagedMemory :=
      { bus := { memory := .ofSize 256, capacity := 1 }, core := { Core.new 0 1 with regs } }
    Rounds ((-2 ^ 31 : Int).tdiv (-1)) 0x80000000 true ∧
      ∃ n', execute {} .base (.alu .div (.general 1) (.imm (-1))) n = .ok () n' ∧
        n'.core.regs.read (.general 1) = 0x80000000 ∧
        n'.core.regs.flags.Describes 0x80000000 true := by
  intro regs n
  obtain ⟨hunit, hinstructions, -⟩ := arithmetic_is_exact (β := PagedMemory) {}
  have hrun : Alu.execute .div 0x80000000 0xffffffff = .ok (0x80000000, true) := by decide
  have hdefined : AluOp.div.Defined 0xffffffff := by decide
  have hdiv := hunit .div 0x80000000 0xffffffff
  rw [if_pos hdefined] at hdiv
  obtain ⟨r, overflow, hrun', hyields⟩ := hdiv
  cases hrun.symm.trans hrun'
  obtain ⟨hsucceeds, hresult⟩ := hinstructions n (.alu .div (.general 1) (.imm (-1))) .div _ _ rfl
  obtain ⟨n', hn'⟩ := hsucceeds.2 ⟨hdefined, fun h => by cases h⟩
  obtain ⟨r, overflow, hrun'', hstored⟩ := hresult n' hn'
  cases hrun.symm.trans hrun''
  exact ⟨hyields, n', hn', hstored.value (by decide), hstored.flags⟩

end Node

end Multicore
