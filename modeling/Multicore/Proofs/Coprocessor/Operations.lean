import Multicore.Proofs.Coprocessor.Calculator

/-!
# Coprocessor operations

An operation of the coprocessor does to a core what it does to the calculator
(`Node.executeMathOp_follows`): if it is allowed it succeeds, with the stack and the registers of
the calculator, and else it ends in the fault that belongs to it. Nothing but the operand stack and
the registers of the core changes.

Most operations are computations on the operand stack alone, and are followed there
(`OperandStack.Follows`).
-/

namespace Multicore

namespace OperandStack

/-! ## Words of 64 bits as integers -/

/-- Modulo 2 ^ 64, a signed number is its bits. -/
theorem toInt_emod (v : Int64) : v.toInt % 2 ^ 64 = v.toUInt64.toNat := by
  have hlt : v.toUInt64.toNat < 2 ^ 64 := v.toUInt64.toNat_lt
  have hsigned : v.toInt = (v.toUInt64.toNat : Int).bmod (2 ^ 64) :=
    BitVec.toInt_eq_toNat_bmod v.toBitVec
  have hmod : v.toInt % (2 ^ 64 : Nat) = v.toUInt64.toNat % (2 ^ 64 : Nat) := by
    rw [hsigned, Int.bmod_emod]
  omega

/-- A word that is taken as unsigned stays what it is. -/
theorem toInt_of_unsigned (v : UInt32) : v.toUInt64.toInt64.toInt = v.toNat := by
  have hlt : v.toNat < 2 ^ 32 := v.toNat_lt
  have hsigned : v.toUInt64.toInt64.toInt = (v.toUInt64.toNat : Int).bmod (2 ^ 64) :=
    BitVec.toInt_eq_toNat_bmod v.toUInt64.toBitVec
  rw [hsigned, UInt32.toNat_toUInt64, Int.bmod_eq_of_le_mul_two (by omega) (by omega)]

/-- The lower half of a number is the number modulo 2 ^ 32. -/
theorem lowerHalf_eq (v : Int64) : v.toUInt64.toUInt32 = .ofInt (v.toInt / 2 ^ 0) := by
  have h := toInt_emod v
  rw [← UInt32.toNat_inj, UInt64.toNat_toUInt32, UInt32.ofInt, UInt32.toNat_ofNat']
  omega

/-- The upper half of a number is its floored quotient by 2 ^ 32. -/
theorem upperHalf_eq (v : Int64) : (v.toUInt64 >>> 32).toUInt32 = .ofInt (v.toInt / 2 ^ 32) := by
  have h := toInt_emod v
  have hshift : (v.toUInt64 >>> 32).toNat = v.toUInt64.toNat / 2 ^ 32 :=
    Nat.shiftRight_eq_div_pow ..
  rw [← UInt32.toNat_inj, UInt64.toNat_toUInt32, hshift, UInt32.ofInt, UInt32.toNat_ofNat']
  omega

/-- A remainder is a word of 64 bits as it is. -/
theorem toInt_mod_eq_wrap (x y : Int64) : (x % y).toInt = wrap (x.toInt.tmod y.toInt) := by
  rw [← Int64.toInt_mod]
  exact (Int64.toInt_bmod _).symm

/-- A word of 64 bits is known from its value modulo `2 ^ 64`. -/
theorem wrap_toInt_emod (v : Int64) : wrap (v.toInt % 2 ^ 64) = v.toInt :=
  (Int.emod_bmod v.toInt (2 ^ 64)).trans v.toInt_bmod

/-! ## Computations on the stack -/

/-- The values as integers. -/
def integers (s : OperandStack) : List Int := s.values.map Int64.toInt

/-- What came of the operand stack is what comes of the stack of the calculator. -/
structure Follows (op : MathOp) (regs : RegisterFile) (s : OperandStack)
    (r : EStateM.Result Fault OperandStack Unit) : Prop where
  allowed : op.Allowed ⟨s.integers, regs⟩ → ∃ s', r = .ok () s' ∧
    ⟨s'.integers, regs⟩ = Calculator.after ⟨s.integers, regs⟩ op
  refused : ¬ op.Allowed ⟨s.integers, regs⟩ → ∃ s', r = .error (op.fault ⟨s.integers, regs⟩) s'

section
variable {op : MathOp} {regs : RegisterFile} {s s' : OperandStack}

/-- An operation that succeeds follows the calculator if it was allowed and came to the same. -/
theorem Follows.of_ok (hallowed : op.Allowed ⟨s.integers, regs⟩)
    (hafter : ⟨s'.integers, regs⟩ = Calculator.after ⟨s.integers, regs⟩ op) :
    Follows op regs s (.ok () s') :=
  ⟨fun _ => ⟨s', rfl, hafter⟩, fun h => absurd hallowed h⟩

/-- An operation that fails follows the calculator if it was refused, with the fault that is due.
What is left on the stack does not matter here. -/
theorem Follows.of_error (hrefused : ¬ op.Allowed ⟨s.integers, regs⟩) :
    Follows op regs s (.error (op.fault ⟨s.integers, regs⟩) s') :=
  ⟨fun h => absurd h hrefused, fun _ => ⟨s', rfl⟩⟩

/-- Operands are missing. -/
theorem Follows.of_short (hshort : s.values.length < op.operands) :
    Follows op regs s (.error .stackUnderflow s') := by
  have hlength : (⟨s.integers, regs⟩ : Calculator).stack.length < op.operands := by
    rwa [integers, List.length_map]
  rw [← MathOp.fault_of_short hlength]
  exact .of_error fun h => absurd h.operands (Nat.not_le_of_lt hlength)

/-- A stack that is not full takes a number. -/
theorem push_of_lt (v : Int64) (h : s.values.length < maxDepth) :
    push v s = .ok () ⟨v :: s.values, h⟩ :=
  dif_pos h

/-- A full stack overflows and stays as it is. -/
theorem push_of_full (v : Int64) (h : ¬ s.values.length < maxDepth) :
    push v s = .error .stackOverflow s :=
  dif_neg h

/-- The operations that push a value. -/
theorem follows_push {v : Int64} (hoperands : op.operands ≤ s.values.length)
    (hgrows : op.grows = true) (hdivides : op.divides = false) (hmode : op.needsPrivilege = false)
    (hafter : Calculator.after ⟨s.integers, regs⟩ op = ⟨v.toInt :: s.integers, regs⟩) :
    Follows op regs s (push v s) := by
  have hlength : s.integers.length = s.values.length := List.length_map ..
  have hoperands' : op.operands ≤ (⟨s.integers, regs⟩ : Calculator).stack.length :=
    hlength ▸ hoperands
  by_cases h : s.values.length < maxDepth
  · rw [push_of_lt v h]
    refine .of_ok ⟨hoperands', fun _ => hlength ▸ h, by simp [hdivides], by simp [hmode]⟩ ?_
    rw [hafter]
    rfl
  · rw [push_of_full v h, ← MathOp.fault_of_grows hgrows hoperands']
    exact .of_error fun ha => h (hlength ▸ ha.room hgrows)

end

variable {op : MathOp} {regs : RegisterFile}

section
variable {f : Int64 → Int64 → Except Fault Int64} {x y : Int64} {rest : List Int64}

/-- The number on top is popped. -/
theorem pop_cons {v : Int64} (hs : (v :: rest).length ≤ maxDepth) :
    pop ⟨v :: rest, hs⟩ = .ok v ⟨rest, Nat.le_of_succ_le hs⟩ :=
  rfl

/-- The two numbers on top are replaced by their combination. -/
theorem combine_of_ok {v : Int64} (hs : (y :: x :: rest).length ≤ maxDepth) (h : f x y = .ok v) :
    combine f ⟨y :: x :: rest, hs⟩ = .ok () ⟨v :: rest, Nat.le_of_succ_le hs⟩ := by
  unfold combine
  rw [bind_of_ok (pop_cons hs), bind_of_ok (pop_cons (Nat.le_of_succ_le hs)), h]
  exact push_of_lt v (Nat.le_of_succ_le hs)

/-- A combination that fails has consumed its operands. -/
theorem combine_of_error {fault : Fault} (hs : (y :: x :: rest).length ≤ maxDepth)
    (h : f x y = .error fault) : combine f ⟨y :: x :: rest, hs⟩ =
      .error fault ⟨rest, Nat.le_of_succ_le (Nat.le_of_succ_le hs)⟩ := by
  unfold combine
  rw [bind_of_ok (pop_cons hs), bind_of_ok (pop_cons (Nat.le_of_succ_le hs)), h]
  rfl

end

/-- The operations that replace the two topmost values by a result, which is missing for a zero
divisor only. -/
theorem follows_combine {f : Int64 → Int64 → Except Fault Int64} {g : Int → Int → Int}
    (hoperands : op.operands = 2) (hgrows : op.grows = false) (hmode : op.needsPrivilege = false)
    (hafter : ∀ c, Calculator.after c op = c.combine g)
    (hf : ∀ x y, (op.divides = true → y ≠ 0) →
      ∃ v, f x y = .ok v ∧ v.toInt = wrap (g x.toInt y.toInt))
    (hzero : op.divides = true → ∀ x, f x 0 = .error .divideByZero) (s : OperandStack) :
    Follows op regs s (combine f s) := by
  obtain ⟨_ | ⟨y, _ | ⟨x, rest⟩⟩, hs⟩ := s
  · exact .of_short (hoperands ▸ Nat.zero_lt_two)
  · exact .of_short (hoperands ▸ Nat.one_lt_two)
  have hallowed : op.Allowed ⟨y.toInt :: x.toInt :: rest.map Int64.toInt, regs⟩ ↔
      (op.divides = true → y ≠ 0) := by
    refine ⟨fun h hd hy => h.divisor hd (by rw [hy]; rfl), fun h =>
      ⟨by simp [hoperands], by simp [hgrows], fun hd hy => h hd ?_, by simp [hmode]⟩⟩
    exact Int64.toInt_inj.1 (Option.some.inj hy)
  by_cases hd : op.divides = true → y ≠ 0
  · obtain ⟨v, hv, hvalue⟩ := hf x y hd
    rw [combine_of_ok hs hv]
    refine .of_ok (hallowed.2 hd) ?_
    rw [hafter]
    show _ = (⟨wrap (g x.toInt y.toInt) :: rest.map Int64.toInt, regs⟩ : Calculator)
    rw [← hvalue]
    rfl
  · -- the operands are off the stack when the divisor is found to be zero
    obtain ⟨hdivides, hy⟩ := Classical.not_imp.1 hd
    rw [Classical.not_not] at hy
    have hfault := MathOp.fault_of_divides hdivides
      (c := ⟨y.toInt :: x.toInt :: rest.map Int64.toInt, regs⟩) (by simp [hoperands])
    rw [combine_of_error hs (hy ▸ hzero hdivides x), ← hfault]
    exact .of_error fun h => hd (hallowed.1 h)

/-- The operations that add to the top. -/
theorem follows_adjustTop {delta : Int64} (hoperands : op.operands = 1) (hgrows : op.grows = false)
    (hdivides : op.divides = false) (hmode : op.needsPrivilege = false)
    (hafter : ∀ c, Calculator.after c op = c.adjust delta.toInt) (s : OperandStack) :
    Follows op regs s (adjustTop delta s) := by
  obtain ⟨_ | ⟨v, rest⟩, hs⟩ := s
  · exact .of_short (hoperands ▸ Nat.zero_lt_one)
  have hrun : adjustTop delta ⟨v :: rest, hs⟩ = .ok () ⟨(v + delta) :: rest, hs⟩ :=
    push_of_lt (v + delta) (s := ⟨rest, Nat.le_of_succ_le hs⟩) hs
  rw [hrun]
  refine .of_ok (MathOp.allowed_of_operands hgrows hdivides hmode ?_) ?_
  · simp [hoperands, integers]
  rw [hafter]
  show (⟨(v + delta).toInt :: rest.map Int64.toInt, regs⟩ : Calculator) = _
  rw [Int64.toInt_add]
  rfl

/-- To duplicate the top is refused on an empty stack and on a full one. -/
theorem follows_dup (s : OperandStack) :
    Follows .dup regs s ((do push (← peek) : Run Unit) s) := by
  obtain ⟨_ | ⟨v, rest⟩, hs⟩ := s
  · exact .of_short Nat.zero_lt_one
  · exact follows_push (v := v) (Nat.le_add_left ..) rfl rfl rfl rfl

/-- To drop the top is refused on an empty stack. -/
theorem follows_drop (s : OperandStack) :
    Follows .drop regs s ((do let _ ← pop : Run Unit) s) := by
  obtain ⟨_ | ⟨v, rest⟩, hs⟩ := s
  · exact .of_short Nat.zero_lt_one
  · exact .of_ok (MathOp.allowed_of_operands rfl rfl rfl (Nat.le_add_left ..)) rfl

/-- To swap is refused below two numbers. -/
theorem follows_swap (s : OperandStack) : Follows .swap regs s (swap s) := by
  obtain ⟨_ | ⟨a, _ | ⟨b, rest⟩⟩, hs⟩ := s
  · exact .of_short Nat.zero_lt_two
  · exact .of_short Nat.one_lt_two
  have hrest : rest.length < maxDepth := Nat.lt_of_succ_lt hs
  have hrun : swap ⟨a :: b :: rest, hs⟩ = .ok () ⟨b :: a :: rest, hs⟩ :=
    (bind_of_ok (push_of_lt a (s := ⟨rest, Nat.le_of_lt hrest⟩) hrest)).trans
      (push_of_lt b (s := ⟨a :: rest, hrest⟩) hs)
  rw [hrun]
  exact .of_ok (MathOp.allowed_of_operands rfl rfl rfl (Nat.le_add_left ..)) rfl

end OperandStack

/-! ## Computations of a core -/

/-- The operand stack of a core as integers, and its registers. -/
def Core.calculator (c : Core) : Calculator := ⟨c.math.integers, c.regs⟩

namespace Node

variable {β : Type}

/-- What came of the core is what comes of the calculator, and nothing but the operand stack and the
registers has changed. -/
structure Follows (op : MathOp) (n : Node β) (r : EStateM.Result Fault (Node β) Unit) : Prop where
  allowed : op.Allowed n.core.calculator → ∃ math regs,
    r = .ok () (n.mapCore fun c => { c with math, regs }) ∧
    ⟨math.integers, regs⟩ = n.core.calculator.after op
  refused : ¬ op.Allowed n.core.calculator → ∃ math,
    r = .error (op.fault n.core.calculator) (n.mapCore fun c => { c with math })

variable {op : MathOp} {n : Node β}

/-- What succeeds on the operand stack replaces that of the core. -/
theorem onMath_of_ok {α : Type} {x : OperandStack.Run α} {a : α} {math : OperandStack}
    (h : x n.core.math = .ok a math) :
    onMath x n = .ok a (n.mapCore fun c => { c with math }) := by
  rw [onMath, h]

/-- What fails on the operand stack leaves it as the failure did. -/
theorem onMath_of_error {α : Type} {x : OperandStack.Run α} {fault : Fault} {math : OperandStack}
    (h : x n.core.math = .error fault math) :
    onMath x n = .error fault (n.mapCore fun c => { c with math }) := by
  rw [onMath, h]

/-- What follows the calculator on the stack does so for the core. -/
theorem follows_onMath {x : OperandStack.Run Unit}
    (h : OperandStack.Follows op n.core.regs n.core.math (x n.core.math)) :
    Follows op n (onMath x n) where
  allowed ha := by
    obtain ⟨math, hrun, hafter⟩ := h.allowed ha
    exact ⟨math, n.core.regs, onMath_of_ok hrun, hafter⟩
  refused hr := by
    obtain ⟨math, hrun⟩ := h.refused hr
    exact ⟨math, onMath_of_error hrun⟩

/-- The operations that take the top off and write a half of it to a register. -/
theorem follows_pop {half : Int64 → UInt32} {shift : Nat} {r : Register}
    (hhalf : ∀ v, half v = .ofInt (v.toInt / 2 ^ shift)) (hop : op = .popw r ∨ op = .popuw r)
    (hafter : ∀ c, Calculator.after c op = c.deliver shift r) :
    Follows op n ((do write r (half (← onMath OperandStack.pop)) : NodeM β Unit) n) := by
  obtain ⟨hoperands, hgrows, hdivides, hmode, hfault⟩ : op.operands = 1 ∧ op.grows = false ∧
      op.divides = false ∧ op.needsPrivilege = r.isProtected ∧
      ∀ c : Calculator, 1 ≤ c.stack.length →
        op.fault c = .accessViolation (.protectedRegister r) := by
    rcases hop with rfl | rfl
    all_goals exact ⟨rfl, rfl, rfl, rfl, fun _ h => if_neg (Nat.not_lt_of_le h)⟩
  rcases hmath : n.core.math with ⟨_ | ⟨v, rest⟩, hs⟩
  · have hstack : n.core.calculator.stack = [] := by rw [Core.calculator, hmath]; rfl
    have hpop : OperandStack.pop n.core.math = .error .stackUnderflow n.core.math := by
      rw [hmath]
      rfl
    have hshort : n.core.calculator.stack.length < op.operands := by simp [hstack, hoperands]
    rw [bind_of_error (onMath_of_error hpop), ← MathOp.fault_of_short hshort]
    exact ⟨fun h => absurd h.operands (Nat.not_le_of_lt hshort), fun _ => ⟨_, rfl⟩⟩
  · have hcalculator : n.core.calculator = ⟨v.toInt :: rest.map Int64.toInt, n.core.regs⟩ := by
      rw [Core.calculator, hmath]
      rfl
    have hpop : OperandStack.pop n.core.math = .ok v ⟨rest, Nat.le_of_succ_le hs⟩ := by
      rw [hmath]
      rfl
    have hallowed : op.Allowed n.core.calculator ↔
        (r.isProtected = true → n.core.regs.flags.privileged = true) := by
      rw [hcalculator, ← hmode]
      exact ⟨fun h => h.mode, fun h =>
        ⟨by simp [hoperands], by simp [hgrows], by simp [hdivides], h⟩⟩
    let math : OperandStack := ⟨rest, Nat.le_of_succ_le hs⟩
    let popped := n.mapCore fun c => { c with math }
    rw [bind_of_ok (onMath_of_ok hpop)]
    refine ⟨fun h => ⟨math, _, write_of_allowed (n := popped) (hallowed.1 h) _, ?_⟩,
      fun h => ⟨math, ?_⟩⟩
    · rw [hafter, hcalculator, hhalf]
      rfl
    · rw [hfault _ (by simp [hcalculator])]
      exact write_of_refused (n := popped) (fun h' => h (hallowed.2 h')) _

/-- An operation of the coprocessor does to a core what it does to the calculator. -/
theorem executeMathOp_follows [PhysicalMemory β] (op : MathOp) (n : Node β) :
    Follows op n (executeMathOp op n) := by
  cases op with
  | pushw src =>
    exact follows_onMath (OperandStack.follows_push (Nat.zero_le _) rfl rfl rfl
      (by rw [Int32.toInt_toInt64]; rfl))
  | pushuw src =>
    exact follows_onMath (OperandStack.follows_push (Nat.zero_le _) rfl rfl rfl
      (by rw [OperandStack.toInt_of_unsigned]; rfl))
  | popw dst => exact follows_pop OperandStack.lowerHalf_eq (.inl rfl) fun _ => rfl
  | popuw dst => exact follows_pop OperandStack.upperHalf_eq (.inr rfl) fun _ => rfl
  | add =>
    exact follows_onMath (OperandStack.follows_combine rfl rfl rfl (fun _ => rfl)
      (fun x y _ => ⟨x + y, rfl, Int64.toInt_add x y⟩) (by nofun) _)
  | sub =>
    exact follows_onMath (OperandStack.follows_combine rfl rfl rfl (fun _ => rfl)
      (fun x y _ => ⟨x - y, rfl, Int64.toInt_sub x y⟩) (by nofun) _)
  | mul =>
    exact follows_onMath (OperandStack.follows_combine rfl rfl rfl (fun _ => rfl)
      (fun x y _ => ⟨x * y, rfl, Int64.toInt_mul x y⟩) (by nofun) _)
  | div =>
    exact follows_onMath (OperandStack.follows_combine rfl rfl rfl (fun _ => rfl)
      (fun x y h => ⟨x / y, if_neg (h rfl), Int64.toInt_div x y⟩) (fun _ _ => rfl) _)
  | mod =>
    exact follows_onMath (OperandStack.follows_combine rfl rfl rfl (fun _ => rfl)
      (fun x y h => ⟨x % y, if_neg (h rfl), OperandStack.toInt_mod_eq_wrap x y⟩) (fun _ _ => rfl) _)
  | inc => exact follows_onMath (OperandStack.follows_adjustTop rfl rfl rfl rfl (fun _ => rfl) _)
  | dec => exact follows_onMath (OperandStack.follows_adjustTop rfl rfl rfl rfl (fun _ => rfl) _)
  | dup => exact follows_onMath (OperandStack.follows_dup _)
  | drop => exact follows_onMath (OperandStack.follows_drop _)
  | swap => exact follows_onMath (OperandStack.follows_swap _)

end Node

end Multicore
