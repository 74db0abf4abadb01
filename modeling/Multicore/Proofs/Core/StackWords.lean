import Multicore.Proofs.Core.Effects

/-!
# Words on a stack

`Bus.Stacked` says which words lie one after the other from an address on, by the values that
the bus has there. Pushing adds a word in front (`Node.push_of_stacked`), popping takes the first
one off (`Node.pop_of_stacked`), and words stay where they are as long as nothing is written over
them (`Bus.WordsFrom.congr`). Addresses wrap, so words are told apart by their distance from the
first one. The last word of the address space lies outside memory, so a stack never goes all the
way around (`Bus.WordsFrom.length_lt`).
-/

namespace Multicore

/-! ## Addresses on a stack -/

/-- An offset added in a segment is added to the address, since both wrap alike. -/
theorem segmentAddress_add (ds sp d : UInt32) :
    segmentAddress ds (sp + d) = segmentAddress ds sp + d :=
  (UInt32.add_assoc ..).symm

/-- An offset taken away in a segment is taken away from the address. -/
theorem segmentAddress_sub (ds sp d : UInt32) :
    segmentAddress ds (sp - d) = segmentAddress ds sp - d := by
  rw [UInt32.sub_eq_add_neg, UInt32.sub_eq_add_neg, segmentAddress_add]

/-- The next word is the first of those behind it. -/
theorem Address.add_word_succ (a : Address) (k : Nat) :
    a + 4 * UInt32.ofNat (k + 1) = a + 4 + 4 * UInt32.ofNat k := by
  rw [UInt32.ofNat_add, UInt32.mul_add, UInt32.add_comm (4 * UInt32.ofNat k), ← UInt32.add_assoc]
  rfl

/-- The words above a place are other words, unless they go all the way around. -/
theorem Address.add_word_ne {a : Address} {k : Nat} (h : k + 1 < 0x40000000) :
    a + 4 * UInt32.ofNat k ≠ a - 4 := by
  intro e
  have hzero : 4 * UInt32.ofNat k + 4 = 0 := by
    have := congrArg (fun b => b + 4 - a) e
    rwa [UInt32.sub_add_cancel, UInt32.sub_self, UInt32.add_assoc, UInt32.add_comm a,
      UInt32.add_sub_cancel] at this
  have hround : ((4 * k) % 4294967296 + 4) % 4294967296 = 0 := by
    have := congrArg UInt32.toNat hzero
    rwa [UInt32.toNat_add, UInt32.toNat_mul,
      UInt32.toNat_ofNat_of_lt' (show k < 4294967296 by omega)] at this
  omega

/-! ## Words on a bus -/

namespace Bus

variable {bus bus' : Bus PagedMemory} {i : Nat} {a : Address} {w v : UInt32} {ws : List UInt32}

/-- Reads and write-backs keep every word. -/
theorem Written.word (h : bus.Written i .none bus') (ha : a % 4 = 0) :
    bus'.valueAt a .word = bus.valueAt a .word := by
  show wordOfHalves (bus'.halfAt a) (bus'.halfAt (a + 2)) = _
  rw [h.halfAt (even_of_word ha).1, h.halfAt (even_of_word ha).2]
  rfl

/-- A word that is written has its value. -/
theorem Written.word_self (h : bus.Written i (bus.patch a v .word) bus') (ha : a % 4 = 0) :
    bus'.valueAt a .word = v := by
  have hne : a ≠ a + 2 := fun e => by
    have := congrArg UInt32.toNat e
    rw [Address.toNat_add_two ha] at this
    omega
  show wordOfHalves (bus'.halfAt a) (bus'.halfAt (a + 2)) = v
  rw [h.halfAt (even_of_word ha).1, h.halfAt (even_of_word ha).2, patch_word, patch_word,
    if_neg hne, if_pos rfl, if_pos rfl]
  exact wordOfHalves_halves v

/-- Every other word stays. -/
theorem Written.word_of_ne (h : bus.Written i (bus.patch a v .word) bus') (ha : a % 4 = 0)
    {b : Address} (hb : b % 4 = 0) (hne : b ≠ a) :
    bus'.valueAt b .word = bus.valueAt b .word := by
  have hupper := Address.toNat_add_two ha
  have hupper' := Address.toNat_add_two hb
  have hne' : b.toNat ≠ a.toNat := fun e => hne (UInt32.toNat_inj.1 e)
  have ha' := Address.dvd_four_iff.1 ha
  have hb' := Address.dvd_four_iff.1 hb
  have h₁ : b ≠ a + 2 := fun e => by
    have := congrArg UInt32.toNat e
    omega
  have h₂ : b + 2 ≠ a := fun e => by
    have := congrArg UInt32.toNat e
    omega
  have h₃ : b + 2 ≠ a + 2 := fun e => by
    have := congrArg UInt32.toNat e
    omega
  show wordOfHalves (bus'.halfAt b) (bus'.halfAt (b + 2)) = _
  rw [h.halfAt (even_of_word hb).1, h.halfAt (even_of_word hb).2, patch_word, patch_word,
    if_neg h₁, if_neg hne, if_neg h₂, if_neg h₃]
  rfl

/-! ## Rows of words -/

/-- The words that lie one after the other from an address on. -/
def WordsFrom (bus : Bus PagedMemory) : Address → List UInt32 → Prop
  | _, [] => True
  | a, w :: ws =>
    (bus.refusal a .word = none ∧ bus.valueAt a .word = w) ∧ bus.WordsFrom (a + 4) ws

/-- Words stay where they are if nothing new is refused and their places keep their values. -/
theorem WordsFrom.congr (h : bus.WordsFrom a ws)
    (hr : ∀ b, bus'.refusal b .word = bus.refusal b .word)
    (hw : ∀ k, k < ws.length → bus.refusal (a + 4 * UInt32.ofNat k) .word = none →
      bus'.valueAt (a + 4 * UInt32.ofNat k) .word = bus.valueAt (a + 4 * UInt32.ofNat k) .word) :
    bus'.WordsFrom a ws := by
  induction ws generalizing a with
  | nil => trivial
  | cons w rest ih =>
    obtain ⟨⟨haccepts, hvalue⟩, hrest⟩ := h
    refine ⟨⟨(hr a).trans haccepts, ?_⟩, ih hrest fun k hk hk' => ?_⟩
    · have hzero : a + 4 * UInt32.ofNat 0 = a := UInt32.add_zero a
      have hfirst := hw 0 (Nat.zero_lt_succ _)
      rw [hzero] at hfirst
      exact (hfirst haccepts).trans hvalue
    · rw [← Address.add_word_succ] at hk' ⊢
      exact hw (k + 1) (Nat.succ_lt_succ hk) hk'

/-- All the words can be accessed. -/
theorem WordsFrom.accepted (h : bus.WordsFrom a ws) {k : Nat} (hk : k < ws.length) :
    bus.refusal (a + 4 * UInt32.ofNat k) .word = none := by
  induction ws generalizing a k with
  | nil => cases hk
  | cons w rest ih =>
    cases k with
    | zero =>
      rw [show a + 4 * UInt32.ofNat 0 = a from UInt32.add_zero a]
      exact h.1.1
    | succ k =>
      rw [Address.add_word_succ]
      exact ih h.2 (Nat.lt_of_succ_lt_succ hk)

/-- Words never go all the way around, since the last word of the address space lies outside
memory. -/
theorem WordsFrom.length_lt (h : bus.WordsFrom a ws) : ws.length < 0x40000000 := by
  refine Nat.lt_of_not_le fun hlen => ?_
  have haccepted : ∀ k < 0x40000000, bus.refusal (a + 4 * UInt32.ofNat k) .word = none :=
    fun k hk => h.accepted (by omega)
  have halign : a.toNat % 4 = 0 := by
    have := aligned_of_refusal (haccepted 0 (by decide))
    rw [show a + 4 * UInt32.ofNat 0 = a from UInt32.add_zero a] at this
    exact Address.dvd_four_iff.1 this
  have ha := a.toNat_lt
  obtain ⟨k, hk⟩ : ∃ k, a.toNat + 4 * k = 0xfffffffc := ⟨(0xfffffffc - a.toNat) / 4, by omega⟩
  have hlast : a + 4 * UInt32.ofNat k = 0xfffffffc := by
    refine UInt32.toNat_inj.1 ?_
    rw [UInt32.toNat_add, UInt32.toNat_mul,
      UInt32.toNat_ofNat_of_lt' (show k < 4294967296 by omega)]
    show (a.toNat + 4 * k % 4294967296) % 4294967296 = 0xfffffffc
    omega
  have hinside := (refusal_eq_none_iff.1 (hlast ▸ haccepted k (by omega))).2.inside
  have hsize := bus.memory.size_lt
  have hmod := bus.memory.size_mod
  have hhalf : (Address.halfword 0xfffffffc).toNat = 0xfffffffc := by decide
  omega

/-- Cache `i` takes part in a coherent bus that has the words from an address on. -/
structure Stacked (bus : Bus PagedMemory) (i : Nat) (a : Address) (ws : List UInt32) : Prop where
  coherent : bus.Coherent
  registered : bus.isRegistered i = true
  words : bus.WordsFrom a ws

/-- A word that is written in front joins the others. -/
theorem Stacked.write (h : bus.Stacked i a ws) (hr : bus.refusal (a - 4) .word = none)
    (hw : bus.Written i (bus.patch (a - 4) v .word) bus') : bus'.Stacked i (a - 4) (v :: ws) := by
  have hlen := h.words.length_lt
  have hkeeps := refusal_congr hw.steady.pageCount
  have ha := aligned_of_refusal hr
  refine ⟨hw.coherent, (hw.isRegistered i).trans h.registered,
    ⟨(hkeeps _ _).trans hr, hw.word_self ha⟩, ?_⟩
  rw [UInt32.sub_add_cancel]
  refine h.words.congr (fun b => hkeeps b .word) fun k hk hk' => ?_
  exact hw.word_of_ne ha (aligned_of_refusal hk') (Address.add_word_ne (by omega))

/-- After a word is read, the others are still there. -/
theorem Stacked.read (h : bus.Stacked i a (w :: ws)) (hw : bus.Written i .none bus') :
    bus'.Stacked i (a + 4) ws := by
  refine ⟨hw.coherent, (hw.isRegistered i).trans h.registered, ?_⟩
  refine h.words.2.congr (fun b => refusal_congr hw.steady.pageCount b .word) fun k _ hk => ?_
  exact hw.word (aligned_of_refusal hk)

end Bus

namespace Node

variable {n n' : Node PagedMemory} {v w : UInt32} {ws : List UInt32}

/-! ## Pushes and pops -/

/-- The address of the top of the stack. -/
def top (n : Node PagedMemory) : Address := n.core.dataAddress n.core.regs.sp

/-- The core with its stack pointer moved. -/
def moved (c : Core) (sp : UInt32) : Core := { c with regs := { c.regs with sp } }

/-- Words were pushed and popped: the given ones are on the stack, the core is as given but for
its stack pointer, and on the bus nothing happened but accesses. -/
structure Stands (bus : Bus PagedMemory) (c : Core) (ws : List UInt32) (n : Node PagedMemory) :
    Prop where
  stacked : n.bus.Stacked n.core.id n.top ws
  steady : bus.Steady n.bus
  core : ∃ sp, n.core = moved c sp

variable {bus : Bus PagedMemory} {c : Core}

/-- A coherent bus in which a core takes part is all that an empty stack needs. -/
theorem stands_nil (h : n.bus.Coherent) (hi : n.bus.isRegistered n.core.id = true) :
    Stands n.bus n.core [] n :=
  ⟨⟨h, hi, trivial⟩, .refl n.bus, n.core.regs.sp, rfl⟩

/-- A change of the core that has nothing to do with the stack. -/
theorem Stands.mapCore (h : Stands bus c ws n) (f : Core → Core)
    (hf : ∀ sp, f (moved c sp) = moved (f c) sp)
    (hid : (f c).id = c.id) (hds : (f c).regs.ds = c.regs.ds) :
    Stands bus (f c) ws (n.mapCore f) := by
  obtain ⟨sp, hcore⟩ := h.core
  have hmap : (n.mapCore f).core = moved (f c) sp := by
    rw [← hf, ← hcore]
    rfl
  refine ⟨?_, h.steady, sp, hmap⟩
  have htop : (n.mapCore f).top = n.top := by
    rw [top, hmap, top, hcore]
    show segmentAddress (f c).regs.ds sp = segmentAddress c.regs.ds sp
    rw [hds]
  have hid' : (n.mapCore f).core.id = n.core.id := by
    rw [hmap, hcore]
    exact hid
  rw [htop, hid']
  exact h.stacked

/-- A push that succeeds stores its word and moves the stack pointer. -/
theorem push_of_ok (h : n.bus.Coherent) (hi : n.bus.isRegistered n.core.id = true)
    (hrun : push v n = .ok () n') :
    n.bus.refusal (n.top - 4) .word = none ∧
      ∃ bus, n.bus.Written n.core.id (n.bus.patch (n.top - 4) v .word) bus ∧
        n' = { n with bus, core := moved n.core (n.core.regs.sp - 4) } := by
  have htop : n.core.dataAddress (n.core.regs.sp - 4) = n.top - 4 := segmentAddress_sub ..
  have hspec := Bus.writeWord_spec h hi (n.top - 4) v
  rw [push, getCore_bind, htop] at hrun
  rcases hr : n.bus.refusal (n.top - 4) .word with _ | fault
  · obtain ⟨bus, hx, hw⟩ := hspec.accepted hr
    rw [bind_of_ok (onBus_of_ok hx)] at hrun
    cases hrun
    exact ⟨rfl, bus, hw, rfl⟩
  · obtain ⟨bus, hx, -⟩ := hspec.refused hr
    rw [bind_of_error (onBus_of_error hx)] at hrun
    cases hrun

/-- After a push that succeeds its word lies in front of the words of the stack. -/
theorem push_of_stacked (h : n.bus.Stacked n.core.id n.top ws) (hrun : push v n = .ok () n') :
    n'.core = moved n.core (n.core.regs.sp - 4) ∧ n.bus.Steady n'.bus ∧
      n'.bus.Stacked n'.core.id n'.top (v :: ws) := by
  obtain ⟨hr, bus', hw, rfl⟩ := push_of_ok h.coherent h.registered hrun
  refine ⟨rfl, hw.steady, ?_⟩
  show bus'.Stacked n.core.id (segmentAddress n.core.regs.ds (n.core.regs.sp - 4)) _
  rw [segmentAddress_sub]
  exact h.write hr hw

/-- A pop answers the first word of the stack and leaves the others. -/
theorem pop_of_stacked (h : n.bus.Stacked n.core.id n.top (w :: ws)) :
    ∃ n', pop n = .ok w n' ∧ n'.core = moved n.core (n.core.regs.sp + 4) ∧
      n.bus.Steady n'.bus ∧ n'.bus.Stacked n'.core.id n'.top ws := by
  obtain ⟨bus', hx, hw⟩ := (Bus.readWord_spec h.coherent h.registered n.top).accepted h.words.1.1
  have hvalue : wordOfHalves (n.bus.halfAt n.top) (n.bus.halfAt (n.top + 2)) = w := h.words.1.2
  rw [hvalue] at hx
  have hrun : pop n = .ok w { n with bus := bus', core := moved n.core (n.core.regs.sp + 4) } := by
    rw [pop, getCore_bind]
    exact bind_of_ok (onBus_of_ok hx)
  refine ⟨_, hrun, rfl, hw.steady, ?_⟩
  show bus'.Stacked n.core.id (segmentAddress n.core.regs.ds (n.core.regs.sp + 4)) ws
  rw [segmentAddress_add]
  exact h.read hw

/-- The core stays as given but for its stack pointer when that is moved again. -/
theorem Stands.moved_again (h : Stands bus c ws n) (sp : UInt32) :
    moved n.core sp = moved c sp := by
  obtain ⟨_, hcore⟩ := h.core
  rw [hcore]
  rfl

/-- A push that succeeds puts its word in front of the words of the stack. -/
theorem Stands.push (h : Stands bus c ws n) (hrun : push v n = .ok () n') :
    Stands bus c (v :: ws) n' := by
  obtain ⟨hcore, hsteady, hstacked⟩ := push_of_stacked h.stacked hrun
  exact ⟨hstacked, h.steady.trans hsteady, _, hcore.trans (h.moved_again _)⟩

/-- Pushes put their words in front of the words of the stack, the last one first. -/
theorem Stands.pushAll {l : List UInt32} (h : Stands bus c ws n)
    (hrun : l.forM Node.push n = .ok () n') : Stands bus c (l.reverse ++ ws) n' := by
  induction l generalizing n ws with
  | nil =>
    cases hrun
    exact h
  | cons v rest ih =>
    rw [List.forM_eq_forM, List.forM_cons] at hrun
    obtain ⟨_, n₁, hpush, hrest⟩ := of_bind_eq_ok hrun
    have := ih (h.push hpush) hrest
    rwa [List.reverse_cons, List.append_assoc, List.singleton_append]

/-- A pop takes the first word off the stack. -/
theorem Stands.pop (h : Stands bus c (w :: ws) n) :
    ∃ n', Node.pop n = .ok w n' ∧ Stands bus c ws n' := by
  obtain ⟨n', hrun, hcore, hsteady, hstacked⟩ := pop_of_stacked h.stacked
  exact ⟨n', hrun, hstacked, h.steady.trans hsteady, _, hcore.trans (h.moved_again _)⟩

/-- A word is popped into the registers. -/
theorem Stands.popInto (h : Stands bus c (w :: ws) n) (g : UInt32 → RegisterFile → RegisterFile)
    (hg : ∀ sp, g w { c.regs with sp } = { g w c.regs with sp })
    (hds : (g w c.regs).ds = c.regs.ds) :
    ∃ n', (∀ {α : Type} (x : NodeM PagedMemory α), (do
        let v ← Node.pop
        modifyRegs (g v)
        x : NodeM PagedMemory α) n = x n') ∧
      Stands bus { c with regs := g w c.regs } ws n' := by
  obtain ⟨n₁, hpop, hn₁⟩ := h.pop
  refine ⟨n₁.mapRegs (g w), fun _ => bind_of_ok hpop, ?_⟩
  refine hn₁.mapCore (fun c => { c with regs := g w c.regs }) (fun sp => ?_) rfl hds
  show ({ c with regs := g w { c.regs with sp } } : Core) = _
  rw [hg]
  rfl

end Node

end Multicore
