import Multicore.Proofs.Core.Context
import Multicore.Proofs.Core.Quiet

/-!
# What a growing stack overwrites

A push overwrites the word under the top of the stack and no other. So the entry of an interrupt
handler overwrites the words that it saves the context in, clears the page of the handler's stack
if it allocates one, and spares every other word (`Node.enterHandler_overwrites`). Leaving a
handler overwrites nothing, and spares every word but those of the page that it frees
(`Node.leaveHandler_spares`).
-/

namespace Multicore

open Std

/-- The addresses of the words that lie one after the other from an address on. -/
def Address.row (a : Address) (length : Nat) : List Address :=
  (List.range length).map fun k => a + 4 * UInt32.ofNat k

/-- The addresses of a row are those at a multiple of four from its start. -/
theorem Address.mem_row_iff {a b : Address} {length : Nat} :
    b ∈ a.row length ↔ ∃ k < length, a + 4 * UInt32.ofNat k = b := by
  simp [row]

/-- A row is made of a shorter one and of what lies behind that. -/
theorem Address.mem_row_add_iff {a b : Address} {k l : Nat} :
    b ∈ a.row (k + l) ↔ b ∈ a.row k ∨ b ∈ row (a + 4 * UInt32.ofNat k) l := by
  have hbehind : ∀ j, a + 4 * UInt32.ofNat k + 4 * UInt32.ofNat j = a + 4 * UInt32.ofNat (k + j) :=
    fun j => by rw [UInt32.ofNat_add, UInt32.mul_add, UInt32.add_assoc]
  simp only [mem_row_iff, hbehind]
  constructor
  · rintro ⟨j, hj, rfl⟩
    by_cases hjk : j < k
    · exact .inl ⟨j, hjk, rfl⟩
    · exact .inr ⟨j - k, by omega, by rw [Nat.add_sub_cancel' (by omega)]⟩
  · rintro (⟨j, hj, rfl⟩ | ⟨j, hj, rfl⟩)
    · exact ⟨j, by omega, rfl⟩
    · exact ⟨k + j, by omega, rfl⟩

/-- The words of a row are aligned if the first one is. -/
theorem Address.aligned_of_mem_row {a b : Address} {length : Nat} (ha : a % 4 = 0)
    (hb : b ∈ a.row length) : b % 4 = 0 := by
  obtain ⟨k, -, rfl⟩ := mem_row_iff.1 hb
  rw [dvd_four_iff] at ha ⊢
  rw [UInt32.toNat_add, UInt32.toNat_mul]
  show (a.toNat + 4 * (UInt32.ofNat k).toNat % 4294967296) % 4294967296 % 4 = 0
  omega

/-- The words that end where a page ends lie in the page, as long as they fit in. -/
theorem Address.page_of_mem_row {a b : Address} {q : UInt32} (hq : q.toNat < 0x1000000)
    (hend : a + 144 = pageBase q + pageSize) (hb : b ∈ a.row 36) : b.page = q := by
  obtain ⟨k, hk, rfl⟩ := mem_row_iff.1 hb
  have hbase : (pageBase q).toNat = q.toNat * 256 := by
    rw [pageBase, UInt32.toNat_mul]
    show q.toNat * 256 % 4294967296 = _
    omega
  have hend' := congrArg UInt32.toNat hend
  rw [UInt32.toNat_add, UInt32.toNat_add, hbase] at hend'
  have hend'' : (a.toNat + 144) % 4294967296 = (q.toNat * 256 + 256) % 4294967296 := hend'
  have ha := a.toNat_lt
  refine UInt32.toNat_inj.1 ?_
  rw [page, UInt32.toNat_div, UInt32.toNat_add, UInt32.toNat_mul, UInt32.toNat_ofNat_of_lt' (by
    show k < 4294967296
    omega)]
  show (a.toNat + 4 * k % 4294967296) % 4294967296 / 256 = q.toNat
  omega

/-- Both halves of a word lie in the same page, so what happens to one page spares the words of the
others. -/
theorem Bus.word_of_copies_outside {bus bus' : Bus PagedMemory} {p : UInt32} (h : bus'.Coherent)
    (houtside : ∀ {a : Address}, a % 2 = 0 → a.toNat / 256 ≠ p.toNat →
      bus'.copies a = bus.copies a) {a : Address} (ha : a % 4 = 0) (hp : a.page ≠ p) :
    bus'.valueAt a .word = bus.valueAt a .word := by
  have hhalf : ∀ {b : Address}, b % 2 = 0 → b.page ≠ p → bus'.halfAt b = bus.halfAt b :=
    fun hb hout => halfAt_of_copies_eq h (houtside hb fun e => hout (Address.page_eq_iff.2 e))
  have hp' : (a + 2).page ≠ p := fun e => hp ((Address.page_add_two ha).symm.trans e)
  show wordOfHalves (bus'.halfAt a) (bus'.halfAt (a + 2)) = _
  rw [hhalf (even_of_word ha).1 hp, hhalf (even_of_word ha).2 hp']
  rfl

namespace Node

variable {n n' n₁ n₂ : Node PagedMemory}

/-! ## Pushes -/

/-- The stack grew by some words, and nothing else was overwritten. -/
structure Grew (length : Nat) (n n' : Node PagedMemory) : Prop where
  coherent : n'.bus.Coherent
  registered : n'.bus.isRegistered n'.core.id = true
  top : n'.top + 4 * UInt32.ofNat length = n.top
  words : ∀ a : Address, a % 4 = 0 → a ∉ n'.top.row length →
    n'.bus.valueAt a .word = n.bus.valueAt a .word

/-- A change of the core that has nothing to do with the stack. -/
theorem Grew.of_core (h : n.bus.Coherent) (hi : n.bus.isRegistered n.core.id = true)
    (hbus : n'.bus = n.bus) (hid : n'.core.id = n.core.id) (htop : n'.top = n.top) :
    Grew 0 n n' :=
  ⟨hbus ▸ h, by rw [hbus, hid]; exact hi, by rw [htop]; exact UInt32.add_zero n.top,
    fun _ _ _ => by rw [hbus]⟩

/-- A stack that grew twice grew by both. -/
theorem Grew.trans {k l : Nat} (h : Grew k n n₁) (h' : Grew l n₁ n₂) : Grew (l + k) n n₂ where
  coherent := h'.coherent
  registered := h'.registered
  top := by rw [UInt32.ofNat_add, UInt32.mul_add, ← UInt32.add_assoc, h'.top, h.top]
  words a ha hrow := by
    rw [Address.mem_row_add_iff, not_or, h'.top] at hrow
    exact (h'.words a ha hrow.1).trans (h.words a ha hrow.2)

/-- A push that succeeds grows the stack by a word. -/
theorem grew_of_push {v : UInt32} (h : n.bus.Coherent) (hi : n.bus.isRegistered n.core.id = true)
    (hrun : push v n = .ok () n') : Grew 1 n n' := by
  obtain ⟨hr, bus, hw, rfl⟩ := push_of_ok h hi hrun
  have htop : (({ n with bus, core := moved n.core (n.core.regs.sp - 4) }) : Node PagedMemory).top =
      n.top - 4 := segmentAddress_sub ..
  refine ⟨hw.coherent, (hw.isRegistered _).trans hi, ?_, fun a ha hrow => ?_⟩
  · rw [htop]
    exact UInt32.sub_add_cancel ..
  · rw [htop, Address.mem_row_iff] at hrow
    refine hw.word_of_ne (Bus.aligned_of_refusal hr) ha fun e => hrow ⟨0, by decide, ?_⟩
    rw [e]
    exact UInt32.add_zero _

/-- A push after the stack grew. -/
theorem Grew.push {k : Nat} (h : Grew k n n₁) {v : UInt32} (hrun : Node.push v n₁ = .ok () n₂) :
    Grew (1 + k) n n₂ :=
  h.trans (grew_of_push h.coherent h.registered hrun)

/-- A list of words that is pushed grows the stack by as many, by induction on the list. -/
theorem Grew.pushAll {k : Nat} {l : List UInt32} (h : Grew k n n₁)
    (hrun : l.forM Node.push n₁ = .ok () n₂) : Grew (l.length + k) n n₂ := by
  induction l generalizing n₁ k with
  | nil =>
    cases hrun
    rw [List.length_nil, Nat.zero_add]
    exact h
  | cons v rest ih =>
    rw [List.forM_eq_forM, List.forM_cons] at hrun
    obtain ⟨_, n₃, hpush, hrest⟩ := of_bind_eq_ok hrun
    have := ih (h.push hpush) hrest
    rwa [← Nat.add_assoc] at this

/-- Setting up a frame pushes two words. -/
theorem Grew.pushFrame {k : Nat} (h : Grew k n n₁) (hrun : Node.pushFrame n₁ = .ok () n₂) :
    Grew (2 + k) n n₂ := by
  unfold Node.pushFrame at hrun
  rw [getRegs_bind] at hrun
  obtain ⟨_, n₃, hip, hrun⟩ := of_bind_eq_ok hrun
  rw [getRegs_bind] at hrun
  obtain ⟨_, n₄, hfp, hrun⟩ := of_bind_eq_ok hrun
  have hgrew := (h.push hip).push hfp
  have hcore : Grew 0 n₄ n₂ := by
    cases hrun
    exact .of_core hgrew.coherent hgrew.registered rfl rfl rfl
  have := hgrew.trans hcore
  rwa [Nat.zero_add, ← Nat.add_assoc] at this

/-- Saving the context pushes its words. -/
theorem grew_of_saveContext {ds sp : UInt32} (h : n.bus.Coherent)
    (hi : n.bus.isRegistered n.core.id = true) (hrun : saveContext ds sp n = .ok () n') :
    Grew 36 n n' := by
  unfold saveContext at hrun
  obtain ⟨_, n₁, hds, hrun⟩ := of_bind_eq_ok hrun
  obtain ⟨_, n₂, hsp, hrun⟩ := of_bind_eq_ok hrun
  rw [getRegs_bind] at hrun
  obtain ⟨_, n₃, hcs, hrun⟩ := of_bind_eq_ok hrun
  rw [getRegs_bind] at hrun
  obtain ⟨_, n₄, hflags, hrun⟩ := of_bind_eq_ok hrun
  rw [getRegs_bind] at hrun
  obtain ⟨_, n₅, hgeneral, hrun⟩ := of_bind_eq_ok hrun
  have hpushes := (((grew_of_push h hi hds).push hsp).push hcs).push hflags
  have hall := (hpushes.pushAll hgeneral).pushFrame hrun
  rwa [Vector.length_toList] at hall

/-! ## Entry -/

/-- The stack of a handler spares every word but those of its page, and starts at the end of the
page. -/
theorem handlerStack_spares {v : InterruptVector} {sp : UInt32} {page : Option UInt32}
    (h : n.bus.Coherent) (hrun : handlerStack v n = .ok (sp, page) n') :
    (∀ a : Address, a % 4 = 0 → page ≠ some a.page →
      n'.bus.valueAt a .word = n.bus.valueAt a .word) ∧
    ∀ q, page = some q →
      q.toNat < n.bus.memory.pageCount ∧
        segmentAddress v.ds.toUInt32 sp = pageBase q + pageSize := by
  unfold handlerStack at hrun
  split at hrun
  · obtain ⟨p, n₁, halloc, hrun⟩ := of_bind_eq_ok hrun
    rcases hp : n.bus.memory.nextFree? (some v.ds.toUInt32) with _ | q
    · rw [allocatePage_of_none hp] at halloc
      cases halloc
    · obtain ⟨bus, halloc', hq, hcleared, -⟩ := allocatePage_of_some h hp
      rw [halloc'] at halloc
      cases halloc
      cases hrun
      refine ⟨fun a ha hpage =>
        Bus.word_of_copies_outside hcleared.coherent hcleared.outside ha fun e => hpage (by rw [e]),
        fun q e => ?_⟩
      cases e
      refine ⟨hq.symm ▸ PagedMemory.lt_of_nextFree? hp, ?_⟩
      rw [segmentAddress, segmentAddress, UInt32.add_zero, UInt32.add_comm]
      exact UInt32.sub_add_cancel ..
  · cases hrun
    exact ⟨fun _ _ _ => rfl, nofun⟩

/-- What entering a handler overwrites: the words of the saved context, which start at the top of
the stack, and the page of the stack, if it has one. -/
theorem enterHandler_overwrites {table : Address} {index : UInt32} {page : Option UInt32}
    (h : n.bus.Coherent) (hi : n.bus.isRegistered n.core.id = true)
    (hrun : enterHandler table index n = .ok () n')
    (hactive : n'.core.interruptStacks = page :: n.core.interruptStacks) :
    (∀ a : Address, a % 4 = 0 → a ∉ n'.top.row 36 → page ≠ some a.page →
      n'.bus.valueAt a .word = n.bus.valueAt a .word) ∧
    ∀ q, page = some q → ∀ a ∈ n'.top.row 36, a.page = q := by
  rw [enterHandler_eq] at hrun
  obtain ⟨v, n₁, hvector, hrun⟩ := of_bind_eq_ok hrun
  have hn₁ := finalState_loadVector table index n
  rw [finalState_of_ok hvector] at hn₁
  rw [hn₁] at hrun
  obtain ⟨⟨sp, page'⟩, n₂, hstack, hrun⟩ := of_bind_eq_ok hrun
  obtain ⟨bus, rfl, hcoherent, hregistered, -⟩ := handlerStack_of_ok h hi hstack
  obtain ⟨hspares, hpage⟩ := handlerStack_spares h hstack
  unfold openHandler at hrun
  rw [getRegs_bind, modifyRegs_bind] at hrun
  obtain ⟨_, n₃, hsave, hrun⟩ := of_bind_eq_ok hrun
  have hsave := onFailure_eq_ok_iff.1 hsave
  have hgrew := grew_of_saveContext (n := Node.mapRegs { n with bus }
    fun regs => { regs with ds := v.ds.toUInt32, sp }) hcoherent hregistered hsave
  cases hrun
  have hpages : page' :: n₃.core.interruptStacks = page :: n.core.interruptStacks := hactive
  obtain rfl := (List.cons.inj hpages).1
  refine ⟨fun a ha hrow houtside => ?_, fun q e a hmem => ?_⟩
  · exact (hgrew.words a ha hrow).trans (hspares a ha houtside)
  · obtain ⟨hlt, hend⟩ := hpage q e
    have hcount := n.bus.memory.pageCount_lt
    exact Address.page_of_mem_row (by omega) (hgrew.top.trans hend) hmem

/-! ## Exit -/

/-- Nothing was written. -/
def ReadsOnly (n n' : Node PagedMemory) : Prop :=
  n.bus.Coherent → n.bus.isRegistered n.core.id = true →
    n'.core.id = n.core.id ∧ n.bus.Written n.core.id .none n'.bus

/-- What does not change the bus writes nothing. -/
theorem readsOnly_of_bus (hid : n'.core.id = n.core.id) (hbus : n'.bus = n.bus) :
    ReadsOnly n n' := by
  intro h _
  rw [hbus]
  exact ⟨hid, h.written_refl _⟩

/-- To write nothing is a closed relation. -/
theorem closed_readsOnly : Closed ReadsOnly where
  refl n := readsOnly_of_bus rfl rfl
  trans h h' hcoherent hi := by
    obtain ⟨hid, hw⟩ := h hcoherent hi
    obtain ⟨hid', hw'⟩ := h' hw.coherent (by rw [hid, hw.isRegistered]; exact hi)
    rw [hid] at hw'
    exact ⟨hid'.trans hid, hw.none_trans hw'⟩

/-- A change of the registers writes nothing to memory. -/
theorem readsOnly_modifyRegs (f : RegisterFile → RegisterFile) :
    Does ReadsOnly (modifyRegs f : NodeM PagedMemory Unit) :=
  fun _ => readsOnly_of_bus rfl rfl

/-- A pop writes nothing to memory. -/
theorem readsOnly_pop : Does ReadsOnly (pop : NodeM PagedMemory UInt32) := by
  refine Does.getCore_bind fun n => closed_readsOnly.bind_at ?_ fun v =>
    closed_readsOnly.bind (readsOnly_modifyRegs _) fun _ => closed_readsOnly.pure v
  intro h hi
  rw [finalState_onBus]
  refine ⟨rfl, ?_⟩
  have hw := (Bus.readWord_spec h hi (n.core.dataAddress n.core.regs.sp)).written h hi
  rw [ite_self] at hw
  exact hw

/-- Freeing the page of a handler's stack spares every word but those of the page. -/
theorem freeStack_spares {page : Option UInt32} (h : n.bus.Coherent)
    (hi : n.bus.isRegistered n.core.id = true) (hrun : freeStack page n = .ok () n') :
    n'.bus.memory.pageCount = n.bus.memory.pageCount ∧
      ∀ a : Address, a % 4 = 0 → page ≠ some a.page →
        n'.bus.valueAt a .word = n.bus.valueAt a .word := by
  cases page with
  | none =>
    cases hrun
    exact ⟨rfl, fun _ _ _ => rfl⟩
  | some q =>
    unfold freeStack at hrun
    dsimp only at hrun
    rw [getCore_bind] at hrun
    obtain ⟨bus, hdrop, hsteady, hfitted, hcopies⟩ :=
      Bus.release_spec h.toFitted hi (.page q) false true
    rw [bind_of_ok (onBus_of_ok hdrop)] at hrun
    have hcoherent : bus.Coherent := by
      obtain ⟨bus', hdrop', -, hcoherent⟩ := Bus.drop_spec h hi (.page q)
      cases hdrop.symm.trans hdrop'
      exact hcoherent
    obtain ⟨_, n₁, hfree, hrun⟩ := of_bind_eq_ok hrun
    by_cases halloc : q.toNat ∈ bus.memory.allocated
    · obtain ⟨bus', hfree', hcleared, -⟩ :=
        freePage_of_mem (n := { n with bus }) hcoherent halloc
      cases hfree.symm.trans hfree'
      cases hrun
      refine ⟨hcleared.keeps.pageCount.trans hsteady.pageCount, fun a ha hpage => ?_⟩
      have hq : a.page ≠ q := fun e => hpage (by rw [e])
      refine (Bus.word_of_copies_outside hcleared.coherent hcleared.outside ha hq).trans ?_
      refine Bus.word_of_copies_outside hcoherent (fun {b} hb hout => ?_) ha hq
      rw [hcopies b hb, if_neg fun hc => hout (Bus.covers_page_iff.1 hc)]
    · cases hfree.symm.trans (freePage_of_not_mem (n := { n with bus }) halloc)

/-- Leaving a handler spares every word but those of the page of its stack. -/
theorem leaveHandler_spares {p : Platform} {page : Option UInt32} {outer : List (Option UInt32)}
    (h : n.bus.Coherent) (hi : n.bus.isRegistered n.core.id = true)
    (hactive : n.core.interruptStacks = page :: outer) (hrun : leaveHandler p n = .ok () n') :
    n'.bus.memory.pageCount = n.bus.memory.pageCount ∧
      ∀ a : Address, a % 4 = 0 → page ≠ some a.page →
        n'.bus.valueAt a .word = n.bus.valueAt a .word := by
  rw [leaveHandler_of_cons p hactive] at hrun
  obtain ⟨_, n₁, hframe, hrun⟩ := of_bind_eq_ok hrun
  obtain ⟨_, n₂, hcontext, hrun⟩ := of_bind_eq_ok hrun
  rw [modifyCore_bind] at hrun
  have hreads : ReadsOnly n n₂ := by
    refine closed_readsOnly.trans (?_ : ReadsOnly n n₁) ?_
    · rw [← finalState_of_ok hframe]
      exact closed_readsOnly.popFrame p readsOnly_pop (fun _ => readsOnly_modifyRegs _)
        (fun _ => readsOnly_modifyRegs _) (fun _ => readsOnly_of_bus rfl rfl) n
    · rw [← finalState_of_ok hcontext]
      exact closed_readsOnly.takeContext readsOnly_pop readsOnly_modifyRegs n₁
  obtain ⟨hid, hw⟩ := hreads h hi
  have hi₂ : n₂.bus.isRegistered n₂.core.id = true := by
    rw [hid, hw.isRegistered]
    exact hi
  obtain ⟨hcount, hspares⟩ := freeStack_spares
    (n := n₂.mapCore fun c => { c with interruptStacks := outer }) hw.coherent hi₂ hrun
  exact ⟨hcount.trans hw.steady.pageCount,
    fun a ha hpage => (hspares a ha hpage).trans (hw.word ha)⟩

end Node

end Multicore
