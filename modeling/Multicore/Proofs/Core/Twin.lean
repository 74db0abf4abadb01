import Multicore.Proofs.Core.Paged
import Multicore.Proofs.Core.StackWords
import Multicore.Proofs.Core.Touches

/-!
# Cores that differ in their caches

Two nodes are `Twin` if their buses are, and their cores differ in the instruction cache and in
the number only, which is also that of the data cache. A computation `Agrees` if it comes to the
same on twins and leaves twins behind. All that a core does agrees but for its stores and for the
pages that it allocates or frees: a store agrees if it leaves the text alone, and the others if they
do not happen.
-/

namespace Multicore

open Std

/-- Every cached instruction is the one that the text has at its address. -/
def Core.Decoded (text : Text) (p : Platform) (c : Core) : Prop :=
  ∀ a i, c.fetched.entries.peek? a = some i →
    ∃ set, p.sets[c.activeSet]? = some set ∧ Node.instructionAt set text.image a = .ok i

/-- The cores are the same but for their instruction caches, which hold instructions of the
text. No handler has a page of its own. -/
structure Core.Twin (text : Text) (p : Platform) (c₁ c₂ : Core) : Prop where
  same : c₂ = { c₁ with fetched := c₂.fetched }
  left : c₁.Decoded text p
  right : c₂.Decoded text p
  pageless : ∀ page ∈ c₁.interruptStacks, page = none

/-- A change of a core that has nothing to do with its number and its instruction cache. -/
structure Core.Steady (f : Core → Core) : Prop where
  apart : ∀ c id fetched, f { c with id, fetched } = { f c with id, fetched } := by
    exact fun _ _ _ => rfl
  activeSet : ∀ c, (f c).activeSet = c.activeSet := by exact fun _ => rfl
  pageless : ∀ c, (∀ page ∈ c.interruptStacks, page = none) →
    ∀ page ∈ (f c).interruptStacks, page = none := by exact fun _ h => h

/-- A steady change leaves the number of the core. -/
theorem Core.Steady.id {f : Core → Core} (hf : Steady f) (c : Core) : (f c).id = c.id := by
  have hsame := congrArg Core.id (hf.apart c c.id c.fetched)
  exact hsame

/-- A steady change leaves the instruction cache. -/
theorem Core.Steady.fetched {f : Core → Core} (hf : Steady f) (c : Core) :
    (f c).fetched = c.fetched := by
  have hsame := congrArg Core.fetched (hf.apart c c.id c.fetched)
  exact hsame

namespace Node

/-- The nodes are the same but for the caches, the journal and the number of the core. The services
have counted the same. -/
structure Twin (text : Text) (p : Platform) (n₁ n₂ : Node PagedMemory) : Prop where
  tallies : ∀ index, n₂.tallies.getD index 0 = n₁.tallies.getD index 0
  bus : Bus.Twin text n₁.bus n₂.bus
  core : Core.Twin text p n₁.core { n₂.core with id := n₁.core.id }

/-- In addition the core is alive, and its data cache takes part. -/
structure Live (text : Text) (p : Platform) (n₁ n₂ : Node PagedMemory) : Prop
    extends Twin text p n₁ n₂ where
  registered₁ : n₁.bus.isRegistered n₁.core.id = true
  registered₂ : n₂.bus.isRegistered n₂.core.id = true
  alive : n₁.core.isAlive = true

/-- Whatever the caches hold, a computation comes to the same. -/
def Agrees {α : Type} (text : Text) (p : Platform) (x : NodeM PagedMemory α) : Prop :=
  ∀ n₁ n₂, Live text p n₁ n₂ → Alike (Live text p) (x n₁) (x n₂)

variable {text : Text} {p : Platform} {n₁ n₂ : Node PagedMemory}

/-! ## Changes of the core -/

/-- The core of the second node is that of the first, but for its number and its instruction cache.
-/
theorem Twin.core_eq (h : Twin text p n₁ n₂) :
    n₂.core = { n₁.core with id := n₂.core.id, fetched := n₂.core.fetched } := by
  have hsame := congrArg (fun c : Core => { c with id := n₂.core.id }) h.core.same
  exact hsame

theorem Twin.regs (h : Twin text p n₁ n₂) : n₂.core.regs = n₁.core.regs := by
  rw [h.core_eq]

/-- Twins compute the same data addresses. -/
theorem Twin.dataAddress (h : Twin text p n₁ n₂) (offset : UInt32) :
    n₂.core.dataAddress offset = n₁.core.dataAddress offset := by
  rw [Core.dataAddress, h.regs]
  rfl

/-- Twins stay twins under a steady change of both cores. -/
theorem Twin.mapCore {f : Core → Core} (h : Twin text p n₁ n₂) (hf : Core.Steady f) :
    Twin text p (n₁.mapCore f) (n₂.mapCore f) := by
  refine ⟨h.tallies, h.bus, ?_, fun a i hi => ?_, fun a i hi => ?_, hf.pageless _ h.core.pageless⟩
  · show ({ f n₂.core with id := (f n₁.core).id } : Core) =
      { f n₁.core with fetched := (f n₂.core).fetched }
    rw [hf.id, hf.fetched, h.core_eq, hf.apart, ← hf.id n₁.core]
  · rw [show (n₁.mapCore f).core.fetched = n₁.core.fetched from hf.fetched _] at hi
    rw [show (n₁.mapCore f).core.activeSet = n₁.core.activeSet from hf.activeSet _]
    exact h.core.left a i hi
  · replace hi : (f n₂.core).fetched.entries.peek? a = some i := hi
    rw [hf.fetched] at hi
    show ∃ set, p.sets[(f n₂.core).activeSet]? = some set ∧ _
    rw [hf.activeSet]
    exact h.core.right a i hi

/-- Live twins stay live under a steady change that leaves the stage of the core. -/
theorem Live.mapCore {f : Core → Core} (h : Live text p n₁ n₂) (hf : Core.Steady f)
    (hs : ∀ c, (f c).state = c.state) : Live text p (n₁.mapCore f) (n₂.mapCore f) := by
  refine ⟨h.toTwin.mapCore hf, ?_, ?_, ?_⟩
  · show n₁.bus.isRegistered (f n₁.core).id = true
    rw [hf.id]
    exact h.registered₁
  · show n₂.bus.isRegistered (f n₂.core).id = true
    rw [hf.id]
    exact h.registered₂
  · show (f n₁.core).state.isAlive = true
    rw [hs]
    exact h.alive

/-- A change of the registers is steady. -/
theorem steady_regs (f : RegisterFile → RegisterFile) :
    Core.Steady fun c => { c with regs := f c.regs } := {}

theorem Live.mapRegs (h : Live text p n₁ n₂) (f : RegisterFile → RegisterFile) :
    Live text p (n₁.mapRegs f) (n₂.mapRegs f) :=
  h.mapCore (steady_regs f) fun _ => rfl

/-! ## Computations -/

section
variable {α γ : Type} {x : NodeM PagedMemory α} {f : α → NodeM PagedMemory γ}

/-- An answer without a computation agrees. -/
theorem agrees_pure (a : α) : Agrees text p (pure a : NodeM PagedMemory α) :=
  fun _ _ h => .ok a h

/-- A fault that is raised agrees. -/
theorem agrees_throw (fault : Fault) : Agrees text p (throw fault : NodeM PagedMemory α) :=
  fun _ _ h => .error fault h

/-- One agreeing computation after another agrees: twins give both the same answer in between. -/
theorem Agrees.bind (hx : Agrees text p x) (hf : ∀ a, Agrees text p (f a)) :
    Agrees text p (x >>= f) :=
  fun _ _ h => (hx _ _ h).bind id fun {a _ _} _ h' => hf a _ _ h'

/-- Of two agreeing computations, either may be chosen by a condition that does not look at the
nodes. -/
theorem Agrees.ite {c : Prop} [Decidable c] {y : NodeM PagedMemory α} (hx : Agrees text p x)
    (hy : Agrees text p y) : Agrees text p (if c then x else y) := by
  split
  · exact hx
  · exact hy

/-- A loop agrees if its body does, by induction on the list with both nodes generalized. -/
theorem Agrees.forM {δ : Type} {g : δ → NodeM PagedMemory PUnit} (l : List δ)
    (hg : ∀ d, Agrees text p (g d)) : Agrees text p (l.forM g) := by
  induction l with
  | nil => exact agrees_pure PUnit.unit
  | cons d rest ih =>
    rw [List.forM_eq_forM, List.forM_cons]
    exact (hg d).bind fun _ => ih

/-- What is done with the core may not depend on its number and its instruction cache. -/
theorem Twin.getCore_bind (h : Twin text p n₁ n₂) {g : Core → NodeM PagedMemory γ}
    {R : Node PagedMemory → Node PagedMemory → Prop}
    (hg : ∀ c id fetched, g { c with id, fetched } = g c)
    (hx : Alike R (g n₁.core n₁) (g n₁.core n₂)) :
    Alike R ((getCore >>= g) n₁) ((getCore >>= g) n₂) := by
  have hsame : g n₂.core = g n₁.core := by rw [h.core_eq, hg]
  rw [Node.getCore_bind, Node.getCore_bind, hsame]
  exact hx

end

/-- Twins have the same registers. -/
theorem agrees_getRegs : Agrees text p (getRegs : NodeM PagedMemory RegisterFile) := by
  intro n₁ n₂ h
  show Alike _ (.ok n₁.core.regs n₁) (.ok n₂.core.regs n₂)
  rw [h.regs]
  exact .ok _ h

theorem agrees_read (r : Register) : Agrees text p (read r : NodeM PagedMemory UInt32) :=
  agrees_getRegs.bind fun _ => agrees_pure _

/-- An operand evaluates to the same value on twins. -/
theorem agrees_operand (x : Operand) : Agrees text p (operand x : NodeM PagedMemory UInt32) :=
  agrees_getRegs.bind fun _ => agrees_pure _

/-- A change of the registers agrees. -/
theorem agrees_modifyRegs (f : RegisterFile → RegisterFile) :
    Agrees text p (modifyRegs f : NodeM PagedMemory Unit) :=
  fun _ _ h => .ok () (h.mapRegs f)

/-- A steady change of the core agrees if it leaves the stage. -/
theorem agrees_modifyCore {f : Core → Core} (hf : Core.Steady f)
    (hs : ∀ c, (f c).state = c.state) : Agrees text p (modifyCore f : NodeM PagedMemory Unit) :=
  fun _ _ h => .ok () (h.mapCore hf hs)

/-- Twins are in the same mode, so that they refuse the same writes. -/
theorem agrees_write (r : Register) (v : UInt32) :
    Agrees text p (write r v : NodeM PagedMemory Unit) := by
  refine agrees_getRegs.bind fun regs => ?_
  split
  · exact agrees_modifyRegs _
  · exact agrees_throw _

theorem Twin.record (h : Twin text p n₁ n₂) (e₁ e₂ : Event) :
    Twin text p (n₁.record e₁) (n₂.record e₂) :=
  ⟨h.tallies, h.bus, h.core⟩

/-- Twins may record different events, since the journals are not compared. -/
theorem agrees_note (e : Nat → Event) : Agrees text p (note e : NodeM PagedMemory Unit) :=
  fun _ _ h => .ok () ⟨h.toTwin.record _ _, h.registered₁, h.registered₂, h.alive⟩

/-- What comes to the same on the buses comes to the same on the nodes. -/
theorem Live.onBus {α : Type} (h : Live text p n₁ n₂)
    {x₁ x₂ : EStateM Fault (Bus PagedMemory) α}
    (hx : Alike (Bus.Keep text n₁.bus n₂.bus) (x₁ n₁.bus) (x₂ n₂.bus)) :
    Alike (Live text p) (Node.onBus x₁ n₁) (Node.onBus x₂ n₂) := by
  have hlive : ∀ {bus₁ bus₂}, Bus.Keep text n₁.bus n₂.bus bus₁ bus₂ →
      Live text p { n₁ with bus := bus₁ } { n₂ with bus := bus₂ } := by
    intro bus₁ bus₂ hbus
    refine ⟨⟨h.tallies, hbus.toTwin, h.core⟩, ?_, ?_, h.alive⟩
    · show bus₁.registry.contains n₁.core.id = true
      rw [hbus.registry₁]
      exact h.registered₁
    · show bus₂.registry.contains n₂.core.id = true
      rw [hbus.registry₂]
      exact h.registered₂
  unfold Node.onBus
  generalize x₁ n₁.bus = r₁ at hx
  generalize x₂ n₂.bus = r₂ at hx
  cases hx with
  | ok a hb => exact .ok a (hlive hb)
  | error e hb => exact .error e (hlive hb)

/-! ## Loads -/

/-- A load comes to the same, though the cores load through caches of their own. -/
theorem Live.load (h : Live text p n₁ n₂) (width : Width) (a : Address) :
    Alike (Live text p) (Node.onBus (Bus.load width n₁.core.id a) n₁)
      (Node.onBus (Bus.load width n₂.core.id a) n₂) :=
  h.onBus (h.bus.load h.registered₁ h.registered₂ width a)

/-- A pop is a load from the same address and a change of the stack pointer. -/
theorem agrees_pop : Agrees text p (pop : NodeM PagedMemory UInt32) := by
  intro n₁ n₂ h
  unfold pop
  rw [Node.getCore_bind, Node.getCore_bind, h.regs, h.dataAddress]
  refine (h.load .word (n₁.core.dataAddress n₁.core.regs.sp)).bind id fun {v n₁' n₂'} _ h' => ?_
  exact ((agrees_modifyRegs _).bind fun _ => agrees_pure v) n₁' n₂' h'

/-- A load of any width agrees, since the buses have the same coherent values. -/
theorem agrees_loadFrom (width : Width) (a : Address) :
    Agrees text p (loadFrom width a : NodeM PagedMemory UInt32) := by
  intro n₁ n₂ h
  rw [loadFrom_eq, loadFrom_eq]
  exact h.load width a

/-! ## Stores -/

/-- A store that is permitted comes to the same. -/
theorem Live.store (h : Live text p n₁ n₂) (width : Width) (a : Address) (v : UInt32)
    (ht : text.Permits (stores n₁.bus [(a, width)])) :
    Alike (Live text p) (Node.onBus (Bus.storeAt width n₁.core.id a v) n₁)
      (Node.onBus (Bus.storeAt width n₂.core.id a v) n₂) := by
  refine h.onBus (h.bus.store h.registered₁ h.registered₂ width a v fun hr b hb => ?_)
  refine ht.stored b (List.mem_map_of_mem ?_)
  rw [Bus.reach_cons hr]
  exact List.mem_append_left _ hb

/-- A push agrees if the word that it stores is not in the text. -/
theorem Live.push (h : Live text p n₁ n₂) (v : UInt32) (ht : text.Permits (n₁.pushTouches 1)) :
    Alike (Live text p) (Node.push v n₁) (Node.push v n₂) := by
  unfold Node.push
  rw [Node.getCore_bind, Node.getCore_bind, h.regs, h.dataAddress]
  refine (h.store .word (n₁.core.dataAddress (n₁.core.regs.sp - 4)) v ht).bind id
    fun {_ n₁' n₂'} _ h' => ?_
  exact agrees_modifyRegs _ n₁' n₂' h'

/-- A computation whose next pushes are permitted comes to the same. -/
def Pushes {α : Type} (text : Text) (p : Platform) (count : Nat) (x : NodeM PagedMemory α) : Prop :=
  ∀ n₁ n₂, Live text p n₁ n₂ → text.Permits (n₁.pushTouches count) →
    Alike (Live text p) (x n₁) (x n₂)

/-- A computation that agrees anyway may be counted as any number of pushes. -/
theorem Agrees.pushes {α : Type} {x : NodeM PagedMemory α} (hx : Agrees text p x) (count : Nat) :
    Pushes text p count x :=
  fun n₁ n₂ h _ => hx n₁ n₂ h

/-- To read the registers is no push. -/
theorem Pushes.getRegs_bind {α : Type} {count : Nat} {f : RegisterFile → NodeM PagedMemory α}
    (hf : ∀ regs, Pushes text p count (f regs)) : Pushes text p count (getRegs >>= f) := by
  intro n₁ n₂ h ht
  rw [Node.getRegs_bind, Node.getRegs_bind, h.regs]
  exact hf _ n₁ n₂ h ht

/-- One push, and the pushes that come after it. -/
theorem Pushes.push_bind {α : Type} {count : Nat} {x : NodeM PagedMemory α}
    (hx : Pushes text p count x) (v : UInt32) :
    Pushes text p (count + 1) (do Node.push v; x) := by
  intro n₁ n₂ h ht
  have hplaces : n₁.pushTouches (count + 1) = stores n₁.bus ((n₁.core.dataAddress
      (n₁.core.regs.sp - 4), .word) :: pushPlaces n₁.core.regs.ds (n₁.core.regs.sp - 4) count) :=
    rfl
  refine (h.push v (ht.mono ?_)).bind id fun {_ n₁' n₂'} hrun h' => ?_
  · rw [hplaces]
    exact stores_head
  · refine hx n₁' n₂' h' (ht.mono ?_)
    -- The first push was not refused, so the next ones are among the permitted stores.
    obtain ⟨hr, bus, hw, rfl⟩ := push_of_ok h.bus.left.coherent h.registered₁ hrun
    have htop : n₁.core.dataAddress (n₁.core.regs.sp - 4) = n₁.top - 4 := segmentAddress_sub ..
    intro t ht
    rw [hplaces, stores, htop, Bus.reach_cons hr, List.map_append]
    refine List.mem_append_right _ ?_
    have hreach := Bus.reach_congr hw.steady.pageCount
      (pushPlaces n₁.core.regs.ds (n₁.core.regs.sp - 4) count)
    rw [← hreach]
    exact ht

/-- A list of words is pushed before the rest, and each word counts for one. -/
theorem Pushes.pushAll_bind {α : Type} {count : Nat} {x : NodeM PagedMemory α}
    (hx : Pushes text p count x) (l : List UInt32) :
    Pushes text p (l.length + count) (do l.forM Node.push; x) := by
  induction l with
  | nil =>
    rw [List.length_nil, Nat.zero_add]
    exact hx
  | cons v rest ih =>
    have hcons : (do (v :: rest).forM Node.push; x : NodeM PagedMemory α) = (do
        Node.push v
        rest.forM Node.push
        x) := by
      rw [List.forM_eq_forM, List.forM_cons, bind_assoc]
    rw [hcons, List.length_cons, Nat.add_right_comm]
    exact ih.push_bind v

/-- What agrees may follow after the pushes. -/
theorem Pushes.bind {α γ : Type} {count : Nat} {x : NodeM PagedMemory α}
    {f : α → NodeM PagedMemory γ} (hx : Pushes text p count x) (hf : ∀ a, Agrees text p (f a)) :
    Pushes text p count (x >>= f) :=
  fun n₁ n₂ h ht => (hx n₁ n₂ h ht).bind id fun {a _ _} _ h' => hf a _ _ h'

/-- Setting up a frame pushes two words. -/
theorem pushes_pushFrame : Pushes text p 2 (pushFrame : NodeM PagedMemory Unit) := by
  refine .getRegs_bind fun regs => .push_bind (.getRegs_bind fun regs' => .push_bind ?_ _) _
  refine Agrees.pushes (agrees_modifyCore ?_ ?_) 0
  · exact {}
  · exact fun _ => rfl

/-- Saving the context pushes 36 words. -/
theorem pushes_saveContext (ds sp : UInt32) :
    Pushes text p 36 (saveContext ds sp : NodeM PagedMemory Unit) := by
  refine .push_bind (.push_bind (.getRegs_bind fun _ => .push_bind (.getRegs_bind fun _ =>
    .push_bind (.getRegs_bind fun regs => ?_) _) _) _) _
  have hgeneral : Pushes text p _ _ := pushes_pushFrame.pushAll_bind regs.general.toList
  rwa [Vector.length_toList] at hgeneral

/-! ## Frames -/

/-- Twins have the same frames and the same stack pointer, so that the check comes out alike. -/
theorem agrees_checkFrame : Agrees text p (checkFrame : NodeM PagedMemory Unit) := by
  intro n₁ n₂ h
  refine h.getCore_bind (fun _ _ _ => rfl) ?_
  rcases n₁.core.frames with _ | ⟨frame, outer⟩
  · exact .error _ h
  · dsimp only
    split
    · exact .ok () h
    · exact .error _ h

/-- A frame is taken down alike. -/
theorem agrees_popFrame : Agrees text p (popFrame p : NodeM PagedMemory Unit) := by
  have hpops : Agrees text p (do
      let fp ← pop
      modifyRegs fun regs => { regs with fp }
      let ip ← pop
      modifyRegs fun regs => { regs with ip }
      modifyCore fun c => { c with frames := c.frames.tail } : NodeM PagedMemory Unit) := by
    refine agrees_pop.bind fun fp => (agrees_modifyRegs _).bind fun _ => ?_
    refine agrees_pop.bind fun ip => (agrees_modifyRegs _).bind fun _ => ?_
    exact agrees_modifyCore {} fun _ => rfl
  unfold popFrame
  exact .ite (agrees_checkFrame.bind fun _ => hpops) hpops

/-- The general registers are popped alike. -/
theorem agrees_popGeneral : Agrees text p (popGeneral : NodeM PagedMemory Unit) :=
  .forM _ fun _ => agrees_pop.bind fun _ => agrees_modifyRegs _

/-! ## Handlers -/

/-- Without a page of its own a handler is left by popping the context. -/
theorem agrees_leaveHandler : Agrees text p (leaveHandler p : NodeM PagedMemory Unit) := by
  intro n₁ n₂ h
  refine h.getCore_bind (fun _ _ _ => rfl) ?_
  rcases hpages : n₁.core.interruptStacks with _ | ⟨page, outer⟩
  · exact (agrees_getRegs.bind fun _ => agrees_throw _) n₁ n₂ h
  · have hpage : page = none := h.core.pageless page (hpages ▸ List.mem_cons_self)
    have houter : ∀ page ∈ outer, page = none := fun page hm =>
      h.core.pageless page (hpages ▸ List.mem_cons_of_mem _ hm)
    subst hpage
    dsimp only
    refine Agrees.bind agrees_popFrame (fun _ => ?_) n₁ n₂ h
    refine agrees_popGeneral.bind fun _ => ?_
    refine agrees_pop.bind fun _ => (agrees_modifyRegs _).bind fun _ => ?_
    refine agrees_pop.bind fun _ => (agrees_modifyRegs _).bind fun _ => ?_
    refine agrees_pop.bind fun _ => agrees_pop.bind fun _ => (agrees_modifyRegs _).bind fun _ => ?_
    refine Agrees.bind (agrees_modifyCore { pageless := fun _ _ => houter } fun _ => rfl)
      fun _ => ?_
    exact agrees_note _

/-- No page is allocated, because none is free. -/
theorem Live.allocatePage (h : Live text p n₁ n₂) {segment : Option UInt32}
    (ht : text.Permits (n₁.allocationTouches segment)) :
    Node.allocatePage segment n₁ = .error (.memory .noFreePage) n₁ ∧
      Node.allocatePage segment n₂ = .error (.memory .noFreePage) n₂ := by
  have hnone : n₁.bus.memory.nextFree? segment = none := by
    rcases hp : n₁.bus.memory.nextFree? segment with _ | page
    · rfl
    · refine absurd ?_ ht.repaged
      rw [allocationTouches, hp]
      exact List.mem_singleton_self _
  refine ⟨allocatePage_of_none hnone, allocatePage_of_none ?_⟩
  rw [PagedMemory.nextFree?_congr h.bus.pageCount h.bus.allocated]
  exact hnone

/-- Twins load the same vector if the record is covered by the text. -/
theorem Live.loadVector (h : Live text p n₁ n₂) {table : Address} {index : UInt32}
    (hc : text.Covers (n₁.bus.reach (Bus.vectorParts table index))) :
    Alike (Live text p) (Node.onMemory (PhysicalMemory.loadVector table index) n₁)
      (Node.onMemory (PhysicalMemory.loadVector table index) n₂) := by
  refine h.onBus ((Bus.alike_onMemory (h.bus.loadVector hc)).mono fun hb => ?_)
  obtain ⟨rfl, rfl⟩ := hb
  exact ⟨h.bus, rfl, rfl⟩

/-- What is done after a failure may not depend on the caches. -/
theorem Alike.onFailure {α : Type} {x : NodeM PagedMemory α}
    {measures : Node PagedMemory → Node PagedMemory} (hx : Alike (Live text p) (x n₁) (x n₂))
    (hm : ∀ {n₁ n₂}, Live text p n₁ n₂ → Live text p (measures n₁) (measures n₂)) :
    Alike (Live text p) (Node.onFailure x measures n₁) (Node.onFailure x measures n₂) := by
  unfold Node.onFailure
  generalize x n₁ = r₁ at hx
  generalize x n₂ = r₂ at hx
  cases hx with
  | ok a h => exact .ok a h
  | error e h => exact .error e (hm h)

/-- The vector that a core loads is the one in memory. -/
theorem loadVector_of_ok {n n' : Node PagedMemory} {table : Address} {index : UInt32}
    {v : InterruptVector}
    (h : onMemory (PhysicalMemory.loadVector table index) n = .ok v n') :
    n = n' ∧ ∃ m, PhysicalMemory.loadVector table index n.bus.memory = .ok v m := by
  refine ⟨by rw [← finalState_of_ok h, finalState_loadVector], ?_⟩
  unfold onMemory Node.onBus Bus.onMemory at h
  rcases hv : PhysicalMemory.loadVector table index n.bus.memory with ⟨w, m⟩ | ⟨e, m⟩
  · rw [hv] at h
    injection h with hw
    exact ⟨m, by rw [hw]⟩
  · rw [hv] at h
    cases h

/-- A handler is entered through a vector of the text, and its context is saved outside the
text. -/
theorem Live.enterHandler (h : Live text p n₁ n₂) {table : Address} {index : UInt32}
    (ht : text.Permits (enterTouches table index n₁)) :
    Alike (Live text p) (Node.enterHandler table index n₁) (Node.enterHandler table index n₂) := by
  refine (h.loadVector (covers_of_permits ht)).bind id fun {v n₁' n₂'} hok h' => ?_
  obtain ⟨rfl, m, hv⟩ := loadVector_of_ok hok
  rw [enterTouches, hv] at ht
  replace ht := ht.mono fun _ => List.mem_append_right _
  dsimp only at ht
  by_cases hsp : v.sp = 0
  · -- The handler needs a page, and nothing is permitted to be allocated: there is none.
    rw [if_pos hsp] at ht
    obtain ⟨h₁, h₂⟩ := h'.allocatePage ht
    have hstack : (handlerStack v : NodeM PagedMemory (UInt32 × Option UInt32)) = (do
        let page ← Node.allocatePage (some v.ds.toUInt32)
        return (pageBase page + pageSize - segmentAddress v.ds.toUInt32 0, some page)) := if_pos hsp
    rw [bind_of_error (hstack ▸ bind_of_error h₁), bind_of_error (hstack ▸ bind_of_error h₂)]
    exact .error _ h'
  · rw [if_neg hsp] at ht
    have hstack : (handlerStack v : NodeM PagedMemory (UInt32 × Option UInt32)) =
        pure (v.sp, none) := if_neg hsp
    rw [hstack, pure_bind]
    dsimp only
    rw [getRegs_bind, getRegs_bind, h'.regs, modifyRegs_bind, modifyRegs_bind]
    have hregs := h'.mapRegs fun regs => { regs with ds := v.ds.toUInt32, sp := v.sp }
    refine (Alike.onFailure (pushes_saveContext _ _ _ _ hregs ht) fun h => h.mapRegs _).bind id
      fun {_ n₃ n₄} _ h'' => ?_
    refine Agrees.bind ?_ (fun _ => agrees_note _) n₃ n₄ h''
    refine agrees_modifyCore ?_ fun _ => rfl
    refine { pageless := fun c hc page hm => ?_ }
    rcases List.mem_cons.1 hm with rfl | hm
    · rfl
    · exact hc page hm

end Node

end Multicore
