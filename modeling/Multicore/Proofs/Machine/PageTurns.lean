import Multicore.Proofs.Core.PageUse
import Multicore.Proofs.Machine.Turns

/-!
# What an operation does with pages

Guests get and free pages by requests to the memory service (`Node.request?`). Every operation with
a core is one of the five uses of pages (`Operation.pageUse`), with the page that the answer of the
service grants and the page that the request frees.
-/

namespace Multicore

open Node

/-- The request to the memory service that an instruction of the base dialect makes, if it makes
one. -/
def Instruction.request? (p : Platform) (regs : RegisterFile) : Instruction → Option MemoryRequest
  | .int x =>
    if p.services[regs.operand x]? = some .memory then
      MemoryRequest.ofNumber? (regs.read (.general 0))
    else none
  | _ => none

namespace Node

section
variable {β : Type}

/-- The request to the memory service that the next instruction of a core makes, if it makes
one. -/
def request? [PhysicalMemory β] (p : Platform) (n : Node β) : Option MemoryRequest :=
  if n.core.isRunnable then
    match p.sets[n.core.activeSet]? with
    | none => none
    | some set =>
      match set.runs, fetch set (n.core.codeAddress n.core.regs.ip) n with
      | .base, .ok i _ => i.request? p { n.core.regs with ip := n.core.regs.ip + 4 }
      | _, _ => none
  else none

/-- The page that a request is granted by the answer in the first register. All ones say that there
is none. -/
def granted? (request : Option MemoryRequest) (n' : Node β) : Option UInt32 :=
  match request with
  | some .alloc =>
    let answer := n'.core.regs.read (.general 0)
    if answer = 0xffffffff then none else some answer
  | _ => none

/-- The page that a request is to free, the one in the second register. -/
def freed? (request : Option MemoryRequest) (n : Node β) : Option UInt32 :=
  match request with
  | some .free => some (n.core.regs.read (.general 1))
  | _ => none

end

variable {n n' n₁ n₂ : Node PagedMemory} {p : Platform}

/-- A request is served: the pages are used as it says. -/
def Serves (request : Option MemoryRequest) (n n' : Node PagedMemory) : Prop :=
  PageUse n n' (granted? request n') (freed? request n)

/-- The guest does not see a difference: it has the same pages and general registers. -/
structure SameGuest (n n' : Node PagedMemory) : Prop extends SamePages n n' where
  general : n'.core.regs.general = n.core.regs.general

theorem SameGuest.refl (n : Node PagedMemory) : n.SameGuest n := ⟨.refl n, rfl⟩

/-- The guest reads the same from its general registers. -/
theorem SameGuest.read (h : n.SameGuest n') (number : UInt8) :
    n'.core.regs.read (.general number) = n.core.regs.read (.general number) := by
  rw [RegisterFile.read, RegisterFile.read, h.general]

/-- A request is served also if the guest sees no difference before and after. -/
theorem Serves.of_same {request : Option MemoryRequest} (h : n.SameGuest n₁)
    (hs : Serves request n₁ n₂) (h' : n₂.SameGuest n') : Serves request n n' := by
  have hgranted : granted? request n' = granted? request n₂ := by
    simp only [granted?, h'.read]
  have hfreed : freed? request n₁ = freed? request n := by
    simp only [freed?, h.read]
  rw [Serves, hgranted, ← hfreed]
  exact PageUse.of_same h.toSamePages hs h'.toSamePages

/-- Without a request the pages stay. -/
theorem serves_none (h : n.SamePages n') : Serves none n n' := .keeps h

/-! ## Instructions -/

/-- What has nothing to do with pages. A fault kills the core. -/
theorem samePages_concluded {x : NodeM PagedMemory Unit} (hx : Does KeepsPages x) (h : n.Sound)
    (ha : n.core.isAlive = true) : n.SamePages (concluded (x n)) := by
  obtain ⟨hgoes, hsame⟩ := hx n h ha
  rcases hrun : x n with ⟨⟨⟩, n'⟩ | ⟨fault, n'⟩
  · rw [finalState_of_ok hrun] at hsame
    exact hsame
  · rw [finalState_of_error hrun] at hgoes hsame
    exact hsame.trans (hgoes.sound.samePages_die fault)

/-- The memory service allocates a page that was free, if there is one. -/
theorem serves_alloc (h : n.Sound) :
    Serves (some .alloc) n (concluded (serveMemory .alloc n)) := by
  rcases hp : n.bus.memory.nextFree? none with _ | q
  · have hrun : serveMemory .alloc n =
        .ok () (n.mapRegs fun regs => regs.set (.general 0) 0xffffffff) := by
      simp only [serveMemory, allocatePage_of_none hp, write_general]
    have hgranted : granted? (some .alloc) (n.mapRegs fun regs =>
        regs.set (.general 0) 0xffffffff) = none :=
      if_pos (read_set_general _ 0 _)
    rw [hrun, Serves, concluded, hgranted]
    exact .keeps (.of_allocated rfl rfl)
  · obtain ⟨bus, halloc, hq, -, hallocated, -⟩ := allocatePage_of_some h.coherent hp
    have hrun : serveMemory .alloc n =
        .ok () (({ n with bus } : Node PagedMemory).mapRegs
          fun regs => regs.set (.general 0) q.toUInt32) := by
      simp only [serveMemory, halloc, write_general]
    have hne : q.toUInt32 ≠ 0xffffffff := by
      intro e
      have hlt := PagedMemory.lt_of_nextFree? hp
      have hcount := n.bus.memory.pageCount_lt
      have hall : (0xffffffff : UInt32).toNat = 4294967295 := rfl
      rw [e] at hq
      omega
    have hgranted : granted? (some .alloc) (({ n with bus } : Node PagedMemory).mapRegs
        fun regs => regs.set (.general 0) q.toUInt32) = some q.toUInt32 := by
      simp only [granted?, mapRegs, mapCore, read_set_general, if_neg hne]
    rw [hrun, Serves, concluded, hgranted]
    refine .grants ⟨fun p e => ?_, fun r => ?_⟩ rfl
    · cases e
      rw [hq]
      exact PagedMemory.not_mem_of_nextFree? hp
    · show r ∈ bus.memory.allocated ↔ _
      rw [hallocated, ← mem_withPage_iff, withPage, hq]

/-- The memory service frees a page that is allocated, and kills the core for any other. -/
theorem serves_free (h : n.Sound) : Serves (some .free) n (concluded (serveMemory .free n)) := by
  have hrun : serveMemory .free n = freePage (n.core.regs.read (.general 1)) n := rfl
  rw [hrun]
  by_cases hp : (n.core.regs.read (.general 1)).toNat ∈ n.bus.memory.allocated
  · obtain ⟨bus, hfree, -, hfreed⟩ := freePage_of_mem h.coherent hp
    rw [hfree]
    refine .frees (fun _ q => ?_) rfl
    show q ∈ bus.memory.allocated ↔ _
    rw [hfreed]
    exact mem_withoutPage_iff _ (some (n.core.regs.read (.general 1))) q
  · rw [freePage_of_not_mem hp]
    exact .frees (fun hpage => absurd (hpage _ rfl) hp) (quiet_die n _).active

/-- The memory service serves the request that it is called with. -/
theorem serves_serveMemory (h : n.Sound) (r : MemoryRequest) :
    Serves (some r) n (concluded (serveMemory r n)) := by
  cases r with
  | alloc => exact serves_alloc h
  | free => exact serves_free h
  | countFree => exact .keeps (.of_allocated rfl rfl)

/-- Of the services, only the memory service is asked for pages. -/
theorem serves_serve (h : n.Sound) (ha : n.core.isAlive = true) (index : UInt32) (s : Service) :
    Serves (if s = .memory then MemoryRequest.ofNumber? (n.core.regs.read (.general 0)) else none)
      n (concluded (serve index s n)) := by
  cases s with
  | halt => exact serves_none (h.samePages_halt (n.core.regs.read (.general 0)))
  | memory =>
    rw [serve_memory, if_pos rfl]
    rcases MemoryRequest.ofNumber? (n.core.regs.read (.general 0)) with _ | r
    · exact serves_none (h.samePages_die _)
    · exact serves_serveMemory h r
  | counter => exact serves_none (samePages_concluded (lenient_keepsPages.serve _ nofun nofun) h ha)
  | refuse => exact serves_none (samePages_concluded (lenient_keepsPages.serve _ nofun nofun) h ha)

/-- Entering a handler is not a request of the guest. -/
theorem serves_enterHandler (h : n.Sound) (ha : n.core.isAlive = true) (table : Address)
    (index : UInt32) : Serves none n (concluded (enterHandler table index n)) := by
  obtain ⟨n', page, hrun, hgains, hactive⟩ | ⟨fault, n', hrun, hsound, hsame⟩ :=
    enterHandler_pages h ha table index
  · rw [hrun]
    exact .enters hgains hactive
  · rw [hrun]
    exact serves_none (hsame.trans (hsound.samePages_die fault))

/-- Leaving a handler is not a request of the guest. -/
theorem serves_leaveHandler (h : n.Sound) (ha : n.core.isAlive = true) (p : Platform) :
    Serves none n (concluded (leaveHandler p n)) := by
  have huse := leaveHandler_pages h ha p
  have hgoes := (works_leaveHandler p n).goes h ha
  rcases hrun : leaveHandler p n with ⟨_, n'⟩ | ⟨fault, n'⟩
  · rw [finalState_of_ok hrun] at huse
    exact huse
  · rw [finalState_of_error hrun] at huse hgoes
    exact PageUse.of_same (.refl n) huse (hgoes.sound.samePages_die fault)

/-- An ordinary instruction keeps the pages. -/
theorem keepsPages_ordinary {i : Instruction} (hi : i.isOrdinary = true) :
    Does KeepsPages (execute p .base i : NodeM PagedMemory Unit) :=
  lenient_keepsPages.executeBase p (keepsPages_selectSet p) hi

/-- What an instruction of the base dialect does with pages. -/
theorem serves_executeBase (h : n.Sound) (ha : n.core.isAlive = true) (p : Platform)
    (i : Instruction) :
    Serves (i.request? p n.core.regs) n (concluded (execute p .base i n)) := by
  have hR := lenient_keepsPages
  cases i with
  | hlt code => exact serves_none (h.samePages_halt (n.core.regs.operand code))
  | idle => exact serves_none (samePages_suspend n)
  | int x =>
    rw [execute_int, softwareInterrupt, Instruction.request?]
    rcases p.services[n.core.regs.operand x]? with _ | s
    · exact serves_enterHandler h ha _ _
    · simpa using serves_serve h ha (n.core.regs.operand x) s
  | retint => exact serves_leaveHandler h ha p
  | call target =>
    refine serves_none (samePages_concluded (hR.bind (hR.jumpTarget target) fun ip => ?_) h ha)
    exact hR.bind keepsPages_pushFrame fun _ => hR.jumpTo ip
  | ret => exact serves_none (samePages_concluded (keepsPages_popFrame p) h ha)
  | cli => exact serves_none (samePages_concluded (keepsPages_modifyRegs _) h ha)
  | sti => exact serves_none (samePages_concluded (keepsPages_modifyRegs _) h ha)
  | lpm => exact serves_none (samePages_concluded (keepsPages_modifyRegs _) h ha)
  | _ => exact serves_none (samePages_concluded (keepsPages_ordinary rfl) h ha)

/-! ## Operations -/

/-- An instruction that is counted is the same for the guest as one that is not. -/
theorem sameGuest_retired (p : Platform) (d : Dialect) (i : Instruction) (n : Node PagedMemory) :
    (concluded (execute p d i n)).SameGuest (concluded (retired p d i n)) := by
  unfold retired
  rcases hrun : execute p d i n with ⟨_, n'⟩ | ⟨fault, n'⟩
  · rw [bind_of_ok hrun]
    exact ⟨.of_allocated rfl rfl, rfl⟩
  · rw [bind_of_error hrun]
    exact .refl _

/-- An instruction that needs privileged mode makes no request. -/
theorem request?_of_isPrivileged {set : InstructionSet} {i : Instruction}
    (hi : set.isPrivileged i = true) (regs : RegisterFile) : i.request? p regs = none := by
  cases i with
  | int x =>
    rw [InstructionSet.isPrivileged] at hi
    rcases hd : set.reads with _ | _ <;> rw [hd] at hi <;> cases hi
  | _ => rfl

/-- A core asks for what the instruction asks for that it fetches, unless it is one of the
coprocessor. -/
theorem request?_of_fetch {set : InstructionSet} {i : Instruction}
    (hr : n.core.isRunnable = true) (hset : p.sets[n.core.activeSet]? = some set)
    (hfetch : fetch set (n.core.codeAddress n.core.regs.ip) n = .ok i n₁) :
    n.request? p = match set.runs with
      | .base => i.request? p { n.core.regs with ip := n.core.regs.ip + 4 }
      | .math => none := by
  unfold request?
  rw [if_pos hr, hset]
  dsimp only
  rw [hfetch]
  rcases set.runs with _ | _ <;> rfl

/-- What is left of a step once its instruction is known. -/
theorem serves_carryOut {set : InstructionSet} {i : Instruction} {fetched : InstructionCache}
    (h : n.Sound) (hr : n.core.isRunnable = true) (hset : p.sets[n.core.activeSet]? = some set)
    (hfetch : fetch set (n.core.codeAddress n.core.regs.ip) n =
      .ok i (n.mapCore fun c => { c with fetched })) :
    Serves (n.request? p) n (concluded (carryOut p set n.core.regs.ip i
      (n.mapCore fun c => { c with fetched }))) := by
  have hrequest := request?_of_fetch hr hset hfetch
  by_cases hguard : set.isPrivileged i = true → n.core.regs.flags.privileged = true
  · rw [carryOut_of_allowed (n := n.mapCore fun c => { c with fetched }) hguard]
    have hbegun : n.Goes
        (begun set n.core.regs.ip i (n.mapCore fun c => { c with fetched })) :=
      h.goes_of_bus rfl rfl rfl
    have halive := hbegun.isAlive (isAlive_of_isRunnable hr)
    have hguest : n.SameGuest
        (begun set n.core.regs.ip i (n.mapCore fun c => { c with fetched })) :=
      ⟨.of_allocated rfl rfl, rfl⟩
    refine Serves.of_same hguest ?_ (sameGuest_retired p set.runs i _)
    rw [hrequest]
    rcases set.runs with _ | _
    · exact serves_executeBase hbegun.sound halive p i
    · have hmath := lenient_keepsPages.executeMath p (keepsPages_selectSet p) i
      exact serves_none (samePages_concluded hmath hbegun.sound halive)
  · obtain ⟨hi, hu⟩ := Classical.not_imp.1 hguard
    rw [carryOut_of_refused (n := n.mapCore fun c => { c with fetched }) hi
      (Bool.not_eq_true _ ▸ hu), hrequest, request?_of_isPrivileged hi]
    have hjumped : n.Goes ((n.mapCore fun c => { c with fetched }).mapRegs
        fun regs => { regs with ip := n.core.regs.ip + 4 }) := h.goes_of_bus rfl rfl rfl
    have hdead := hjumped.sound.samePages_die (.accessViolation (.privilegedInstruction i))
    rcases set.runs with _ | _ <;> exact serves_none ⟨hdead.allocated, hdead.active⟩

/-- A step uses pages as the request of its instruction says, or for a handler. -/
theorem serves_step (h : n.Sound) (p : Platform) :
    Serves (n.request? p) n (step p n).2 := by
  rcases hr : n.core.isRunnable with _ | _
  · have hrun : step p n = (false, n) := by
      unfold step
      rw [if_neg (by simp [hr])]
    have hrequest : n.request? p = none := if_neg (by simp [hr])
    rw [hrun, hrequest]
    exact serves_none (.refl n)
  · rw [step_of_runnable hr]
    rcases hset : p.sets[n.core.activeSet]? with _ | set
    · have hrequest : n.request? p = none := by
        rw [request?, if_pos hr, hset]
      rw [executeNext_of_none hset, hrequest]
      exact serves_none (h.samePages_die _)
    · obtain ⟨fetched, -, hfetch⟩ := fetch_spec set (n.core.codeAddress n.core.regs.ip) n
      rw [executeNext_of_some hset]
      split at hfetch
      · rw [bind_of_ok hfetch]
        exact serves_carryOut h hr hset hfetch
      · have hrequest : n.request? p = none := by
          rw [request?, if_pos hr, hset]
          dsimp only
          rw [hfetch]
          rcases set.runs with _ | _ <;> rfl
        have hfetched : n.Goes (n.mapCore fun c => { c with fetched }) := h.goes_of_bus rfl rfl rfl
        rw [bind_of_error hfetch, hrequest]
        have hdead := hfetched.sound.samePages_die ‹Fault›
        exact serves_none ⟨hdead.allocated, hdead.active⟩

/-- A hardware interrupt makes no request. It may allocate a page for a handler. -/
theorem serves_interrupt (h : n.Sound) (p : Platform) (index : UInt32) :
    Serves none n (interrupt p index n).2 := by
  unfold interrupt
  split
  · next hc =>
    have hentry := serves_enterHandler h.wake.2 (isAlive_wake hc.1) p.vectorTable index
    have huse := PageUse.of_same (samePages_wake n) hentry (.refl _)
    rcases hrun : enterHandler p.vectorTable index n.wake with ⟨⟨⟩, n'⟩ | ⟨fault, n'⟩
    · rw [hrun] at huse
      exact huse
    · rw [hrun] at huse
      exact huse
  · exact serves_none (.refl n)

end Node

/-- The request to the memory service that an operation makes, if it makes one. -/
def Operation.request? (p : Platform) (n : Node PagedMemory) : Operation → Option MemoryRequest
  | .step => n.request? p
  | _ => none

/-- A core that is booted leaves the memory alone. -/
theorem Node.memory_boot (init : BootState) (n : Node PagedMemory) :
    (finalState (Node.boot init) n).bus.memory = n.bus.memory := by
  by_cases hs : n.core.state = .reset
  · simp only [finalState, Node.boot, if_pos hs, setState_bus]
    rfl
  · simp only [finalState, Node.boot, if_neg hs]

/-- A core that is restored leaves the memory alone. -/
theorem Node.memory_restore (p : Platform) (s : Snapshot) (n : Node PagedMemory) :
    (finalState (Node.restore p s) n).bus.memory = n.bus.memory := by
  unfold finalState Node.restore
  by_cases hs : n.core.state = .reset
  · rw [if_neg (not_not_intro hs)]
    by_cases ha : s.state.isAlive = true
    · rw [if_neg (not_not_intro ha)]
      dsimp only
      rw [setState_bus]
      rfl
    · rw [if_pos ha]
  · rw [if_pos hs]

/-- What an operation does with pages. A core starts without any. -/
theorem Operation.serves {n : Node PagedMemory} (h : n.Sound) (p : Platform)
    (hnew : n.core.state = .reset → n.core.frames = [] ∧ n.core.interruptStacks = [])
    (op : Operation) : Serves (op.request? p n) n (op.perform p n) := by
  have hstart (hturn : op.isTurn = false)
      (hmemory : (op.perform p n).bus.memory = n.bus.memory) : Serves none n (op.perform p n) :=
    serves_none (.of_allocated (by rw [hmemory]) (op.sameStacks hturn p hnew).active)
  cases op with
  | boot init => exact hstart rfl (memory_boot init n)
  | restore s => exact hstart rfl (memory_restore p s n)
  | step => exact serves_step h p
  | interrupt index => exact serves_interrupt h p index
  | suspend => exact serves_none (samePages_suspend n)
  | wake => exact serves_none (samePages_wake n)
  | halt code => exact serves_none (h.samePages_halt code)
  | die fault => exact serves_none (h.samePages_die fault)

end Multicore
