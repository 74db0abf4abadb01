import Multicore.Proofs.Core.Lockstep
import Multicore.Proofs.Machine.Sweep

/-!
# The sizes of the caches

A `Control` is what may be done with a machine as a whole. A run of controls is `Undisturbed` if
no byte that it fetches past the data caches is stored, and no page is allocated or freed. Two
machines that are built alike but for the capacities of their caches, and are booted and
controlled alike, cannot be told apart then: after every control their cores and the values in
front of their caches are the same (`run_eq_of_undisturbed`).

Two such machines are `Machine.Twin`. Every core of one is the twin of a core of the other, so
what a control does with its cores, one by one, leaves the machines twins (`Twin.perform`).
-/

namespace Multicore

/-- What may be done with a machine. -/
inductive Control where
  /-- Every running core executes an instruction. -/
  | round
  /-- A hardware interrupt is delivered to every core. -/
  | interruptAll (index : UInt32)
  | suspend
  | wake
  | halt (exitCode : UInt32)

namespace Control

section
variable {β : Type} [PhysicalMemory β]

/-- The machine after a control. -/
def perform (m : Machine β) : Control → Machine β
  | .round => m.round.2
  | .interruptAll index => (m.interruptAll index).2
  | .suspend => m.suspend
  | .wake => m.wake
  | .halt code => m.halt code

/-- The machine after some controls. -/
def runOn (m : Machine β) (controls : List Control) : Machine β := controls.foldl perform m

/-- What a control does with each core. -/
def onNode (p : Platform) (n : Node β) : Control → Node β
  | .round => (Node.step p n).2
  | .interruptAll index => (Node.interrupt p index n).2
  | .suspend => n.suspend
  | .wake => n.wake
  | .halt code => if n.core.isAlive then n.halt code else n

/-- A control goes through the cores. -/
theorem perform_eq_mapNodes (m : Machine β) (c : Control) :
    c.perform m = m.mapNodes fun n => c.onNode m.platform n := by
  cases c with
  | round => exact Machine.sweep_snd (Node.step m.platform) m
  | interruptAll index => exact Machine.sweep_snd (Node.interrupt m.platform index) m
  | suspend => rfl
  | wake => rfl
  | halt code => rfl

end

/-- What a control touches on a core. -/
def nodeTouches (p : Platform) (n : Node PagedMemory) : Control → List Touch
  | .round => n.stepTouches p
  | .interruptAll index => n.interruptTouches p index
  | _ => []

/-- What a control touches, core by core. -/
def touches (m : Machine PagedMemory) (c : Control) : List Touch :=
  (m.sweep fun n => (c.nodeTouches m.platform n, c.onNode m.platform n)).1.flatten

/-- What some controls touch, one after the other. -/
def runTouches : Machine PagedMemory → List Control → List Touch
  | _, [] => []
  | m, c :: rest => c.touches m ++ runTouches (c.perform m) rest

end Control

/-- Fewer controls touch no more. -/
theorem Control.mem_of_runTouches_take {t : Touch} {m : Machine PagedMemory}
    {controls : List Control} {k : Nat} (h : t ∈ runTouches m (controls.take k)) :
    t ∈ runTouches m controls := by
  induction controls generalizing m k with
  | nil => rwa [List.take_nil] at h
  | cons c rest ih =>
    cases k with
    | zero => cases h
    | succ k =>
      rcases List.mem_append.1 h with h | h
      · exact List.mem_append_left _ h
      · exact List.mem_append_right _ (ih h)

/-- No byte that is fetched past the data caches is stored, and no page is allocated or freed. -/
structure Undisturbed (touches : List Touch) : Prop where
  stored : ∀ a, .stored a ∈ touches → .fetched a ∉ touches
  repaged : .repaged ∉ touches

/-- Whether a touch disturbs a run with the given touches. -/
def Touch.disturbs (touches : List Touch) : Touch → Bool
  | .fetched _ => false
  | .stored a => .fetched a ∈ touches
  | .repaged => true

/-- Whether a run is undisturbed can be decided touch by touch. -/
theorem undisturbed_iff {touches : List Touch} :
    Undisturbed touches ↔ ∀ t ∈ touches, t.disturbs touches = false := by
  constructor
  · intro h t ht
    cases t with
    | fetched a => rfl
    | stored a => exact decide_eq_false (h.stored a ht)
    | repaged => exact absurd ht h.repaged
  · intro h
    refine ⟨fun a ha => of_decide_eq_false (h (.stored a) ha), fun hr => ?_⟩
    cases h .repaged hr

instance (touches : List Touch) : Decidable (Undisturbed touches) :=
  decidable_of_iff _ undisturbed_iff.symm

/-- What is undisturbed is permitted by the text of the halfwords that it fetches. -/
theorem Undisturbed.exists_text {touches : List Touch} (h : Undisturbed touches)
    (image : PagedMemory) : ∃ text : Text, text.image = image ∧ text.Permits touches := by
  refine ⟨⟨image, fun a => .fetched a ∈ touches ∧ .fetched (a + 1) ∈ touches⟩, rfl,
    fun a _ ha ha' => ⟨ha, ha'⟩, fun a hs hc => ?_, h.repaged⟩
  rcases a.eq_halfword_or with hbyte | hbyte
  · exact h.stored a hs (hbyte ▸ hc.1)
  · exact h.stored a hs (hbyte ▸ hc.2)

/-- The core without what it has fetched. -/
def Core.withoutCache (c : Core) : Core := { c with fetched := .empty 1 }

namespace Machine

variable {text : Text} {m₁ m₂ : Machine PagedMemory} {i : Nat} {n₁ n₂ : Node PagedMemory}

/-- The machines are the same but for the caches and the journal. -/
structure Twin (text : Text) (m₁ m₂ : Machine PagedMemory) : Prop where
  left : m₁.Sound
  right : m₂.Sound
  platform : m₂.platform = m₁.platform
  tallies : ∀ index, m₂.tallies.getD index 0 = m₁.tallies.getD index 0
  bus : Bus.Twin text m₁.bus m₂.bus
  length : m₂.cores.length = m₁.cores.length
  cores : ∀ {i : Nat} {c₁ c₂}, m₁.cores[i]? = some c₁ → m₂.cores[i]? = some c₂ →
    Core.Twin text m₁.platform c₁ c₂

/-- The cores of twins have the same numbers. -/
theorem Twin.id_eq (h : Twin text m₁ m₂) (h₁ : m₁.node? i = some n₁)
    (h₂ : m₂.node? i = some n₂) : n₂.core.id = n₁.core.id := by
  rw [h.left.ids (node?_eq_some_iff.1 h₁).1, h.right.ids (node?_eq_some_iff.1 h₂).1]

/-- The nodes of cores with the same number are twins. -/
theorem Twin.node (h : Twin text m₁ m₂) (h₁ : m₁.node? i = some n₁) (h₂ : m₂.node? i = some n₂) :
    Node.Twin text m₁.platform n₁ n₂ := by
  obtain ⟨hc₁, hs₁⟩ := node?_eq_some_iff.1 h₁
  obtain ⟨hc₂, hs₂⟩ := node?_eq_some_iff.1 h₂
  refine ⟨?_, ?_, h.id_eq h₁ h₂ ▸ h.cores hc₁ hc₂⟩
  · rw [congrArg Shared.tallies hs₁, congrArg Shared.tallies hs₂]
    exact h.tallies
  · rw [congrArg Shared.bus hs₁, congrArg Shared.bus hs₂]
    exact h.bus

/-- What comes to the same on twins and leaves them sound may be done on a core of both
machines. -/
theorem Twin.setNode {n₁' n₂' : Node PagedMemory} (h : Twin text m₁ m₂)
    (h₁ : m₁.node? i = some n₁) (h₂ : m₂.node? i = some n₂)
    (hs₁ : n₁.Spares n₁' ∧ n₁'.Sound) (hs₂ : n₂.Spares n₂' ∧ n₂'.Sound)
    (hn : Node.Twin text m₁.platform n₁' n₂') :
    Twin text (m₁.setNode i n₁') (m₂.setNode i n₂') := by
  refine ⟨h.left.setNode h₁ hs₁.1 hs₁.2, h.right.setNode h₂ hs₂.1 hs₂.2, h.platform, hn.tallies,
    hn.bus, ?_, fun {j c₁ c₂} hc₁ hc₂ => ?_⟩
  · simpa [Machine.setNode] using h.length
  · by_cases hj : j = i
    · subst hj
      have hself₁ : (m₁.setNode j n₁').node? j = some n₁' := node?_setNode_self h₁
      have hself₂ : (m₂.setNode j n₂').node? j = some n₂' := node?_setNode_self h₂
      cases (node?_eq_some_iff.1 hself₁).1.symm.trans hc₁
      cases (node?_eq_some_iff.1 hself₂).1.symm.trans hc₂
      have hid : n₂'.core.id = n₁'.core.id := by
        rw [hs₁.1.id, hs₂.1.id, h.id_eq h₁ h₂]
      have hcore := hn.core
      rwa [← hid] at hcore
    · have hset : ∀ {m : Machine PagedMemory} {n : Node PagedMemory},
          (m.setNode i n).cores[j]? = m.cores[j]? := List.getElem?_set_ne (Ne.symm hj)
      exact h.cores (hset.symm.trans hc₁) (hset.symm.trans hc₂)

/-! ## Controls -/

/-- A control comes to the same on each core of twins. -/
theorem Twin.onNode (h : Twin text m₁ m₂) (h₁ : m₁.node? i = some n₁) (h₂ : m₂.node? i = some n₂)
    {c : Control} (ht : text.Permits (c.nodeTouches m₁.platform n₁)) :
    Node.Twin text m₁.platform (c.onNode m₁.platform n₁) (c.onNode m₁.platform n₂) := by
  have hn := h.node h₁ h₂
  have hs₁ := h.left.nodes h₁
  have hs₂ := h.right.nodes h₂
  cases c with
  | round => exact hn.step hs₁ hs₂ ht
  | interruptAll index => exact hn.interrupt hs₁ hs₂ ht
  | suspend => exact hn.suspend
  | wake => exact hn.wake
  | halt code =>
    dsimp only [Control.onNode]
    rw [hn.isAlive]
    split
    · next ha => exact ((hn.live hs₁ hs₂ ha).started.halt code).toTwin
    · exact hn

/-- A control leaves a sound node sound and spares the others. -/
theorem onNode_sound {n : Node PagedMemory} (h : n.Sound) (p : Platform) (c : Control) :
    n.Spares (c.onNode p n) ∧ (c.onNode p n).Sound := by
  cases c with
  | round => exact h.step p
  | interruptAll index => exact h.interrupt p index
  | suspend => exact h.suspend
  | wake => exact h.wake
  | halt code =>
    dsimp only [Control.onNode]
    split
    · exact h.halt code
    · exact ⟨.refl n, h⟩

/-- A control that is permitted leaves twins behind. -/
theorem Twin.perform (h : Twin text m₁ m₂) {c : Control} (ht : text.Permits (c.touches m₁)) :
    Twin text (c.perform m₁) (c.perform m₂) := by
  -- The sweep that records the touches ends where the control does.
  let f : Node PagedMemory → List Touch × Node PagedMemory := fun n =>
    (c.nodeTouches m₁.platform n, c.onNode m₁.platform n)
  have hsweep : Twin text (m₁.sweep f).2 (m₂.sweep f).2 ∧
      (m₁.sweep f).2.platform = m₁.platform := by
    refine sweep_induction (q := text.Permits)
      (R := fun m m' => Twin text m m' ∧ m.platform = m₁.platform)
      (fun {m m' i n n'} hm hn hn' hq => ?_) h.length ⟨h, rfl⟩ fun ts hts => ?_
    · obtain ⟨htwin, hplatform⟩ := hm
      have hgo := htwin.onNode hn hn' (c := c) (hplatform ▸ hq)
      refine ⟨htwin.setNode hn hn' ?_ ?_ ?_, hplatform⟩
      · exact onNode_sound (htwin.left.nodes hn) _ c
      · exact onNode_sound (htwin.right.nodes hn') _ c
      · rw [hplatform] at hgo ⊢
        exact hgo
    · exact ht.mono fun t ht' => List.mem_flatten.2 ⟨ts, hts, ht'⟩
  rw [Control.perform_eq_mapNodes, Control.perform_eq_mapNodes, h.platform, ← sweep_snd f,
    ← sweep_snd f]
  exact hsweep.1

/-- Controls that are permitted leave twins behind. -/
theorem Twin.runOn (h : Twin text m₁ m₂) {controls : List Control}
    (ht : text.Permits (Control.runTouches m₁ controls)) :
    Twin text (Control.runOn m₁ controls) (Control.runOn m₂ controls) := by
  induction controls generalizing m₁ m₂ with
  | nil => exact h
  | cons c rest ih =>
    have hfirst := h.perform (ht.mono fun _ => List.mem_append_left _)
    exact ih hfirst (ht.mono fun _ => List.mem_append_right _)

/-! ## Start -/

/-- A core with the same number starts the same. -/
theorem Twin.bootCore (h : Twin text m₁ m₂) (i : Nat) (init : BootState) :
    Alike (Twin text) (onCore i (Node.boot init) m₁) (onCore i (Node.boot init) m₂) := by
  unfold onCore
  rcases h₁ : m₁.node? i with _ | n₁
  · have h₂ : m₂.node? i = none := by
      rw [node?, Option.map_eq_none_iff, List.getElem?_eq_none_iff] at h₁ ⊢
      exact h.length ▸ h₁
    rw [h₂]
    exact .error _ h
  · obtain ⟨n₂, h₂⟩ : ∃ n₂, m₂.node? i = some n₂ := by
      obtain ⟨hi, -⟩ := List.getElem?_eq_some_iff.1 (node?_eq_some_iff.1 h₁).1
      rw [← h.length] at hi
      exact ⟨{ m₂.toShared with core := m₂.cores[i] },
        node?_eq_some_iff.2 ⟨List.getElem?_eq_getElem hi, rfl⟩⟩
    rw [h₂]
    have hsound₁ := h.left.nodes h₁
    have hsound₂ := h.right.nodes h₂
    have hs₁ := hsound₁.boot init
    have hs₂ := hsound₂.boot init
    have hx := (h.node h₁ h₂).boot (h.id_eq h₁ h₂) init hsound₁.fresh hsound₂.fresh
    unfold finalState at hs₁ hs₂
    dsimp only
    generalize Node.boot init n₁ = r₁ at hs₁ hx
    generalize Node.boot init n₂ = r₂ at hs₂ hx
    cases hx with
    | ok _ hn => exact .ok () (h.setNode h₁ h₂ hs₁ hs₂ hn)
    | error e hn => exact .error e (h.setNode h₁ h₂ hs₁ hs₂ hn)

/-- Twins that are booted stay twins. -/
theorem Twin.boot (h : Twin text m₁ m₂) (states : List BootState) :
    Alike (Twin text) (Machine.boot states m₁) (Machine.boot states m₂) := by
  have hcores : ∀ (l : List Nat) {m₁ m₂ : Machine PagedMemory}, Twin text m₁ m₂ →
      Alike (Twin text)
        ((l.forM fun i => onCore i (Node.boot (states.getD i default))) m₁)
        ((l.forM fun i => onCore i (Node.boot (states.getD i default))) m₂) := by
    intro l
    induction l with
    | nil => exact fun h => .ok () h
    | cons i rest ih =>
      intro m₁ m₂ h
      rw [List.forM_eq_forM, List.forM_cons]
      exact (h.bootCore i _).bind id fun {_ _ _} _ h => ih h
  unfold Machine.boot bootFirst
  rw [bind_get, bind_get, h.length]
  split
  · exact .error _ h
  · exact hcores _ h

section
variable (p : Platform) (cores : Nat) (recording : Bool)

/-- Machines that are built alike but for the capacities of their caches are twins. -/
theorem twin_new (text : Text)
    (instructionCapacity instructionCapacity' dataCapacity dataCapacity' : Nat) :
    Twin text (Machine.new p text.image cores instructionCapacity dataCapacity recording)
      (Machine.new p text.image cores instructionCapacity' dataCapacity' recording) := by
  have hdirty : ∀ instructionCapacity dataCapacity a, ((Machine.new p text.image cores
      instructionCapacity dataCapacity recording).bus.copies a).NoDirty := by
    intro instructionCapacity dataCapacity a j l hl
    refine absurd hl (Bus.cached_of_empty fun j a => ?_)
    exact Bus.line?_empty dataCapacity a
  have hbus := Bus.twin_of_noDirty (sound_new ..).coherent (sound_new ..).coherent
    (hdirty instructionCapacity dataCapacity) (hdirty instructionCapacity' dataCapacity') rfl rfl
  refine ⟨sound_new .., sound_new .., rfl, fun _ => rfl, hbus, by simp [Machine.new],
    fun {i c₁ c₂} h₁ h₂ => ?_⟩
  rw [getElem?_cores_new p _ cores instructionCapacity dataCapacity recording h₁,
    getElem?_cores_new p _ cores instructionCapacity' dataCapacity' recording h₂]
  refine ⟨rfl, fun a i hi => ?_, fun a i hi => ?_,
    fun page hpage => absurd hpage List.not_mem_nil⟩
  · cases (RecencyMap.peek?_empty ..).symm.trans hi
  · cases (RecencyMap.peek?_empty ..).symm.trans hi

/-- A machine that was just built, and booted as far as it can be. -/
def booted (memory : PagedMemory) (states : List BootState)
    (instructionCapacity dataCapacity : Nat) : Machine PagedMemory :=
  finalState (Machine.boot states)
    (Machine.new p memory cores instructionCapacity dataCapacity recording)

/-- The capacities of the caches make no difference to a run of controls that is undisturbed:
after every control the cores have come to the same, and every byte has the same value. -/
theorem run_eq_of_undisturbed (memory : PagedMemory) (states : List BootState)
    (controls : List Control)
    (instructionCapacity instructionCapacity' dataCapacity dataCapacity' : Nat)
    (h : Undisturbed (Control.runTouches
      (booted p cores recording memory states instructionCapacity dataCapacity) controls))
    (k : Nat) :
    let m₁ := Control.runOn (booted p cores recording memory states instructionCapacity
      dataCapacity) (controls.take k)
    let m₂ := Control.runOn (booted p cores recording memory states instructionCapacity'
      dataCapacity') (controls.take k)
    m₂.cores.map Core.withoutCache = m₁.cores.map Core.withoutCache ∧
      ∀ a, m₂.bus.byteAt a = m₁.bus.byteAt a := by
  intro m₁ m₂
  obtain ⟨text, rfl, ht⟩ := h.exists_text memory
  have hnew := twin_new p cores recording text instructionCapacity instructionCapacity'
    dataCapacity dataCapacity'
  have hrun : Twin text m₁ m₂ := (hnew.boot states).finalState.runOn
    (ht.mono fun _ => Control.mem_of_runTouches_take)
  refine ⟨List.ext_getElem ?_ fun i h₂ h₁ => ?_, fun a => hrun.bus.byteAt a⟩
  · rw [List.length_map, List.length_map, hrun.length]
  · rw [List.length_map] at h₁ h₂
    rw [List.getElem_map, List.getElem_map,
      (hrun.cores (List.getElem?_eq_getElem h₁) (List.getElem?_eq_getElem h₂)).same]
    rfl

end

/-- Two cores push their stack pointers to one place and pop what is there. Caches of one line
serve them as well as caches that hold all of the memory. -/
theorem run_eq_of_undisturbed_of_push_pop :
    let memory := (PagedMemory.ofSize 256).setBytes 0 (bytesOfWords [0x7eb, 0x2c])
    let state : BootState := { cs := 0, ds := 0, sp := 256, ip := 0, privileged := true }
    let large := booted {} 2 false memory [state, state] 64 128
    let small := booted {} 2 false memory [state, state] 1 1
    let controls : List Control := [.round, .round, .halt 0]
    Undisturbed (Control.runTouches large controls) ∧ ∀ k,
      (Control.runOn small (controls.take k)).cores.map Core.withoutCache =
        (Control.runOn large (controls.take k)).cores.map Core.withoutCache ∧
      ∀ a, (Control.runOn small (controls.take k)).bus.byteAt a =
        (Control.runOn large (controls.take k)).bus.byteAt a := by
  intro memory state large small controls
  have h : Undisturbed (Control.runTouches large controls) := by decide +kernel
  exact ⟨h, run_eq_of_undisturbed {} 2 false memory [state, state] controls 64 1 128 1 h⟩

end Machine

end Multicore
