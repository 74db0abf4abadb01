import Multicore.Proofs.Coherence.Pages
import Multicore.Proofs.Coherence.Width

/-!
# Buses that differ in their caches

Two buses are `Twin` if they have the same values, however much of them is cached and where, and
whichever lines are dirty. What goes past the data caches sees memory and not the values, so
there are also halfwords that memory has in both: those of a `Text`, which nobody writes
(`Bus.Shows`). Every access that leaves the text alone comes to the same on twins, whichever caches
it goes through, and leaves twins behind (`Bus.Twin.load`, `Bus.Twin.store`), and so does a read of
the text past the caches (`Bus.Twin.readHalf`, `Bus.Twin.readWord`).
-/

namespace Multicore

open Std

/-- The bytes of an access. -/
def Width.bytesAt (a : Address) : Width → List Address
  | .byte => [a]
  | .half => [a, a + 1]
  | .word => [a, a + 1, a + 2, a + 3]

/-- The halfwords that are read past the data caches, and a memory that has them. -/
structure Text where
  image : PagedMemory
  code : Address → Prop

namespace Bus

variable {text : Text} {bus bus' bus₁ bus₂ : Bus PagedMemory} {i i₁ i₂ : Nat} {a : Address}
  {width : Width}

/-! ## Text in memory -/

/-- The text is in memory, and no line of it is dirty. -/
structure Shows (text : Text) (bus : Bus PagedMemory) : Prop where
  coherent : bus.Coherent
  pageCount : bus.memory.pageCount = text.image.pageCount
  noDirty : ∀ {a}, a % 2 = 0 → text.code a → (bus.copies a).NoDirty
  stored : ∀ {a : Address}, a % 2 = 0 → text.code a →
    bus.memory.halfAt a.toNat = text.image.halfAt a.toNat

/-- The values of the text are those in memory. -/
theorem Shows.halfAt (h : bus.Shows text) (ha : a % 2 = 0) (hc : text.code a) :
    bus.halfAt a = text.image.halfAt a.toNat := by
  rw [halfAt_of_noDirty (h.noDirty ha hc), h.stored ha hc]

/-- What keeps the size of memory, brings no dirty line into the text and keeps its values keeps
the text in memory. -/
theorem Shows.keeps (h : bus.Shows text) (hcoherent : bus'.Coherent)
    (hcount : bus'.memory.pageCount = bus.memory.pageCount)
    (hdirty : ∀ {a}, a % 2 = 0 → text.code a → (bus'.copies a).NoDirty)
    (hhalf : ∀ {a}, a % 2 = 0 → text.code a → bus'.halfAt a = bus.halfAt a) : bus'.Shows text where
  coherent := hcoherent
  pageCount := hcount.trans h.pageCount
  noDirty := hdirty
  stored ha hc := by
    rw [← halfAt_of_noDirty (hdirty ha hc), hhalf ha hc]
    exact h.halfAt ha hc

/-- A write outside the text keeps the text in memory. -/
theorem Shows.written {patch : Patch} (h : bus.Shows text) (hw : bus.Written i patch bus')
    (hp : ∀ a, a % 2 = 0 → text.code a → patch a = none) : bus'.Shows text := by
  refine h.keeps hw.coherent hw.steady.pageCount (fun {a} ha hc => ?_) fun {a} ha hc => ?_
  · have heach := hw.each ha
    rw [hp a ha hc] at heach
    exact heach.noDirty (h.noDirty ha hc)
  · rw [hw.halfAt ha, hp a ha hc]
    rfl

/-! ## Twins -/

/-- Both buses show the text, and they have the same values, and the same pages are allocated. -/
structure Twin (text : Text) (bus₁ bus₂ : Bus PagedMemory) : Prop where
  left : bus₁.Shows text
  right : bus₂.Shows text
  allocated : bus₂.memory.allocated = bus₁.memory.allocated
  halfAt : ∀ {a}, a % 2 = 0 → bus₂.halfAt a = bus₁.halfAt a

/-- A bus without dirty lines shows every text that memory has. -/
theorem shows_of_noDirty (h : bus.Coherent) (hd : ∀ a, (bus.copies a).NoDirty)
    (hm : bus.memory = text.image) : bus.Shows text :=
  ⟨h, by rw [hm], fun {a} _ _ => hd a, fun _ _ => by rw [hm]⟩

/-- Two buses without dirty lines over the same memory are twins. -/
theorem twin_of_noDirty (h₁ : bus₁.Coherent) (h₂ : bus₂.Coherent)
    (hd₁ : ∀ a, (bus₁.copies a).NoDirty) (hd₂ : ∀ a, (bus₂.copies a).NoDirty)
    (hm₁ : bus₁.memory = text.image) (hm₂ : bus₂.memory = text.image) : Twin text bus₁ bus₂ := by
  refine ⟨shows_of_noDirty h₁ hd₁ hm₁, shows_of_noDirty h₂ hd₂ hm₂, by rw [hm₁, hm₂],
    fun {a} _ => ?_⟩
  rw [halfAt_of_noDirty (hd₁ a), halfAt_of_noDirty (hd₂ a), hm₁, hm₂]

/-- The memories of twins have the same size. -/
theorem Twin.pageCount (h : Twin text bus₁ bus₂) :
    bus₂.memory.pageCount = bus₁.memory.pageCount :=
  h.right.pageCount.trans h.left.pageCount.symm

/-- The same accesses are refused. -/
theorem Twin.refusal (h : Twin text bus₁ bus₂) (a : Address) (width : Width) :
    bus₂.refusal a width = bus₁.refusal a width :=
  refusal_congr h.pageCount a width

/-- Twins have the same coherent bytes. -/
theorem Twin.byteAt (h : Twin text bus₁ bus₂) (a : Address) : bus₂.byteAt a = bus₁.byteAt a := by
  rw [Bus.byteAt, Bus.byteAt, h.halfAt (Address.halfword_even a)]

/-- An access that is not refused finds the same value. -/
theorem Twin.valueAt (h : Twin text bus₁ bus₂) (hr : bus₁.refusal a width = none) :
    bus₂.valueAt a width = bus₁.valueAt a width := by
  have ha := (refusal_eq_none_iff.1 hr).1
  cases width with
  | byte => exact congrArg UInt8.toUInt32 (h.byteAt a)
  | half => exact congrArg UInt16.toUInt32 (h.halfAt ha)
  | word =>
    have he := even_of_word ha
    show wordOfHalves (bus₂.halfAt a) (bus₂.halfAt (a + 2)) = _
    rw [h.halfAt he.1, h.halfAt he.2]
    rfl

/-- A write means the same halfwords to twins, where a byte keeps the other one of its halfword. -/
theorem Twin.patch (h : Twin text bus₁ bus₂) (a : Address) (v : UInt32) (width : Width) :
    bus₂.patch a v width = bus₁.patch a v width := by
  cases width with
  | byte => rw [Bus.patch, Bus.patch, h.halfAt (Address.halfword_even a)]
  | half => rfl
  | word => rfl

/-! ## Accesses -/

/-- Twins that have come of two buses without a change of the caches that take part. -/
structure Keep (text : Text) (bus₁ bus₂ bus₁' bus₂' : Bus PagedMemory) : Prop
    extends Twin text bus₁' bus₂' where
  registry₁ : bus₁'.registry = bus₁.registry
  registry₂ : bus₂'.registry = bus₂.registry

/-- An access that is the same on twins comes to the same on them, if it leaves the text alone. -/
theorem Twin.accesses {α : Type} (h : Twin text bus₁ bus₂)
    (hi₁ : bus₁.isRegistered i₁ = true) (hi₂ : bus₂.isRegistered i₂ = true)
    {x₁ x₂ : EStateM Fault (Bus PagedMemory) α} {r : Option Fault} {v : α} {q : Patch}
    (h₁ : Accesses i₁ x₁ bus₁ r v q) (h₂ : Accesses i₂ x₂ bus₂ r v q)
    (hq : r = none → ∀ a, a % 2 = 0 → text.code a → q a = none) :
    Alike (Keep text bus₁ bus₂) (x₁ bus₁) (x₂ bus₂) := by
  have hwritten : ∀ {c₁ c₂ q}, bus₁.Written i₁ q c₁ → bus₂.Written i₂ q c₂ →
      (∀ a, a % 2 = 0 → text.code a → q a = none) → Keep text bus₁ bus₂ c₁ c₂ := by
    intro c₁ c₂ q hw₁ hw₂ hq
    refine ⟨⟨h.left.written hw₁ hq, h.right.written hw₂ hq, ?_, fun {a} ha => ?_⟩,
      hw₁.steady.registry, hw₂.steady.registry⟩
    · rw [hw₁.steady.allocated, hw₂.steady.allocated, h.allocated]
    · rw [hw₁.halfAt ha, hw₂.halfAt ha, h.halfAt ha]
  rcases r with _ | fault
  · obtain ⟨c₁, hx₁, hw₁⟩ := h₁.accepted rfl
    obtain ⟨c₂, hx₂, hw₂⟩ := h₂.accepted rfl
    rw [hx₁, hx₂]
    exact .ok v (hwritten hw₁ hw₂ (hq rfl))
  · obtain ⟨c₁, hx₁, hs₁⟩ := h₁.refused rfl
    obtain ⟨c₂, hx₂, hs₂⟩ := h₂.refused rfl
    rw [hx₁, hx₂]
    exact .error fault (hwritten (hs₁.written h.left.coherent hi₁)
      (hs₂.written h.right.coherent hi₂) fun _ _ _ => rfl)

/-- A load comes to the same on twins. -/
theorem Twin.load (h : Twin text bus₁ bus₂) (h₁ : bus₁.isRegistered i₁ = true)
    (h₂ : bus₂.isRegistered i₂ = true) (width : Width) (a : Address) :
    Alike (Keep text bus₁ bus₂) (Bus.load width i₁ a bus₁) (Bus.load width i₂ a bus₂) := by
  have hload : Accesses i₂ (Bus.load width i₂ a) bus₂ (bus₁.refusal a width)
      (bus₁.valueAt a width) .none := by
    have hspec := load_spec h.right.coherent h₂ width a
    refine ⟨fun hr => ?_, fun hr => hspec.refused ((h.refusal a width).trans hr)⟩
    rw [← h.valueAt hr]
    exact hspec.accepted ((h.refusal a width).trans hr)
  exact h.accesses h₁ h₂ (load_spec h.left.coherent h₁ width a) hload fun _ _ _ _ => rfl

/-- A store replaces halfwords that have a byte of the access only. -/
theorem patch_eq_none (bus : Bus PagedMemory) {v : UInt32} (hr : bus.refusal a width = none)
    {b : Address} (hb : ∀ c ∈ width.bytesAt a, c.halfword ≠ b) : bus.patch a v width b = none := by
  have ha := (refusal_eq_none_iff.1 hr).1
  cases width with
  | byte => exact if_neg (Ne.symm (hb a (by simp [Width.bytesAt])))
  | half =>
    have hlow := hb a (by simp [Width.bytesAt])
    rw [Address.halfword_of_even ha] at hlow
    exact if_neg (Ne.symm hlow)
  | word =>
    have hlow := hb a (by simp [Width.bytesAt])
    have hhigh := hb (a + 2) (by simp [Width.bytesAt])
    rw [Address.halfword_of_even (even_of_word ha).1] at hlow
    rw [Address.halfword_of_even (even_of_word ha).2] at hhigh
    rw [patch_word, if_neg (Ne.symm hhigh), if_neg (Ne.symm hlow)]
    rfl

/-- A store outside the text comes to the same on twins. -/
theorem Twin.store (h : Twin text bus₁ bus₂) (h₁ : bus₁.isRegistered i₁ = true)
    (h₂ : bus₂.isRegistered i₂ = true) (width : Width) (a : Address) (v : UInt32)
    (ht : bus₁.refusal a width = none → ∀ b ∈ width.bytesAt a, ¬ text.code b.halfword) :
    Alike (Keep text bus₁ bus₂) (Bus.storeAt width i₁ a v bus₁)
      (Bus.storeAt width i₂ a v bus₂) := by
  have hstore := storeAt_spec h.right.coherent h₂ width a v
  rw [h.refusal, h.patch] at hstore
  refine h.accesses h₁ h₂ (storeAt_spec h.left.coherent h₁ width a v) hstore fun hr b _ hc =>
    patch_eq_none bus₁ hr fun c hcb e => ?_
  exact ht hr c hcb (e ▸ hc)

/-! ## Reads past the caches -/

/-- The bytes of accesses that are made one after the other, up to the first that is refused. -/
def reach (bus : Bus PagedMemory) : List (Address × Width) → List Address
  | [] => []
  | (a, width) :: rest =>
    match bus.refusal a width with
    | none => width.bytesAt a ++ bus.reach rest
    | some _ => []

/-- The bytes of an access that is accepted are reached, and then those of the others. -/
theorem reach_cons {rest : List (Address × Width)} (hr : bus.refusal a width = none) :
    bus.reach ((a, width) :: rest) = width.bytesAt a ++ bus.reach rest := by
  rw [reach, hr]

/-- Memory refuses the halfwords and words that a data cache would refuse. -/
theorem memory_refusal_iff (width : Width) (hw : width ≠ .byte) :
    bus.memory.refusal a width.bytes = none ↔ bus.refusal a width = none := by
  rw [PagedMemory.refusal_eq_none_iff, refusal_eq_none_iff]
  refine and_congr_right fun ha => ?_
  have he := even_of_aligned ha hw
  rw [Address.halfword_of_even he]
  cases width with
  | byte => exact absurd rfl hw
  | half => exact ⟨fun h => ⟨he, h⟩, fun h => h.inside⟩
  | word =>
    refine ⟨fun h => ⟨he, ?_⟩, fun h => ?_⟩
    · have hword : a.toNat + 4 ≤ bus.memory.size := h
      omega
    · have hupper := (h.add_two ha).inside
      rwa [Address.toNat_add_two ha] at hupper

end Bus

/-- The text has every halfword whose bytes are among the given ones. -/
def Text.Covers (text : Text) (bytes : List Address) : Prop :=
  ∀ a, a % 2 = 0 → a ∈ bytes → a + 1 ∈ bytes → text.code a

/-- A text that covers some bytes covers any of them. -/
theorem Text.Covers.mono {text : Text} {bytes bytes' : List Address} (h : text.Covers bytes)
    (hb : ∀ a ∈ bytes', a ∈ bytes) : text.Covers bytes' :=
  fun a he ha ha' => h a he (hb a ha) (hb (a + 1) ha')

namespace Bus

variable {text : Text} {bus bus' bus₁ bus₂ : Bus PagedMemory} {i₁ i₂ : Nat} {a : Address}
  {width : Width}

/-- Two memories that were read are as they were. -/
def Unread (bus₁ bus₂ : Bus PagedMemory) (m₁ m₂ : PagedMemory) : Prop :=
  m₁ = bus₁.memory ∧ m₂ = bus₂.memory

/-- A read that finds the same in both memories comes to the same. -/
theorem Twin.readWith {α : Type} (h : Twin text bus₁ bus₂) (width : UInt32)
    (f : PagedMemory → Nat → α) (hf : bus₁.memory.refusal a width = none →
      f bus₂.memory a.toNat = f bus₁.memory a.toNat) :
    Alike (Unread bus₁ bus₂) (PagedMemory.readWith width f a bus₁.memory)
      (PagedMemory.readWith width f a bus₂.memory) := by
  have hr : bus₂.memory.refusal a width = bus₁.memory.refusal a width := by
    rw [PagedMemory.refusal, PagedMemory.refusal, PagedMemory.size, PagedMemory.size, h.pageCount]
  unfold PagedMemory.readWith
  rw [hr]
  rcases hr₁ : bus₁.memory.refusal a width with _ | e
  · dsimp only
    rw [hf hr₁]
    exact .ok _ ⟨rfl, rfl⟩
  · exact .error e ⟨rfl, rfl⟩

/-- A word of the text is in memory. -/
theorem Shows.wordAt (h : bus.Shows text) (hr : bus.memory.refusal a 4 = none)
    {rest : List (Address × Width)} (hc : text.Covers (bus.reach ((a, .word) :: rest))) :
    bus.memory.wordAt a.toNat = text.image.wordAt a.toNat := by
  have ha := (PagedMemory.refusal_eq_none_iff.1 hr).1
  rw [reach_cons ((memory_refusal_iff .word nofun).1 hr)] at hc
  have he := even_of_word ha
  have hlow := h.stored he.1 (hc a he.1 (by simp [Width.bytesAt]) (by simp [Width.bytesAt]))
  have hthree : a + 2 + 1 = a + 3 := UInt32.add_assoc a 2 1
  have hhigh := h.stored he.2 (hc (a + 2) he.2 (by simp [Width.bytesAt])
    (by simp [Width.bytesAt, hthree]))
  rw [Address.toNat_add_two ha] at hhigh
  show wordOfHalves (bus.memory.halfAt a.toNat) (bus.memory.halfAt (a.toNat + 2)) = _
  rw [hlow, hhigh]
  rfl

/-- The bytes that accesses reach depend on the size of memory only. -/
theorem reach_congr (h : bus'.memory.pageCount = bus.memory.pageCount)
    (accesses : List (Address × Width)) : bus'.reach accesses = bus.reach accesses := by
  induction accesses with
  | nil => rfl
  | cons access rest ih => rw [reach, reach, refusal_congr h, ih]

/-- A halfword of the text is read alike past the data caches. -/
theorem Twin.readHalf (h : Twin text bus₁ bus₂) {rest : List (Address × Width)}
    (hc : text.Covers (bus₁.reach ((a, .half) :: rest))) :
    Alike (Unread bus₁ bus₂) (PhysicalMemory.readHalf a bus₁.memory)
      (PhysicalMemory.readHalf a bus₂.memory) := by
  refine h.readWith 2 PagedMemory.halfAt fun hr => ?_
  rw [reach_cons ((memory_refusal_iff .half nofun).1 hr)] at hc
  have ha := (PagedMemory.refusal_eq_none_iff.1 hr).1
  have hcode := hc a ha (by simp [Width.bytesAt]) (by simp [Width.bytesAt])
  exact (h.right.stored ha hcode).trans (h.left.stored ha hcode).symm

/-- A word of the text is read alike past the data caches. -/
theorem Twin.readWord (h : Twin text bus₁ bus₂) {rest : List (Address × Width)}
    (hc : text.Covers (bus₁.reach ((a, .word) :: rest))) :
    Alike (Unread bus₁ bus₂) (PhysicalMemory.readWord a bus₁.memory)
      (PhysicalMemory.readWord a bus₂.memory) := by
  refine h.readWith 4 PagedMemory.wordAt fun hr => ?_
  have hr₂ : bus₂.memory.refusal a 4 = none := by
    rwa [PagedMemory.refusal_eq_none_iff, PagedMemory.size, h.pageCount,
      ← PagedMemory.size, ← PagedMemory.refusal_eq_none_iff]
  exact (h.right.wordAt hr₂ (reach_congr h.pageCount _ ▸ hc)).trans (h.left.wordAt hr hc).symm

/-- What is done after a read may rely on the text that comes after it. -/
theorem Twin.read_bind {α γ : Type} {f : PagedMemory → Nat → α}
    {g : α → EStateM MemoryError PagedMemory γ} {rest : List (Address × Width)} (width : Width)
    (hw : width ≠ .byte) (hc : text.Covers (bus₁.reach ((a, width) :: rest)))
    (hx : Alike (Unread bus₁ bus₂) (PagedMemory.readWith width.bytes f a bus₁.memory)
      (PagedMemory.readWith width.bytes f a bus₂.memory))
    (hg : ∀ v, text.Covers (bus₁.reach rest) →
      Alike (Unread bus₁ bus₂) (g v bus₁.memory) (g v bus₂.memory)) :
    Alike (Unread bus₁ bus₂) ((PagedMemory.readWith width.bytes f a >>= g) bus₁.memory)
      ((PagedMemory.readWith width.bytes f a >>= g) bus₂.memory) := by
  refine hx.bind id fun {v m₁ m₂} hok hm => ?_
  obtain ⟨rfl, rfl⟩ := hm
  refine hg v (hc.mono fun b hb => ?_)
  have hr : bus₁.memory.refusal a width.bytes = none := by
    unfold PagedMemory.readWith at hok
    split at hok
    · cases hok
    · next hr => exact hr
  rw [reach_cons ((memory_refusal_iff _ hw).1 hr)]
  exact List.mem_append_right _ hb

/-- The parts of an interrupt vector, in the order in which they are read. -/
def vectorParts (table : Address) (index : UInt32) : List (Address × Width) :=
  let base := PhysicalMemory.vectorAddress table index
  [(base, .half), (base + 2, .half), (base + 4, .word), (base + 8, .word)]

/-- An interrupt vector in the text is the same in both memories. -/
theorem Twin.loadVector (h : Twin text bus₁ bus₂) {table : Address} {index : UInt32}
    (hc : text.Covers (bus₁.reach (vectorParts table index))) :
    Alike (Unread bus₁ bus₂) (PhysicalMemory.loadVector table index bus₁.memory)
      (PhysicalMemory.loadVector table index bus₂.memory) := by
  refine read_bind .half nofun hc (h.readHalf hc) fun cs hc => ?_
  refine read_bind .half nofun hc (h.readHalf hc) fun ds hc => ?_
  refine read_bind .word nofun hc (h.readWord hc) fun ip hc => ?_
  refine read_bind .word nofun hc (h.readWord hc) fun sp hc => ?_
  exact .ok _ ⟨rfl, rfl⟩

/-- What only reads memory, and comes to the same, leaves both buses as they are. -/
theorem alike_onMemory {α : Type} {x : EStateM MemoryError PagedMemory α}
    (hx : Alike (Unread bus₁ bus₂) (x bus₁.memory) (x bus₂.memory)) :
    Alike (fun c₁ c₂ => c₁ = bus₁ ∧ c₂ = bus₂) (Bus.onMemory x bus₁) (Bus.onMemory x bus₂) := by
  unfold Bus.onMemory
  generalize x bus₁.memory = r₁ at hx
  generalize x bus₂.memory = r₂ at hx
  cases hx with
  | ok a hm =>
    obtain ⟨rfl, rfl⟩ := hm
    exact .ok a ⟨rfl, rfl⟩
  | error e hm =>
    obtain ⟨rfl, rfl⟩ := hm
    exact .error _ ⟨rfl, rfl⟩

/-! ## Caches that come and go -/

/-- A cache without lines may start to take part, and the text is in memory still. -/
theorem Shows.register (h : bus.Shows text) {i : Nat} (hempty : ∀ a, (bus.store i).line? a = none) :
    (bus.register i i).Shows text ∧ ∀ a, (bus.register i i).halfAt a = bus.halfAt a := by
  have hhalf : ∀ a, (bus.register i i).halfAt a = bus.halfAt a := fun a =>
    halfAt_of_copies_eq (h.coherent.register hempty) (copies_register hempty a)
  refine ⟨h.keeps (h.coherent.register hempty) rfl (fun {a} ha hc => ?_) fun {a} _ _ => hhalf a,
    hhalf⟩
  rw [copies_register hempty]
  exact h.noDirty ha hc

/-- A cache may be flushed and take no more part, and the text is in memory still. -/
theorem Shows.retire (h : bus.Shows text) {i : Nat} (hi : bus.isRegistered i = true) :
    let bus' := (finalState (flush i) bus).unregister i
    bus'.Shows text ∧ bus'.memory.allocated = bus.memory.allocated ∧
      ∀ a, a % 2 = 0 → bus'.halfAt a = bus.halfAt a := by
  obtain ⟨bus', hrun, hw, hclean⟩ := flush_spec h.coherent hi
  rw [finalState_of_ok hrun]
  have hshows := h.written hw fun _ _ _ => rfl
  have hhalf : ∀ a, (bus'.unregister i).halfAt a = bus'.halfAt a := fun a =>
    halfAt_unregister hw.coherent hclean a
  refine ⟨?_, hw.steady.allocated, fun a ha => ?_⟩
  · refine hshows.keeps (hw.coherent.unregister i) rfl (fun {a} ha hc => ?_) fun {a} _ _ =>
      hhalf a
    rw [copies_unregister]
    exact (hshows.noDirty ha hc).drop i
  · rw [hhalf, hw.halfAt ha]
    rfl

/-- Caches without lines may start to take part in twins. -/
theorem Twin.register (h : Twin text bus₁ bus₂) (h₁ : ∀ a, (bus₁.store i₁).line? a = none)
    (h₂ : ∀ a, (bus₂.store i₂).line? a = none) :
    Twin text (bus₁.register i₁ i₁) (bus₂.register i₂ i₂) := by
  obtain ⟨hshows₁, hhalf₁⟩ := h.left.register h₁
  obtain ⟨hshows₂, hhalf₂⟩ := h.right.register h₂
  refine ⟨hshows₁, hshows₂, h.allocated, fun {a} ha => ?_⟩
  rw [hhalf₁, hhalf₂, h.halfAt ha]

/-- Caches of twins may be flushed and take no more part. -/
theorem Twin.retire (h : Twin text bus₁ bus₂) (h₁ : bus₁.isRegistered i₁ = true)
    (h₂ : bus₂.isRegistered i₂ = true) :
    Twin text ((finalState (flush i₁) bus₁).unregister i₁)
      ((finalState (flush i₂) bus₂).unregister i₂) := by
  obtain ⟨hshows₁, hallocated₁, hhalf₁⟩ := h.left.retire h₁
  obtain ⟨hshows₂, hallocated₂, hhalf₂⟩ := h.right.retire h₂
  refine ⟨hshows₁, hshows₂, ?_, fun {a} ha => ?_⟩
  · rw [hallocated₁, hallocated₂, h.allocated]
  · rw [hhalf₁ a ha, hhalf₂ a ha, h.halfAt ha]

end Bus

end Multicore
