import Multicore.Proofs.Coherence.Registry
import Multicore.Proofs.Memory.Pages

/-!
# Pages behind the data caches

A page that is allocated is filled with zeros behind the caches (`PagedMemory.HandedOut`), and
then no cache may serve what it held before. A core therefore discards the lines of the page
when it is allocated or freed, and the bus is `Cleared`: it stays coherent, the page holds what
memory has, and every halfword of another page is as before (`cleared_discard`).
-/

namespace Multicore

namespace Bus

variable {bus : Bus PagedMemory}

/-- The selector of a page covers the addresses in it. -/
theorem covers_page_iff {p : UInt32} {a : Address} :
    (Selector.page p).covers a = true ↔ a.toNat / 256 = p.toNat := by
  rw [Selector.covers, decide_eq_true_eq, Address.page_eq_iff]

/-- The bus after the page `p` was taken out of the hands of the caches: their lines of the page
are gone, and the other halfwords are as they were. -/
structure Cleared (bus : Bus PagedMemory) (p : UInt32) (bus' : Bus PagedMemory) : Prop where
  keeps : bus.Keeps bus'
  coherent : bus'.Coherent
  inside : ∀ {a}, a % 2 = 0 → a.toNat / 256 = p.toNat → ∀ j, (bus'.copies a).cached j = none
  outside : ∀ {a}, a % 2 = 0 → a.toNat / 256 ≠ p.toNat → bus'.copies a = bus.copies a

/-- Halfwords of another page keep their value. -/
theorem Cleared.halfAt {bus' : Bus PagedMemory} {p : UInt32} (h : bus.Cleared p bus')
    {a : Address} (ha : a % 2 = 0) (hp : a.toNat / 256 ≠ p.toNat) :
    bus'.halfAt a = bus.halfAt a :=
  halfAt_of_copies_eq h.coherent (h.outside ha hp)

/-- What is allocated does not matter for coherence. -/
theorem Cleared.memory {bus' : Bus PagedMemory} {p : UInt32} (h : bus.Cleared p bus')
    {m : PagedMemory} (hcount : m.pageCount = bus'.memory.pageCount)
    (hhalf : ∀ a, m.halfAt a = bus'.memory.halfAt a) :
    bus.Cleared p { bus' with memory := m } := by
  have hcopies : ∀ a, ({ bus' with memory := m } : Bus PagedMemory).copies a = bus'.copies a :=
    fun a => Copies.ext rfl (hhalf a.toNat)
  refine ⟨⟨h.keeps.registry, h.keeps.capacity, h.keeps.capacities, h.keeps.absent,
    hcount.trans h.keeps.pageCount⟩, ⟨⟨h.coherent.own, fun {i} hi {a l} hl => ?_⟩, fun a => ?_⟩,
    fun {a} ha hp => ?_, fun {a} ha hp => ?_⟩
  · exact (PagedMemory.HasHalf.congr hcount).2 (h.coherent.fits hi hl)
  · rw [hcopies]
    exact h.coherent.each a
  · rw [hcopies]
    exact h.inside ha hp
  · rw [hcopies]
    exact h.outside ha hp

/-- After a change of memory within a page, a discard of the page makes the bus coherent. -/
theorem cleared_discard (h : bus.Coherent) {m : PagedMemory} {p : UInt32}
    (hcount : m.pageCount = bus.memory.pageCount)
    (hm : ∀ {a : Address}, a % 2 = 0 → a.toNat / 256 ≠ p.toNat →
      m.halfAt a.toNat = bus.memory.halfAt a.toNat) :
    bus.Cleared p (({ bus with memory := m } : Bus PagedMemory).discard (.page p) false) ∧
      (({ bus with memory := m } : Bus PagedMemory).discard (.page p) false).memory.allocated =
        m.allocated ∧
      ∀ {a : Address}, a % 2 = 0 → a.toNat / 256 = p.toNat →
        (({ bus with memory := m } : Bus PagedMemory).discard (.page p) false).halfAt a =
          m.halfAt a.toNat := by
  have hkeeps : bus.Keeps { bus with memory := m } :=
    ⟨rfl, rfl, fun _ => rfl, fun _ => rfl, hcount⟩
  have hfitted : ({ bus with memory := m } : Bus PagedMemory).Fitted :=
    ⟨h.own, fun {_} hi {_ _} hl => (PagedMemory.HasHalf.congr hcount).2 (h.fits hi hl)⟩
  have hsame : ∀ {a : Address}, a % 2 = 0 → a.toNat / 256 ≠ p.toNat →
      ({ bus with memory := m } : Bus PagedMemory).copies a = bus.copies a :=
    fun ha hp => Copies.ext rfl (hm ha hp)
  obtain ⟨hsteady, hcoherent, hspec⟩ := discard_spec hfitted (.page p) fun a ha hc => by
    rw [hsame ha fun hp => by rw [covers_page_iff.2 hp] at hc; cases hc]
    exact h.each a
  refine ⟨⟨hkeeps.trans hsteady.toKeeps, hcoherent, fun {a} ha hp => ?_, fun {a} ha hp => ?_⟩,
    hsteady.allocated, fun {a} ha hp => ?_⟩
  · have := hspec a ha
    rw [if_pos (covers_page_iff.2 hp)] at this
    exact this.1
  · have := hspec a ha
    rw [if_neg fun hc => hp (covers_page_iff.1 hc)] at this
    exact this.trans (hsame ha hp)
  · have := hspec a ha
    rw [if_pos (covers_page_iff.2 hp)] at this
    exact this.2

end Bus

end Multicore
