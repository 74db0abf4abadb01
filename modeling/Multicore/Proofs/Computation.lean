import Multicore.Cache.Bus

/-!
# Computations that may fail

Rules to follow an `EStateM` computation step by step: a computation that is known to succeed
or to fail from a state decides what the computations that go on from it do.
-/

namespace Multicore

variable {ε σ α γ : Type} {x : EStateM ε σ α} {f : α → EStateM ε σ γ} {s s' : σ} {a : α} {e : ε}

/-- After a success the rest goes on from the state reached. -/
theorem bind_of_ok (h : x s = .ok a s') : (x >>= f) s = f a s' := by
  show EStateM.bind x f s = _
  rw [EStateM.bind, h]

/-- After a failure nothing goes on. -/
theorem bind_of_error (h : x s = .error e s') : (x >>= f) s = .error e s' := by
  show EStateM.bind x f s = _
  rw [EStateM.bind, h]

/-- If a computation succeeds, then so does its first part. -/
theorem of_bind_eq_ok {b : γ} {s'' : σ} (h : (x >>= f) s = .ok b s'') :
    ∃ a s', x s = .ok a s' ∧ f a s' = .ok b s'' := by
  rcases hx : x s with ⟨a, s'⟩ | ⟨e, s'⟩
  · rw [bind_of_ok hx] at h
    exact ⟨a, s', rfl, h⟩
  · rw [bind_of_error hx] at h
    cases h

/-- A sequence fails with its first part, or with what goes on from there. -/
theorem bind_eq_error_iff : (x >>= f) s = .error e s' ↔
    x s = .error e s' ∨ ∃ a s₁, x s = .ok a s₁ ∧ f a s₁ = .error e s' := by
  constructor
  · intro h
    rcases hx : x s with ⟨a, s₁⟩ | ⟨e₁, s₁⟩
    · rw [bind_of_ok hx] at h
      exact .inr ⟨a, s₁, rfl, h⟩
    · rw [bind_of_error hx] at h
      cases h
      exact .inl rfl
  · rintro (hx | ⟨a, s₁, hx, hf⟩)
    · exact bind_of_error hx
    · exact (bind_of_ok hx).trans hf

theorem bind_get (f : σ → EStateM ε σ γ) (s : σ) :
    ((get : EStateM ε σ σ) >>= f) s = f s s := rfl

theorem bind_modify (g : σ → σ) (f : PUnit → EStateM ε σ γ) (s : σ) :
    ((modify g : EStateM ε σ PUnit) >>= f) s = f ⟨⟩ (g s) := rfl

/-- The state in which a success ends. -/
theorem finalState_of_ok (h : x s = .ok a s') : finalState x s = s' := by
  rw [finalState, h]

/-- The state in which a failure ends. -/
theorem finalState_of_error (h : x s = .error e s') : finalState x s = s' := by
  rw [finalState, h]

/-- Equal results end in the same state. -/
theorem finalState_congr {y : EStateM ε σ α} {t : σ} (h : x s = y t) :
    finalState x s = finalState y t := by
  rw [finalState, h, finalState]

/-- A computation fails in a state with a property that is found by checking. -/
theorem exists_of_error_any {r : EStateM.Result ε σ α} {P : ε → σ → Prop}
    [∀ e s, Decidable (P e s)]
    (h : (match r with
      | .error e s => decide (P e s)
      | .ok _ _ => false) = true) : ∃ e s, r = .error e s ∧ P e s := by
  rcases r with ⟨a, s⟩ | ⟨e, s⟩
  · cases h
  · exact ⟨e, s, rfl, of_decide_eq_true h⟩

/-! ## What a computation may change -/

/-- Whatever a computation comes to, it does no more than a relation of states allows. -/
def Within (R : σ → σ → Prop) (x : EStateM ε σ α) : Prop := ∀ s, R s (finalState x s)

/-- Of two computations that stay within a relation, either may be chosen. -/
theorem Within.ite {R : σ → σ → Prop} {c : Prop} [Decidable c] {y : EStateM ε σ α}
    (hx : Within R x) (hy : Within R y) : Within R (if c then x else y) := by
  split
  · exact hx
  · exact hy

/-- A relation that allows to do nothing, and to do one thing after another. -/
structure Chains (R : σ → σ → Prop) : Prop where
  refl : ∀ s, R s s
  trans : ∀ {s s' s''}, R s s' → R s' s'' → R s s''

namespace Chains

variable {R : σ → σ → Prop} (hR : Chains R)
include hR

/-- An answer without a computation leaves the state where it is. -/
theorem pure (a : α) : Within R (Pure.pure a : EStateM ε σ α) := hR.refl

/-- A failure without a computation leaves the state where it is. -/
theorem throw (e : ε) : Within R (MonadExcept.throw e : EStateM ε σ α) := hR.refl

/-- What is done before and after a result is known is put together, at one state. -/
theorem bind_at (hx : R s (finalState x s)) (hf : ∀ a, Within R (f a)) :
    R s (finalState (x >>= f) s) := by
  rcases hrun : x s with ⟨a, s'⟩ | ⟨e, s'⟩
  · rw [finalState_of_ok hrun] at hx
    rw [finalState_congr (bind_of_ok hrun)]
    exact hR.trans hx (hf a s')
  · rw [finalState_of_error hrun] at hx
    rw [finalState_of_error (bind_of_error hrun)]
    exact hx

/-- One computation that stays within a relation, after another. -/
theorem bind (hx : Within R x) (hf : ∀ a, Within R (f a)) : Within R (x >>= f) :=
  fun s => hR.bind_at (hx s) hf

/-- A loop stays within a relation if each turn does, by induction on the list. -/
theorem forM {ι : Type} {g : ι → EStateM ε σ PUnit} (l : List ι) (hg : ∀ i, Within R (g i)) :
    Within R (l.forM g) := by
  induction l with
  | nil => exact hR.pure PUnit.unit
  | cons i rest ih => exact hR.bind (hg i) fun _ => ih

end Chains

/-! ## What a computation leaves alone -/

/-- Whatever a computation comes to, what is seen of the state is as before. -/
def Preserves {δ : Type} (view : σ → δ) (x : EStateM ε σ α) : Prop :=
  ∀ s, view (finalState x s) = view s

namespace Preserves

variable {δ : Type} {view : σ → δ}

/-- To look the same is a relation of states. -/
theorem chains (view : σ → δ) : Chains fun s s' => view s' = view s :=
  ⟨fun _ => rfl, fun h h' => h'.trans h⟩

/-- What the view shows is preserved by one computation after another. -/
theorem bind (hx : Preserves view x) (hf : ∀ a, Preserves view (f a)) :
    Preserves view (x >>= f) :=
  (chains view).bind hx hf

/-- What the view shows is preserved by a loop if it is by each turn. -/
theorem forM {ι : Type} {g : ι → EStateM ε σ PUnit} (l : List ι)
    (hg : ∀ i, Preserves view (g i)) : Preserves view (l.forM g) :=
  (chains view).forM l hg

end Preserves

/-! ## Two runs -/

/-- Two runs came to the same: both succeeded with one answer or failed with one error, in states
that are related. -/
inductive Alike (R : σ → σ → Prop) : EStateM.Result ε σ α → EStateM.Result ε σ α → Prop
  | ok (a : α) {s t : σ} (h : R s t) : Alike R (.ok a s) (.ok a t)
  | error (e : ε) {s t : σ} (h : R s t) : Alike R (.error e s) (.error e t)

variable {R R' : σ → σ → Prop} {t : σ}

/-- Results that are alike by one relation are alike by any weaker one. -/
theorem Alike.mono {r r' : EStateM.Result ε σ α} (h : Alike R r r') (hR : ∀ {s t}, R s t → R' s t) :
    Alike R' r r' := by
  cases h with
  | ok a h => exact .ok a (hR h)
  | error e h => exact .error e (hR h)

/-- Results that are alike end in related states. -/
theorem Alike.finalState (h : Alike R (x s) (x t)) : R (finalState x s) (finalState x t) := by
  unfold Multicore.finalState
  generalize x s = r at h
  generalize x t = r' at h
  cases h with
  | ok a h => exact h
  | error e h => exact h

/-- Runs that are alike stay so if what comes after their answer is alike too. -/
theorem Alike.bind {y : EStateM ε σ α} {g : α → EStateM ε σ γ} (hx : Alike R (x s) (y t))
    (hR : ∀ {s t}, R s t → R' s t)
    (hf : ∀ {a s' t'}, x s = .ok a s' → R s' t' → Alike R' (f a s') (g a t')) :
    Alike R' ((x >>= f) s) ((y >>= g) t) := by
  show Alike R' (EStateM.bind x f s) (EStateM.bind y g t)
  unfold EStateM.bind
  generalize x s = r at hx hf
  generalize y t = r' at hx
  cases hx with
  | ok a h => exact hf rfl h
  | error e h => exact .error e (hR h)

end Multicore
