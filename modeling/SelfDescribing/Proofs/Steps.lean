import Mathlib.Data.List.Forall2
import Mathlib.Order.Defs.Unbundled

namespace SelfDescribing.Steps

/-!
# Steps with a state and failures

Carrying out a sequence of steps, one by one: `bind_ok` and `bind_error` go forward from what the
first step gives, and `bind_eq_ok` goes back from a result of the whole sequence.

* `outcome`, `final` — what a step gives, and the state that it leaves, successful or not.
* `Moves` — a step goes from every state to one that is related to it.
* `Simulates` — a step gives what another one gives without a state, while an invariant holds.
* `Together` — two steps end alike from related states.
-/

variable {ε σ α β : Type}

/-- A step that succeeds hands its result and its state on. -/
theorem bind_ok {x : EStateM ε σ α} {s s' : σ} {a : α} (h : x s = .ok a s')
    (f : α → EStateM ε σ β) : (x >>= f) s = f a s' := by
  simp only [bind, EStateM.bind, h]

/-- A step that fails leaves nothing of what would follow it to be done. -/
theorem bind_error {x : EStateM ε σ α} {s s' : σ} {e : ε} (h : x s = .error e s')
    (f : α → EStateM ε σ β) : (x >>= f) s = .error e s' := by
  simp only [bind, EStateM.bind, h]

/-- Two steps succeed exactly if both do, the second one from where the first one ended. -/
theorem bind_eq_ok {x : EStateM ε σ α} {f : α → EStateM ε σ β} {s s' : σ} {b : β} :
    (x >>= f) s = .ok b s' ↔ ∃ a s₁, x s = .ok a s₁ ∧ f a s₁ = .ok b s' := by
  cases h : x s with
  | ok a s₁ =>
    rw [bind_ok h]
    constructor
    · exact fun h' => ⟨a, s₁, rfl, h'⟩
    · rintro ⟨a', s₂, he, h'⟩
      cases he
      exact h'
  | error e s₁ =>
    rw [bind_error h]
    constructor
    · intro h'
      cases h'
    · rintro ⟨a', s₂, he, -⟩
      cases he

/-- A sequence without a state succeeds when both parts do. -/
theorem except_bind_eq_ok {x : Except ε α} {f : α → Except ε β} {b : β} :
    (x >>= f) = .ok b ↔ ∃ a, x = .ok a ∧ f a = .ok b := by
  cases x with
  | ok a =>
    constructor
    · exact fun h => ⟨a, rfl, h⟩
    · rintro ⟨a', he, h⟩
      cases he
      exact h
  | error e =>
    constructor
    · intro h
      cases h
    · rintro ⟨a, he, -⟩
      cases he

/-- A list of steps without a state succeeds when all of them do. -/
theorem forall₂_of_except_mapM {f : α → Except ε β} {xs : List α} {ys : List β}
    (h : xs.mapM f = .ok ys) : List.Forall₂ (fun x y => f x = .ok y) xs ys := by
  induction xs generalizing ys with
  | nil =>
    rw [List.mapM_nil] at h
    cases h
    exact .nil
  | cons x xs ih =>
    rw [List.mapM_cons, except_bind_eq_ok] at h
    obtain ⟨y, hy, h⟩ := h
    obtain ⟨ys, hys, h⟩ := except_bind_eq_ok.1 h
    cases h
    exact .cons hy (ih hys)

/-- A list of steps without a state gives what its steps give. -/
theorem except_mapM_eq_ok_iff {f : α → Except ε β} {xs : List α} {ys : List β} :
    xs.mapM f = .ok ys ↔ List.Forall₂ (fun x y => f x = .ok y) xs ys := by
  refine ⟨forall₂_of_except_mapM, fun h => ?_⟩
  induction h with
  | nil => rfl
  | cons hxy _ ih =>
    rw [List.mapM_cons, hxy, ih]
    rfl

/-- Each item of the first list has a partner in the second one. -/
theorem exists_of_forall₂ {α β : Type} {R : α → β → Prop} {xs : List α} {ys : List β}
    (h : List.Forall₂ R xs ys) {x : α} (hx : x ∈ xs) : ∃ y ∈ ys, R x y := by
  induction h with
  | nil => cases hx
  | cons hxy _ ih =>
    obtain rfl | hx := List.mem_cons.1 hx
    · exact ⟨_, List.mem_cons_self, hxy⟩
    · obtain ⟨y, hy, hxy⟩ := ih hx
      exact ⟨y, List.mem_cons_of_mem _ hy, hxy⟩

/-- Partners that exist item by item form a list. -/
theorem exists_forall₂ {α β : Type} {R : α → β → Prop} {xs : List α} (h : ∀ x ∈ xs, ∃ y, R x y) :
    ∃ ys, List.Forall₂ R xs ys := by
  induction xs with
  | nil => exact ⟨[], .nil⟩
  | cons x xs ih =>
    rw [List.forall_mem_cons] at h
    obtain ⟨y, hy⟩ := h.1
    obtain ⟨ys, hys⟩ := ih h.2
    exact ⟨y :: ys, .cons hy hys⟩

theorem forall₂_and {α β : Type} {R Q : α → β → Prop} {xs : List α} {ys : List β}
    (h : List.Forall₂ R xs ys) (h' : List.Forall₂ Q xs ys) :
    List.Forall₂ (fun x y => R x y ∧ Q x y) xs ys := by
  rw [List.forall₂_iff_zip] at h h' ⊢
  exact ⟨h.1, fun hmem => ⟨h.2 hmem, h'.2 hmem⟩⟩

/-- Lists that are put together from related parts are related. -/
theorem forall₂_flatMap {α β γ : Type} {R : β → γ → Prop} {f : α → List β} {g : α → List γ}
    {xs : List α} (h : ∀ x ∈ xs, List.Forall₂ R (f x) (g x)) :
    List.Forall₂ R (xs.flatMap f) (xs.flatMap g) := by
  induction xs with
  | nil => exact .nil
  | cons x xs ih =>
    rw [List.forall_mem_cons] at h
    rw [List.flatMap_cons, List.flatMap_cons]
    exact List.rel_append h.1 (ih h.2)

/-- Getting the state hands it on as it is. -/
@[simp] theorem get_bind_apply (f : σ → EStateM ε σ β) (s : σ) :
    ((get : EStateM ε σ σ) >>= f) s = f s s := rfl

theorem pure_apply (a : α) (s : σ) : (pure a : EStateM ε σ α) s = .ok a s := rfl

theorem throw_apply (e : ε) (s : σ) : (throw e : EStateM ε σ α) s = .error e s := rfl

/-! ### What a step gives and where it ends -/

/-- What a step gave. -/
def outcome : EStateM.Result ε σ α → Except ε α
  | .ok a _ => .ok a
  | .error e _ => .error e

/-- The state that a step left. -/
def final : EStateM.Result ε σ α → σ
  | .ok _ s => s
  | .error _ s => s

/-- A result with a success as its outcome is that success, in the state that it ends in. -/
theorem eq_ok_of_outcome {r : EStateM.Result ε σ α} {a : α} (h : outcome r = .ok a) :
    r = .ok a (final r) := by
  cases r with
  | ok b s =>
    cases h
    rfl
  | error e s => cases h

/-- The same end with another view of the state. -/
def viewed {τ : Type} (view : σ → τ) : EStateM.Result ε σ α → EStateM.Result ε τ α
  | .ok a s => .ok a (view s)
  | .error e s => .error e (view s)

/-- A view of a result shows the state in which it ends. -/
theorem final_viewed {τ : Type} (view : σ → τ) (r : EStateM.Result ε σ α) :
    final (viewed view r) = view (final r) := by
  cases r <;> rfl

/-- What a result is made into does not show in the state. -/
theorem final_bind_pure (x : EStateM ε σ α) (f : α → β) (s : σ) :
    final ((x >>= fun a => pure (f a)) s) = final (x s) := by
  cases h : x s with
  | ok a s₁ =>
    rw [bind_ok h]
    rfl
  | error e s₁ =>
    rw [bind_error h]
    rfl

/-- A step that goes from every state to a related one, whether it succeeds or fails. -/
structure Moves (R : σ → σ → Prop) (x : EStateM ε σ α) : Prop where
  to_final : ∀ s, R s (final (x s))

namespace Moves

/-- A step that moves along a relation moves along every weaker one. -/
theorem imp {R Q : σ → σ → Prop} {x : EStateM ε σ α} (hx : Moves R x)
    (h : ∀ {s s'}, R s s' → Q s s') : Moves Q x :=
  ⟨fun s => h (hx.to_final s)⟩

variable {R : σ → σ → Prop} [IsPreorder σ R]

theorem pure (a : α) : Moves R (Pure.pure a : EStateM ε σ α) := ⟨fun s => refl s⟩

theorem throw (e : ε) : Moves R (MonadExcept.throw e : EStateM ε σ α) := ⟨fun s => refl s⟩

/-- Two steps in turn move along a relation that is transitive. -/
theorem bind {x : EStateM ε σ α} {f : α → EStateM ε σ β} (hx : Moves R x)
    (hf : ∀ a, Moves R (f a)) : Moves R (x >>= f) := by
  refine ⟨fun s => ?_⟩
  have first := hx.to_final s
  cases hs : x s with
  | ok a s₁ =>
    rw [hs] at first
    rw [bind_ok hs]
    exact trans_of R first ((hf a).to_final s₁)
  | error e s₁ =>
    rw [hs] at first
    rw [bind_error hs]
    exact first

end Moves

/-! ### Steps whose state does not show -/

/-- The same error, or related results. -/
inductive Like (R : α → β → Prop) : Except ε α → Except ε β → Prop
  | ok {a b} : R a b → Like R (.ok a) (.ok b)
  | error (e : ε) : Like R (.error e) (.error e)

/-- Answers that are alike up to equality are equal. -/
theorem eq_of_like {x y : Except ε α} (h : Like Eq x y) : x = y := by
  cases h with
  | ok h => rw [h]
  | error e => rfl

/-- What is like an error is that error. -/
theorem eq_error_of_like {R : α → β → Prop} {e : ε} {y : Except ε β} (h : Like R (.error e) y) :
    y = .error e := by
  cases h
  rfl

/-- What is like a success is a success with a related result. -/
theorem exists_of_like {R : α → β → Prop} {a : α} {y : Except ε β} (h : Like R (.ok a) y) :
    ∃ b, y = .ok b ∧ R a b := by
  cases h with
  | ok hab => exact ⟨_, rfl, hab⟩

/-- Answers that are alike stay so when related results are used alike. -/
theorem Like.bind {γ δ : Type} {R : α → β → Prop} {Q : γ → δ → Prop} {x : Except ε α}
    {y : Except ε β} (h : Like R x y) {f : α → Except ε γ} {g : β → Except ε δ}
    (hfg : ∀ a b, R a b → Like Q (f a) (g b)) : Like Q (x >>= f) (y >>= g) := by
  cases h with
  | ok hab => exact hfg _ _ hab
  | error e => exact .error e

/-- From every state with an invariant, a step ends like another one without a state, and keeps
the invariant. -/
structure Simulates (I : σ → Prop) (R : α → β → Prop) (x : EStateM ε σ α) (y : Except ε β) :
    Prop where
  like : ∀ {s}, I s → Like R (outcome (x s)) y
  keeps : ∀ {s}, I s → I (final (x s))

namespace Simulates

variable {I : σ → Prop} {R : α → β → Prop} {γ δ : Type} {Q : γ → δ → Prop}

theorem pure {a : α} {b : β} (h : R a b) :
    Simulates I R (Pure.pure a : EStateM ε σ α) (.ok b) := ⟨fun _ => .ok h, id⟩

theorem throw (e : ε) :
    Simulates I R (MonadExcept.throw e : EStateM ε σ α) (.error e) := ⟨fun _ => .error e, id⟩

/-- One step after the other is simulated if both are. -/
theorem bind {x : EStateM ε σ α} {y : Except ε β} (hx : Simulates I R x y)
    {f : α → EStateM ε σ γ} {g : β → Except ε δ} (hf : ∀ a b, R a b → Simulates I Q (f a) (g b)) :
    Simulates I Q (x >>= f) (y >>= g) := by
  -- Both end with the first error, or go on from related results.
  have hcases : ∀ {s}, I s → (∃ e, y = .error e ∧ x s = .error e (final (x s))) ∨
      ∃ a b, R a b ∧ y = .ok b ∧ x s = .ok a (final (x s)) := by
    intro s hs
    have hlike := hx.like hs
    cases hxs : x s with
    | error e s₁ =>
      rw [hxs] at hlike
      cases hlike
      exact .inl ⟨e, rfl, rfl⟩
    | ok a s₁ =>
      rw [hxs] at hlike
      cases hlike with
      | ok h => exact .inr ⟨a, _, h, rfl, rfl⟩
  constructor
  · intro s hs
    obtain ⟨e, rfl, hxs⟩ | ⟨a, b, hab, rfl, hxs⟩ := hcases hs
    · rw [bind_error hxs]
      exact .error e
    · rw [bind_ok hxs]
      exact (hf a b hab).like (hx.keeps hs)
  · intro s hs
    obtain ⟨e, rfl, hxs⟩ | ⟨a, b, hab, rfl, hxs⟩ := hcases hs
    · rw [bind_error hxs]
      exact hx.keeps hs
    · rw [bind_ok hxs]
      exact (hf a b hab).keeps (hx.keeps hs)

end Simulates

/-! ### Two runs -/

/-- From related states two steps end alike, and leave related states. -/
structure Together {τ : Type} (I : σ → τ → Prop) (R : α → β → Prop) (x : EStateM ε σ α)
    (y : EStateM ε τ β) : Prop where
  like : ∀ {s t}, I s t → Like R (outcome (x s)) (outcome (y t))
  keeps : ∀ {s t}, I s t → I (final (x s)) (final (y t))

namespace Together

variable {τ γ δ : Type} {I : σ → τ → Prop} {R : α → β → Prop} {Q : γ → δ → Prop}

theorem pure {a : α} {b : β} (h : R a b) :
    Together I R (Pure.pure a : EStateM ε σ α) (Pure.pure b : EStateM ε τ β) :=
  ⟨fun _ => .ok h, id⟩

theorem throw (e : ε) : Together I R (MonadExcept.throw e : EStateM ε σ α)
    (MonadExcept.throw e : EStateM ε τ β) :=
  ⟨fun _ => .error e, id⟩

/-- Two pairs of steps run together if their parts do. -/
theorem bind {x : EStateM ε σ α} {y : EStateM ε τ β} (hxy : Together I R x y)
    {f : α → EStateM ε σ γ} {g : β → EStateM ε τ δ}
    (hfg : ∀ a b, R a b → Together I Q (f a) (g b)) : Together I Q (x >>= f) (y >>= g) := by
  -- Both end with the same error, or go on from related results and states.
  have hcases : ∀ {s t}, I s t →
      (∃ e, x s = .error e (final (x s)) ∧ y t = .error e (final (y t))) ∨
      ∃ a b, R a b ∧ x s = .ok a (final (x s)) ∧ y t = .ok b (final (y t)) := by
    intro s t hst
    have hlike := hxy.like hst
    cases hx : x s with
    | error e s₁ =>
      rw [hx] at hlike
      cases hy : y t with
      | error e' t₁ =>
        rw [hy] at hlike
        cases hlike
        exact .inl ⟨e, rfl, rfl⟩
      | ok b t₁ =>
        rw [hy] at hlike
        cases hlike
    | ok a s₁ =>
      rw [hx] at hlike
      cases hy : y t with
      | error e' t₁ =>
        rw [hy] at hlike
        cases hlike
      | ok b t₁ =>
        rw [hy] at hlike
        cases hlike with
        | ok hab => exact .inr ⟨a, b, hab, rfl, rfl⟩
  constructor
  · intro s t hst
    obtain ⟨e, hx, hy⟩ | ⟨a, b, hab, hx, hy⟩ := hcases hst
    · rw [bind_error hx, bind_error hy]
      exact .error e
    · rw [bind_ok hx, bind_ok hy]
      exact (hfg a b hab).like (hxy.keeps hst)
  · intro s t hst
    obtain ⟨e, hx, hy⟩ | ⟨a, b, hab, hx, hy⟩ := hcases hst
    · rw [bind_error hx, bind_error hy]
      exact hxy.keeps hst
    · rw [bind_ok hx, bind_ok hy]
      exact (hfg a b hab).keeps (hxy.keeps hst)

end Together

end SelfDescribing.Steps
