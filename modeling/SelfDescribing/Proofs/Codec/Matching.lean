import SelfDescribing.Proofs.Codec.Exchange

namespace SelfDescribing

open Steps

/-!
# Exchanges that match

Two exchanges match if they make related requests in the same order and, given answers of which
one is as good as the other, end alike.

* `Error.SameKind`, `Alike` — errors that differ in their wording alone, and results that do.
* `Exchange.eval` — what an exchange ends with, where a function answers its requests;
  `Exchange.simulates_run` says when carrying it out ends with that.
* `Exchange.Matches` — matching exchanges, which `Matches.eval` ends alike.

This is a simulation between two exchanges: the relation on requests is the one on values, and
answers are compared by `Alike`, which identifies errors of one kind.  What matches is closed under
sequences, so that a codec matches itself as soon as its requests do.
-/

/-- Errors of one kind. -/
def Error.SameKind (e e' : Error) : Prop := e.ctorIdx = e'.ctorIdx

variable {ρ α β γ σ : Type}

/-- The same result, or errors of one kind. -/
inductive Alike : Except Error β → Except Error β → Prop
  | ok (b : β) : Alike (.ok b) (.ok b)
  | error {e e' : Error} : e.SameKind e' → Alike (.error e) (.error e')

namespace Alike

theorem refl : ∀ r : Except Error β, Alike r r
  | .ok b => .ok b
  | .error _ => .error rfl

/-- Successes that are alike are equal. -/
theorem eq_of_ok {b b' : β} (h : Alike (.ok b) (.ok b')) : b = b' := by
  cases h
  rfl

/-- Answers that are alike stay so when the same is made of both. -/
theorem bind {r r' : Except Error β} (h : Alike r r') {f f' : β → Except Error γ}
    (hf : ∀ b, r = .ok b → Alike (f b) (f' b)) : Alike (r >>= f) (r' >>= f') := by
  cases h with
  | ok b => exact hf b rfl
  | error h => exact .error h

end Alike

namespace Exchange

/-- What an exchange ends with, where a function answers its requests. -/
def eval (answer : ρ → Except Error α) : Exchange ρ α β → Except Error β
  | done result => result
  | ask request resume => (resume (answer request)).eval answer

/-- An exchange ends with what the answers make of it, if every service gives these answers. -/
theorem simulates_run {serve : ρ → EStateM Error σ α} {answer : ρ → Except Error α} {I : σ → Prop}
    (hserve : ∀ q, Simulates I Eq (serve q) (answer q)) (x : Exchange ρ α β) :
    Simulates I Eq (x.run serve) (x.eval answer) := by
  induction x with
  | done result =>
    cases result with
    | ok b => exact .pure rfl
    | error e => exact .throw e
  | ask q resume ih =>
    have hanswer : ∀ {s}, I s → outcome (serve q s) = answer q :=
      fun hs => eq_of_like ((hserve q).like hs)
    constructor
    · intro s hs
      rw [run_ask, hanswer hs]
      exact (ih (answer q)).like ((hserve q).keeps hs)
    · intro s hs
      rw [run_ask, hanswer hs]
      exact (ih (answer q)).keeps ((hserve q).keeps hs)

/-- Two exchanges that make related requests and end alike. -/
inductive Matches (R : ρ → ρ → Prop) : Exchange ρ α β → Exchange ρ α β → Prop
  | done {r r'} : Alike r r' → Matches R (done r) (done r')
  | ask {q q' resume resume'} : R q q' →
      (∀ a a', Alike a a' → Matches R (resume a) (resume' a')) →
      Matches R (ask q resume) (ask q' resume')

namespace Matches

variable {R : ρ → ρ → Prop}

theorem pure (b : β) : Matches R (Pure.pure b : Exchange ρ α β) (Pure.pure b) := .done (.ok b)

theorem throw {e e' : Error} (h : e.SameKind e') :
    Matches R (MonadExcept.throw e : Exchange ρ α β) (MonadExcept.throw e') := .done (.error h)

/-- Related requests match. -/
theorem request {q q' : ρ} (h : R q q') :
    Matches R (Exchange.request q : Exchange ρ α α) (Exchange.request q') :=
  .ask h fun _ _ ha => .done ha

/-- Exchanges that match go on to match if what follows them does. -/
theorem bind {x x' : Exchange ρ α β} (hx : Matches R x x') {f f' : β → Exchange ρ α γ}
    (hf : ∀ b, Matches R (f b) (f' b)) : Matches R (x >>= f) (x' >>= f') := by
  induction hx with
  | done h =>
    cases h with
    | ok b => exact hf b
    | error h => exact .done (.error h)
  | ask hq _ ih => exact .ask hq ih

/-- Lists of exchanges match if the exchanges do, one by one. -/
theorem mapM {δ δ' : Type} {f : δ → Exchange ρ α β} {f' : δ' → Exchange ρ α β} {xs : List δ}
    {xs' : List δ'} (h : List.Forall₂ (fun x x' => Matches R (f x) (f' x')) xs xs') :
    Matches R (xs.mapM f) (xs'.mapM f') := by
  induction h with
  | nil =>
    rw [List.mapM_nil, List.mapM_nil]
    exact pure []
  | cons hx _ ih =>
    rw [List.mapM_cons, List.mapM_cons]
    exact hx.bind fun b => ih.bind fun bs => pure _

/-- Matching exchanges end alike where related requests are answered alike. -/
theorem eval {x x' : Exchange ρ α β} (hx : Matches R x x') {answer answer' : ρ → Except Error α}
    (hanswer : ∀ q q', R q q' → Alike (answer q) (answer' q')) :
    Alike (x.eval answer) (x'.eval answer') := by
  induction hx with
  | done h => exact h
  | ask hq _ ih => exact ih _ _ (hanswer _ _ hq)

end Matches

end Exchange

end SelfDescribing
