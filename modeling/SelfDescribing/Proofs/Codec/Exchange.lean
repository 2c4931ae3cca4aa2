import SelfDescribing.Codec.Exchange
import SelfDescribing.Proofs.Steps
import Mathlib.Data.List.Forall2

namespace SelfDescribing.Exchange

open Steps

/-!
# How exchanges end

An exchange ends in one way for each way of answering its requests.

* `Ends answers x r` — `x` may end with `r` where its requests are answered as `answers` allows.
* `Gives answers x b` — however the requests are answered then, `x` ends with `b`.
* `asked` — the requests that are made while an exchange is carried out, each with the state in
  which it is served; `ends_run` says that the exchange ends as these requests were served.

Codecs are exchanges, trees of requests with a continuation for each answer, so that what a codec
does is independent of how a factory serves the requests.  `Ends` and `Gives` abstract from the
factory by a relation between requests and answers.  `bind_ok_iff` and its kin are how proofs take a
codec apart.
-/

variable {ρ α β γ σ : Type} {answers : ρ → Except Error α → Prop}

/-- The ways in which an exchange may end. -/
inductive Ends (answers : ρ → Except Error α → Prop) : Exchange ρ α β → Except Error β → Prop
  | done (result : Except Error β) : Ends answers (.done result) result
  | ask {request resume answer result} : answers request answer →
      Ends answers (resume answer) result → Ends answers (.ask request resume) result

/-- An exchange that ends with `b`, whatever answers it gets. -/
def Gives (answers : ρ → Except Error α → Prop) (x : Exchange ρ α β) (b : β) : Prop :=
  ∀ result, x.Ends answers result → result = .ok b

namespace Ends

/-- An exchange that ends with some answers ends so where more answers are possible. -/
theorem mono {answers' : ρ → Except Error α → Prop} {x : Exchange ρ α β} {r : Except Error β}
    (h : x.Ends answers r) (more : ∀ q a, answers q a → answers' q a) : x.Ends answers' r := by
  induction h with
  | done r => exact .done r
  | ask ha _ ih => exact .ask (more _ _ ha) ih

/-- An exchange that is done ends with its result and nothing else. -/
theorem done_iff {r r' : Except Error β} :
    (Exchange.done r : Exchange ρ α β).Ends answers r' ↔ r' = r := by
  constructor
  · rintro ⟨⟩
    rfl
  · rintro rfl
    exact .done _

theorem pure_iff {b : β} {r : Except Error β} :
    (pure b : Exchange ρ α β).Ends answers r ↔ r = .ok b := done_iff

theorem throw_iff {e : Error} {r : Except Error β} :
    (throw e : Exchange ρ α β).Ends answers r ↔ r = .error e := done_iff

/-- A request ends with whatever answers it. -/
theorem request_iff {q : ρ} {a : Except Error α} :
    (request q).Ends answers a ↔ answers q a := by
  constructor
  · rintro (_ | ⟨ha, ⟨⟩⟩)
    exact ha
  · exact fun ha => .ask ha (.done a)

/-- Two exchanges in turn end with the error of the first one, or as the second one does. -/
theorem bind_cases {x : Exchange ρ α β} {f : β → Exchange ρ α γ} {r : Except Error γ}
    (h : (x >>= f).Ends answers r) :
    (∃ e, x.Ends answers (.error e) ∧ r = .error e) ∨
      ∃ b, x.Ends answers (.ok b) ∧ (f b).Ends answers r := by
  induction x with
  | done result =>
    cases result with
    | ok b => exact .inr ⟨b, .done _, h⟩
    | error e =>
      cases h
      exact .inl ⟨e, .done _, rfl⟩
  | ask q resume ih =>
    cases h with
    | ask ha hrest =>
      obtain ⟨e, he, hr⟩ | ⟨b, hb, hr⟩ := ih _ hrest
      · exact .inl ⟨e, .ask ha he, hr⟩
      · exact .inr ⟨b, .ask ha hb, hr⟩

/-- Two exchanges in turn succeed exactly if both do. -/
theorem bind_ok_iff {x : Exchange ρ α β} {f : β → Exchange ρ α γ} {c : γ} :
    (x >>= f).Ends answers (.ok c) ↔
      ∃ b, x.Ends answers (.ok b) ∧ (f b).Ends answers (.ok c) := by
  constructor
  · intro h
    obtain ⟨e, -, he⟩ | hok := bind_cases h
    · cases he
    · exact hok
  · rintro ⟨b, hb, hc⟩
    induction x with
    | done result =>
      cases hb
      exact hc
    | ask q resume ih =>
      cases hb with
      | ask ha hrest => exact .ask ha (ih _ hrest)

/-- A list of exchanges that succeed one after the other. -/
theorem mapM_ok {δ : Type} {f : δ → Exchange ρ α β} {xs : List δ} {ys : List β}
    (h : (xs.mapM f).Ends answers (.ok ys)) :
    List.Forall₂ (fun x y => (f x).Ends answers (.ok y)) xs ys := by
  induction xs generalizing ys with
  | nil =>
    rw [List.mapM_nil, pure_iff] at h
    cases h
    exact .nil
  | cons x xs ih =>
    rw [List.mapM_cons, bind_ok_iff] at h
    obtain ⟨y, hy, h⟩ := h
    rw [bind_ok_iff] at h
    obtain ⟨ys, hys, h⟩ := h
    rw [pure_iff] at h
    cases h
    exact .cons hy (ih hys)

end Ends

namespace Gives

theorem pure (b : β) : Gives answers (Pure.pure b : Exchange ρ α β) b :=
  fun _ h => Ends.pure_iff.1 h

/-- Behind an exchange that gives one result, what follows goes on with this result. -/
theorem ends_bind {x : Exchange ρ α β} {f : β → Exchange ρ α γ} {b : β} {r : Except Error γ}
    (hx : Gives answers x b) (h : (x >>= f).Ends answers r) : (f b).Ends answers r := by
  obtain ⟨e, he, -⟩ | ⟨b', hb, hr⟩ := Ends.bind_cases h
  · cases hx _ he
  · cases hx _ hb
    exact hr

/-- Exchanges that give one result each give one result together. -/
theorem bind {x : Exchange ρ α β} {f : β → Exchange ρ α γ} {b : β} {c : γ}
    (hx : Gives answers x b) (hf : Gives answers (f b) c) : Gives answers (x >>= f) c :=
  fun r h => hf r (hx.ends_bind h)

/-- A request with one possible answer gives it. -/
theorem request {q : ρ} {a : α} (h : ∀ answer, answers q answer → answer = .ok a) :
    Gives answers (request q) a :=
  fun _ hr => h _ (Ends.request_iff.1 hr)

/-- Exchanges that give one result each give the list of these. -/
theorem mapM {δ : Type} {f : δ → Exchange ρ α β} {xs : List δ} {ys : List β}
    (h : List.Forall₂ (fun x y => Gives answers (f x) y) xs ys) :
    Gives answers (xs.mapM f) ys := by
  induction h with
  | nil =>
    rw [List.mapM_nil]
    exact pure []
  | cons hx _ ih =>
    rw [List.mapM_cons]
    exact hx.bind (ih.bind (pure _))

end Gives

/-! ### Carrying out an exchange -/

variable {serve : ρ → EStateM Error σ α}

/-- The requests made while an exchange is carried out, with the states in which they are
served. -/
def asked (serve : ρ → EStateM Error σ α) : Exchange ρ α β → σ → List (ρ × σ)
  | done _, _ => []
  | ask request resume, s => (request, s) ::
      match serve request s with
      | .ok a s => (resume (.ok a)).asked serve s
      | .error e s => (resume (.error e)).asked serve s

/-- Running what is done serves nothing. -/
theorem run_done (result : Except Error β) (s : σ) :
    outcome ((done result : Exchange ρ α β).run serve s) = result ∧
      final ((done result : Exchange ρ α β).run serve s) = s := by
  cases result <;> exact ⟨rfl, rfl⟩

/-- Running a request serves it and goes on with the answer, also if it is an error. -/
theorem run_ask (q : ρ) (resume : Except Error α → Exchange ρ α β) (s : σ) :
    (ask q resume).run serve s =
      (resume (outcome (serve q s))).run serve (final (serve q s)) := by
  rw [run]
  cases serve q s <;> rfl

/-- A single request is served and nothing else. -/
theorem run_request (q : ρ) (s : σ) : (request q).run serve s = serve q s := by
  rw [request, run]
  cases serve q s <;> rfl

/-- What is asked is the request, at the state where it is served, and what is asked after it. -/
theorem asked_ask (q : ρ) (resume : Except Error α → Exchange ρ α β) (s : σ) :
    (ask q resume).asked serve s =
      (q, s) :: (resume (outcome (serve q s))).asked serve (final (serve q s)) := by
  rw [asked]
  cases serve q s <;> rfl

/-- An exchange ends as its requests are served. -/
theorem ends_run (serve : ρ → EStateM Error σ α) (x : Exchange ρ α β) (s : σ) :
    x.Ends (fun q a => ∃ s', (q, s') ∈ x.asked serve s ∧ outcome (serve q s') = a)
      (outcome (x.run serve s)) := by
  induction x generalizing s with
  | done result =>
    rw [(run_done result s).1]
    exact .done result
  | ask q resume ih =>
    rw [run_ask, asked_ask]
    refine .ask ⟨s, List.mem_cons_self, rfl⟩ ((ih _ _).mono ?_)
    rintro q' a ⟨s', hasked, ha⟩
    exact ⟨s', List.mem_cons_of_mem _ hasked, ha⟩

/-- What holds at the end held at the start, or came to hold while some request was served. -/
theorem appears_run {P : σ → Prop} {x : Exchange ρ α β} {s : σ}
    (h : P (final (x.run serve s))) :
    P s ∨ ∃ q s', (q, s') ∈ x.asked serve s ∧ ¬ P s' ∧ P (final (serve q s')) := by
  induction x generalizing s with
  | done result =>
    rw [(run_done result s).2] at h
    exact .inl h
  | ask q resume ih =>
    rw [run_ask] at h
    rw [asked_ask]
    by_cases hstart : P s
    · exact .inl hstart
    · obtain hserved | ⟨q', s', hasked, hnew⟩ := ih _ h
      · exact .inr ⟨q, s, List.mem_cons_self, hstart, hserved⟩
      · exact .inr ⟨q', s', List.mem_cons_of_mem _ hasked, hnew⟩

/-- What each service does to a part of the state, wherever it is served, the exchange does with all
its requests. -/
theorem final_run_asked {τ : Type} (part : σ → τ) (step : τ → ρ × σ → τ)
    (hstep : ∀ q s, part (final (serve q s)) = step (part s) (q, s)) (x : Exchange ρ α β) (s : σ) :
    part (final (x.run serve s)) = (x.asked serve s).foldl step (part s) := by
  induction x generalizing s with
  | done result => rw [(run_done result s).2, asked, List.foldl_nil]
  | ask q resume ih => rw [run_ask, asked_ask, List.foldl_cons, ih, hstep]

/-! ### Exchanges that end with a step of their own -/

/-- What is made of the result at the end is made of the outcome. -/
theorem outcome_run_bind_done (x : Exchange ρ α β) (g : β → Except Error γ) (s : σ) :
    outcome ((x >>= fun b => done (g b)).run serve s) = outcome (x.run serve s) >>= g := by
  induction x generalizing s with
  | done result =>
    cases result with
    | ok b => exact (run_done (g b) s).1
    | error e => rfl
  | ask q resume ih =>
    show outcome ((ask q fun a => (resume a).bind fun b => done (g b)).run serve s) = _
    rw [run_ask, run_ask]
    exact ih _ _

/-- What is made of the result at the end asks for nothing more. -/
theorem asked_bind_done (x : Exchange ρ α β) (g : β → Except Error γ) (s : σ) :
    (x >>= fun b => done (g b)).asked serve s = x.asked serve s := by
  induction x generalizing s with
  | done result => cases result <;> rfl
  | ask q resume ih =>
    show (ask q fun a => (resume a).bind fun b => done (g b)).asked serve s = _
    rw [asked_ask, asked_ask]
    exact congrArg _ (ih _ _)

section Moves

variable {R : σ → σ → Prop} [IsPreorder σ R]

/-- What every service keeps, the exchange keeps. -/
theorem moves_run (hserve : ∀ q, Moves R (serve q)) (x : Exchange ρ α β) :
    Moves R (x.run serve) := by
  refine ⟨fun s => ?_⟩
  induction x generalizing s with
  | done result =>
    rw [(run_done result s).2]
    exact refl s
  | ask q resume ih =>
    rw [run_ask]
    exact trans_of R ((hserve q).to_final s) (ih _ _)

/-- The state in which a request is served lies between the start and the end. -/
theorem between_of_asked (hserve : ∀ q, Moves R (serve q)) {x : Exchange ρ α β} {s s' : σ} {q : ρ}
    (h : (q, s') ∈ x.asked serve s) :
    R s s' ∧ R (final (serve q s')) (final (x.run serve s)) := by
  induction x generalizing s with
  | done result => cases h
  | ask q₁ resume ih =>
    rw [asked_ask, List.mem_cons] at h
    rw [run_ask]
    obtain he | h := h
    · cases he
      exact ⟨refl _, (moves_run hserve _).to_final _⟩
    · obtain ⟨hbefore, hafter⟩ := ih _ h
      exact ⟨trans_of R ((hserve q₁).to_final s) hbefore, hafter⟩

end Moves

end SelfDescribing.Exchange
