import SelfDescribing.Proofs.Codec.Matching

namespace SelfDescribing.Exchange

open Steps

/-!
# What exchanges ask for

Where a function answers its requests, an exchange makes a fixed list of them.

* `asks` — the requests made then; `eval_congr` says that no other answers matter.
* `AsksOnly` — exchanges that make requests of a kind alone, whatever the answers.
* `final_run` — what carrying out an exchange makes of a part of the state, request by request.

The functional reading of an exchange, `eval`, forgets the state in which requests are served.  The
lemmas here recover from it what a run needs to know: which requests are made and in which order.
They are by induction on the exchange, where the hypothesis is about every answer to the first
request.
-/

variable {ρ α β γ σ τ : Type} {answer answer' : ρ → Except Error α}

/-- The requests that an exchange makes, where a function answers them. -/
def asks (answer : ρ → Except Error α) : Exchange ρ α β → List ρ
  | done _ => []
  | ask q resume => q :: (resume (answer q)).asks answer

/-- Only the answers to the requests that are made matter. -/
theorem eval_congr (x : Exchange ρ α β) (h : ∀ q ∈ x.asks answer, answer' q = answer q) :
    x.eval answer' = x.eval answer ∧ x.asks answer' = x.asks answer := by
  induction x with
  | done result => exact ⟨rfl, rfl⟩
  | ask q resume ih =>
    rw [asks, List.forall_mem_cons] at h
    obtain ⟨hfirst, hrest⟩ := h
    obtain ⟨heval, hasks⟩ := ih _ hrest
    rw [eval, eval, asks, asks, hfirst]
    exact ⟨heval, congrArg (q :: ·) hasks⟩

/-- Two exchanges in turn give what the second one gives of the first one's result. -/
theorem eval_bind (x : Exchange ρ α β) (f : β → Exchange ρ α γ) :
    (x >>= f).eval answer = x.eval answer >>= fun b => (f b).eval answer := by
  induction x with
  | done result => cases result <;> rfl
  | ask q resume ih => exact ih _

/-- Behind an exchange that succeeds, what the next one asks comes after what it asked. -/
theorem asks_bind (x : Exchange ρ α β) {f : β → Exchange ρ α γ} {b : β}
    (hb : x.eval answer = .ok b) :
    (x >>= f).asks answer = x.asks answer ++ (f b).asks answer := by
  induction x with
  | done result =>
    cases hb
    rfl
  | ask q resume ih => exact congrArg (q :: ·) (ih _ hb)

/-- A list of exchanges ends with what they all end with, one after the other. -/
theorem eval_mapM_eq_ok {δ : Type} {f : δ → Exchange ρ α β} {xs : List δ} {ys : List β} :
    (xs.mapM f).eval answer = .ok ys ↔
      List.Forall₂ (fun x y => (f x).eval answer = .ok y) xs ys := by
  induction xs generalizing ys with
  | nil =>
    rw [List.mapM_nil]
    constructor
    · rintro ⟨⟩
      exact .nil
    · rintro ⟨⟩
      rfl
  | cons x xs ih =>
    -- The head answers first, and then the rest with the same answers.
    rw [List.mapM_cons, eval_bind, except_bind_eq_ok]
    constructor
    · rintro ⟨y, hy, h⟩
      rw [eval_bind, except_bind_eq_ok] at h
      obtain ⟨ys, hys, ⟨⟩⟩ := h
      exact .cons hy (ih.1 hys)
    · rintro (_ | ⟨hy, hys⟩)
      refine ⟨_, hy, ?_⟩
      rw [eval_bind, ih.2 hys]
      rfl

/-- A list of exchanges that end well asks for what they all ask for. -/
theorem mem_asks_mapM {δ : Type} {f : δ → Exchange ρ α β} {xs : List δ} {ys : List β}
    (h : (xs.mapM f).eval answer = .ok ys) {q : ρ} :
    q ∈ (xs.mapM f).asks answer ↔ ∃ x ∈ xs, q ∈ (f x).asks answer := by
  induction xs generalizing ys with
  | nil =>
    rw [List.mapM_nil]
    show q ∈ [] ↔ _
    simp only [List.not_mem_nil, false_and, exists_false]
  | cons x xs ih =>
    rw [eval_mapM_eq_ok] at h
    cases h with
    | cons hy hys =>
      have hrest := eval_mapM_eq_ok.2 hys
      rw [List.mapM_cons, asks_bind _ hy, asks_bind _ hrest, List.mem_append, List.mem_append,
        ih hrest]
      show _ ∨ _ ∨ q ∈ [] ↔ _
      simp only [List.not_mem_nil, or_false, List.mem_cons, exists_eq_or_imp]

/-! ### Requests of a kind -/

/-- An exchange that makes no other requests than those of a kind, whatever the answers. -/
inductive AsksOnly (P : ρ → Prop) : Exchange ρ α β → Prop
  | done (result : Except Error β) : AsksOnly P (.done result)
  | ask {q resume} : P q → (∀ a, AsksOnly P (resume a)) → AsksOnly P (.ask q resume)

namespace AsksOnly

variable {P : ρ → Prop} {x : Exchange ρ α β}

/-- Whatever the answers are, an exchange asks for nothing else than it may. -/
theorem of_mem_asks (h : x.AsksOnly P) {q : ρ} (hq : q ∈ x.asks answer) : P q := by
  induction h with
  | done result => cases hq
  | ask hfirst _ ih =>
    obtain rfl | hq := List.mem_cons.1 hq
    · exact hfirst
    · exact ih _ hq

/-- An exchange that may ask for little may ask for more. -/
theorem imp {Q : ρ → Prop} (h : x.AsksOnly P) (hpq : ∀ q, P q → Q q) : x.AsksOnly Q := by
  induction h with
  | done result => exact .done result
  | ask hq _ ih => exact .ask (hpq _ hq) ih

theorem request {q : ρ} (h : P q) : AsksOnly P (Exchange.request q : Exchange ρ α α) :=
  .ask h fun a => .done a

/-- Two exchanges in turn ask only for what each of them may. -/
theorem bind (hx : x.AsksOnly P) {f : β → Exchange ρ α γ} (hf : ∀ b, (f b).AsksOnly P) :
    AsksOnly P (x >>= f) := by
  induction hx with
  | done result =>
    cases result with
    | ok b => exact hf b
    | error e => exact .done (.error e)
  | ask hq _ ih => exact .ask hq ih

end AsksOnly

/-! ### Carrying out an exchange -/

section Run

variable {serve : ρ → EStateM Error σ α} {I : σ → Prop}

/-- What every service does to a part of the state, the exchange does with all its requests. -/
theorem final_run (part : σ → τ) (step : τ → ρ → τ)
    (hserve : ∀ q, Simulates I Eq (serve q) (answer q))
    (hstep : ∀ q {s}, I s → part (final (serve q s)) = step (part s) q)
    (x : Exchange ρ α β) {s : σ} (hs : I s) :
    part (final (x.run serve s)) = (x.asks answer).foldl step (part s) := by
  induction x generalizing s with
  | done result => rw [(run_done result s).2, asks, List.foldl_nil]
  | ask q resume ih =>
    have hanswer : outcome (serve q s) = answer q := eq_of_like ((hserve q).like hs)
    rw [run_ask, hanswer, asks, List.foldl_cons, ih _ ((hserve q).keeps hs), hstep q hs]

/-- An exchange that is carried out twice ends alike, if all that it asks for is answered alike. -/
theorem run_together {J : σ → τ → Prop} {P : ρ → Prop} {serve' : ρ → EStateM Error τ α}
    (hserve : ∀ q, P q → Together J Eq (serve q) (serve' q)) {x : Exchange ρ α β}
    (hx : x.AsksOnly P) : Together J Eq (x.run serve) (x.run serve') := by
  induction hx with
  | done result =>
    cases result with
    | ok b => exact .pure rfl
    | error e => exact .throw e
  | @ask q resume hq _ ih =>
    have hanswer : ∀ {s t}, J s t → outcome (serve q s) = outcome (serve' q t) :=
      fun hst => eq_of_like ((hserve q hq).like hst)
    constructor
    · intro s t hst
      rw [run_ask, run_ask, hanswer hst]
      exact (ih _).like ((hserve q hq).keeps hst)
    · intro s t hst
      rw [run_ask, run_ask, hanswer hst]
      exact (ih _).keeps ((hserve q hq).keeps hst)

end Run

end SelfDescribing.Exchange
