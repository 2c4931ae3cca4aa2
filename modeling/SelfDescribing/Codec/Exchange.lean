import SelfDescribing.Error

namespace SelfDescribing

/-!
# Exchanges

A codec handles the objects inside an object by asking the context to write or read them.  An
`Exchange ρ α β` is such a computation: it ends with a result in `β` or an error, or it makes a
request in `ρ` and goes on with the answer in `α`, or with the error that came instead.  That is
all a codec can do with a context, so no codec, however it is written, can touch the caches or
the nesting depth.

* `Exchange.request` — make a request and end with its answer.
* `Exchange.run` — carry out an exchange, given how requests are served.
-/

/-- A computation that makes requests and ends with a result or an error. -/
inductive Exchange (ρ α β : Type) where
  | done (result : Except Error β)
  | ask (request : ρ) (resume : Except Error α → Exchange ρ α β)

namespace Exchange

variable {ρ α β γ : Type}

/-- Go on with the result, unless there was an error. -/
def bind (x : Exchange ρ α β) (f : β → Exchange ρ α γ) : Exchange ρ α γ :=
  match x with
  | done (.ok b) => f b
  | done (.error e) => done (.error e)
  | ask request resume => ask request fun answer => (resume answer).bind f

/-- Handle an error. -/
def handle (x : Exchange ρ α β) (f : Error → Exchange ρ α β) : Exchange ρ α β :=
  match x with
  | done (.ok b) => done (.ok b)
  | done (.error e) => f e
  | ask request resume => ask request fun answer => (resume answer).handle f

instance : Monad (Exchange ρ α) where
  pure b := done (.ok b)
  bind := bind

instance : MonadExcept Error (Exchange ρ α) where
  throw e := done (.error e)
  tryCatch := handle

instance : MonadLift (Except Error) (Exchange ρ α) where
  monadLift := done

/-- Handing on the result of an exchange is the exchange. -/
theorem bind_pure (x : Exchange ρ α β) : x.bind (fun b => done (.ok b)) = x := by
  induction x with
  | done result => cases result <;> rfl
  | ask request resume ih => simp only [bind, ih]

/-- Three exchanges in sequence can be grouped either way. -/
theorem bind_assoc {δ : Type} (x : Exchange ρ α β) (f : β → Exchange ρ α γ)
    (g : γ → Exchange ρ α δ) : (x.bind f).bind g = x.bind fun b => (f b).bind g := by
  induction x with
  | done result => cases result <;> rfl
  | ask request resume ih => simp only [bind, ih]

instance : LawfulMonad (Exchange ρ α) :=
  LawfulMonad.mk' _ bind_pure (fun _ _ => rfl) bind_assoc

/-- Make a request and end with its answer. -/
def request (q : ρ) : Exchange ρ α α := ask q done

variable {σ : Type}

/-- Carry out an exchange on a state, requests being served by `serve`. -/
def run (serve : ρ → EStateM Error σ α) : Exchange ρ α β → EStateM Error σ β
  | done (.ok b), s => .ok b s
  | done (.error e), s => .error e s
  | ask request resume, s =>
    match serve request s with
    | .ok a s => (resume (.ok a)).run serve s
    | .error e s => (resume (.error e)).run serve s

end Exchange

end SelfDescribing
