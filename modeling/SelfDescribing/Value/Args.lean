import SelfDescribing.Value.Convert

namespace SelfDescribing

/-!
# Constructor arguments

Arguments are taken by position, and each can be taken once: what is taken leaves null behind,
also when the conversion of what was taken fails.
-/

/-- The arguments of a constructor call, in parameter order. -/
structure Args (ω : Type) where
  values : List (Value ω)

namespace Args

variable {ω α : Type}

/-- How many arguments there are. -/
def size (a : Args ω) : Nat := a.values.length

/-- The argument at a position, left in place. -/
def get? (a : Args ω) (index : Nat) : Option (Value ω) := a.values[index]?

/-- Take the argument at a position. -/
def take (index : Nat) : EStateM Error (Args ω) (Value ω) := do
  let a ← get
  match a.get? index with
  | some v =>
    set (σ := Args ω) ⟨a.values.set index .null⟩
    return v
  | none => throw (.malformed (.argumentOutOfRange index a.size))

/-- Take the argument at a position and read it. -/
def takeWith (read : Value ω → Except Error α) (index : Nat) : EStateM Error (Args ω) α := do
  match read (← take index) with
  | .ok a => return a
  | .error e => throw e

/-- Take an argument as data of a Lean type. -/
def data [Represented ω α] (index : Nat) : EStateM Error (Args ω) α := takeWith ofValue index

/-- Take an argument as bytes. -/
def binary [LiveObject ω] (index : Nat) : EStateM Error (Args ω) (List UInt8) :=
  takeWith Value.toBinary index

/-- Take an argument as a live object. -/
def object [LiveObject ω] (h : HostView ω α) (index : Nat) : EStateM Error (Args ω) α :=
  takeWith (Value.toObject h) index

/-- Run a constructor's body on its arguments. -/
def call (body : EStateM Error (Args ω) α) (values : List (Value ω)) : Except Error α :=
  match body.run ⟨values⟩ with
  | .ok a _ => .ok a
  | .error e _ => .error e

end Args

end SelfDescribing
