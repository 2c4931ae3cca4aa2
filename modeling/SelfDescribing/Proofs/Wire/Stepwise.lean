import SelfDescribing.Proofs.Wire.Reading

namespace SelfDescribing.Wire.Cursor

open Steps

variable {ω : Type}

/-!
# Reading step by step

A reader of values is put together from a few small steps.  What the small steps do, and a sequence
does if its parts do, reading a value does.  It is said of two readers, so that it may compare two
runs; a property of one reader leaves the second one out.

* `here`, `checkSize`, `nested` — the small steps beside `take`, with `readElements_succ`,
  `readCompound_eq`, `readBody_described` and `readWith_eq`, how reading is put together from them.
* `Stepwise` — what the small steps do and sequences keep.
* `Nests` — what is done on a level if something is done on the level inside it; `Nests.readBody`
  and `Nests.readWith` say that reading a value does it, if reading the values inside does, and
  `Nests.readWithin` that reading does it to the last level.

The same induction over the reader would otherwise be done for termination, limits, truncation,
shortness and for cursors in use.  Each of these gives a relation, shows it for the small steps, and
says what it becomes a level deeper.
-/

/-! ### Small steps -/

/-- How many bytes are behind. -/
def here : Reader Nat := fun c => .ok c.position c

/-- Check that a size covers a count of some width, and that there are as many bytes. -/
def checkSize (size width : Nat) : Reader Unit := fun c =>
  if size < width || !has size c.rest then tooShort (max size width) c else .ok () c

/-- Do something a level deeper. -/
def nested {α : Type} (x : Reader α) : Reader α := do
  enter
  let a ← x
  leave
  return a

/-- Read what stands behind the byte of a code. -/
def readCoded (read : Reader (Value ω)) (start : Nat) (b : UInt8) : Reader (Value ω) :=
  match Code.ofByte? b with
  | some code => readBody read start code
  | none => throw (.invalidFormatCode b start)

variable {read read' : Reader (Value ω)}

/-- The loop over the elements, one step at a time: the next element must begin in front of the end.
-/
theorem readElements_succ (start finish count left : Nat) :
    readElements read start finish count (left + 1) = (do
      let p ← here
      if finish ≤ p then throw (.malformed (.endsEarly start count))
      else do
        let v ← read
        return v :: (← readElements read start finish count left)) := rfl

/-- A list or map in small steps.  The size is checked against the bytes that there are before
anything is read, and against the bytes that were read afterwards. -/
theorem readCompound_eq (w : Width) (start : Nat) :
    readCompound read w start = (do
      let size ← readNumber w.size
      checkSize size w.size
      let p ← here
      let count ← readNumber w.size
      let items ← nested (readElements read start (p + size) count count)
      let q ← here
      if q ≠ p + size then throw (.malformed (.sizeMismatch start size q))
      else return items) := by
  simp only [readCompound, nested, bind_assoc, pure_bind]
  -- Behind the size the cursor was looked at, which `checkSize` does in one step.
  refine congrArg _ (funext fun size => funext fun c => ?_)
  rw [get_bind_apply]
  show _ = EStateM.bind (checkSize size w.size) _ c
  unfold EStateM.bind checkSize
  split <;> rfl

/-- A described value is its descriptor and its body, both a level deeper. -/
theorem readBody_described (start : Nat) :
    readBody read start .described = (do
      let (descriptor, body) ← nested (do return (← read, ← read))
      return .described descriptor body) := by
  simp only [readBody, nested, bind_assoc, pure_bind]

/-- A value in small steps. -/
theorem readWith_eq :
    readWith read = (do
      let start ← here
      let b ← readByte
      readCoded read start b) := rfl

/-! ### What sequences keep -/

/-- A relation between readers in which each small step is to itself, and sequences are if their
parts are. -/
structure Stepwise (R : ∀ {α : Type}, Reader α → Reader α → Prop) : Prop where
  pure : ∀ {α : Type} (a : α), R (Pure.pure a) (Pure.pure a)
  bind : ∀ {α β : Type} {x y : Reader α} {f g : α → Reader β}, R x y → (∀ a, R (f a) (g a)) →
    R (x >>= f) (y >>= g)
  malformed : ∀ {α : Type} (fault : Malformed),
    R (throw (.malformed fault) : Reader α) (throw (.malformed fault))
  invalidFormatCode : ∀ {α : Type} (code : UInt8) (start : Nat),
    R (throw (.invalidFormatCode code start) : Reader α) (throw (.invalidFormatCode code start))
  here : R here here
  take : ∀ n, R (take n) (take n)
  checkSize : ∀ size width, R (checkSize size width) (checkSize size width)

namespace Stepwise

variable {R : ∀ {α : Type}, Reader α → Reader α → Prop}

/-- A number is bytes taken, and a result that depends on them only. -/
theorem readNumber (h : Stepwise R) (width : Nat) :
    R (Cursor.readNumber width) (Cursor.readNumber width) :=
  h.bind (h.take width) fun _ => h.pure _

/-- A text is bytes taken, which may turn out not to be one, and a result that depends on them only.
-/
theorem readText (h : Stepwise R) (length start : Nat) :
    R (Cursor.readText length start) (Cursor.readText length start) := by
  refine h.bind (h.take length) fun bytes => ?_
  split
  · exact h.pure _
  · exact h.malformed _

/-- By induction on how many elements are left: a relation that holds of two readers holds of the
loops over them. -/
theorem readElements (h : Stepwise R) (hread : R read read') (start finish count left : Nat) :
    R (Cursor.readElements read start finish count left)
      (Cursor.readElements read' start finish count left) := by
  induction left with
  | zero => exact h.pure _
  | succ left ih =>
    rw [readElements_succ, readElements_succ]
    refine h.bind h.here fun p => ?_
    split
    · exact h.malformed _
    · exact h.bind hread fun v => h.bind ih fun rest => h.pure _

end Stepwise

/-- Two such relations, for a level and for the level inside it. -/
structure Nests (Outer Inner : ∀ {α : Type}, Reader α → Reader α → Prop) : Prop where
  outer : Stepwise Outer
  inner : Stepwise Inner
  nested : ∀ {α : Type} {x y : Reader α}, Inner x y → Outer (nested x) (nested y)

namespace Nests

variable {Outer Inner : ∀ {α : Type}, Reader α → Reader α → Prop}

/-- Lists and maps read their elements a level deeper, so the relation of the inner level gives the
one of the outer level. -/
theorem readCompound (h : Nests Outer Inner) (hread : Inner read read') (w : Width) (start : Nat) :
    Outer (Cursor.readCompound read w start) (Cursor.readCompound read' w start) := by
  rw [readCompound_eq, readCompound_eq]
  refine h.outer.bind (h.outer.readNumber _) fun size =>
    h.outer.bind (h.outer.checkSize size _) fun _ => h.outer.bind h.outer.here fun p =>
      h.outer.bind (h.outer.readNumber _) fun count =>
        h.outer.bind (h.nested (h.inner.readElements hread _ _ _ _)) fun items =>
          h.outer.bind h.outer.here fun q => ?_
  split
  · exact h.outer.malformed _
  · exact h.outer.pure _

/-- What the readers of the values inside do, the readers of what stands behind a code do. -/
theorem readBody (h : Nests Outer Inner) (hread : Inner read read') (start : Nat) (code : Code) :
    Outer (Cursor.readBody read start code) (Cursor.readBody read' start code) := by
  cases code with
  -- Codes with values inside use the relation of the inner level.
  | described =>
    rw [readBody_described, readBody_described]
    have hboth : Inner (do return (← read, ← read)) (do return (← read', ← read')) :=
      h.inner.bind hread fun _ => h.inner.bind hread fun _ => h.inner.pure _
    exact h.outer.bind (h.nested hboth) fun _ => h.outer.pure _
  -- Codes without values inside are sequences of small steps on both sides.
  | fixed code =>
    refine h.outer.bind (h.outer.readNumber _) fun n => ?_
    split
    · exact h.outer.pure _
    · exact h.outer.malformed _
  | binary w =>
    exact h.outer.bind (h.outer.readNumber _) fun _ => h.outer.bind (h.outer.take _) fun _ =>
      h.outer.pure _
  | string w =>
    exact h.outer.bind (h.outer.readNumber _) fun _ => h.outer.bind (h.outer.readText _ _) fun _ =>
      h.outer.pure _
  | symbol w =>
    exact h.outer.bind (h.outer.readNumber _) fun _ => h.outer.bind (h.outer.readText _ _) fun _ =>
      h.outer.pure _
  | list w => exact h.outer.bind (h.readCompound hread w start) fun _ => h.outer.pure _
  | map w =>
    refine h.outer.bind (h.readCompound hread w start) fun items => ?_
    split
    · exact h.outer.bind (h.outer.malformed _) fun _ => h.outer.pure _
    · exact h.outer.pure _

/-- Only described values, lists and maps read values inside.  For the other codes the steps are the
same on both sides. -/
theorem readCoded (h : Nests Outer Inner) (hread : Inner read read') (start : Nat) (b : UInt8) :
    Outer (Cursor.readCoded read start b) (Cursor.readCoded read' start b) := by
  unfold Cursor.readCoded
  split
  · exact h.readBody hread start _
  · exact h.outer.invalidFormatCode b start

/-- What the readers of the values inside do, the readers of a value do. -/
theorem readWith (h : Nests Outer Inner) (hread : Inner read read') :
    Outer (Cursor.readWith read) (Cursor.readWith read') := by
  have hbyte : Outer readByte readByte :=
    h.outer.bind (h.outer.readNumber 1) fun _ => h.outer.pure _
  rw [readWith_eq, readWith_eq]
  exact h.outer.bind h.outer.here fun start => h.outer.bind hbyte fun b =>
    h.readCoded hread start b

/-- What the levels inside do as the level around them does, reading does with any room. -/
theorem readWithin {R : ∀ {α : Type}, Reader α → Reader α → Prop} (h : Nests R R)
    (hfull : R (fun c => .error (.depthExceeded c.limit) c : Reader (Value ω))
      fun c => .error (.depthExceeded c.limit) c) (room : Nat) :
    R (Cursor.readWithin (ω := ω) room) (Cursor.readWithin room) := by
  induction room with
  | zero => exact h.readWith hfull
  | succ room ih => exact h.readWith ih

end Nests

end SelfDescribing.Wire.Cursor
