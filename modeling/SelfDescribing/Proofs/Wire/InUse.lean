import Mathlib.Logic.Function.Iterate
import SelfDescribing.Proofs.Wire.Parsing

namespace SelfDescribing.Wire.Cursor

open Steps

/-!
# Cursors in use

What holds of a cursor after any calls, also after calls that failed and left it where they were.

* `Advances` — a step goes on over bytes and never out of a level that it has not entered.
* `readChecked` — reading with the two subtractions checked that would go below zero if a level were
  left that is not open, or if a list or map ended in front of its first element.
* `Alike` — readers that do not differ where at most some levels can still be entered.
* `iterate_readWith` — reading comes to an end: with as many levels as can be entered, it does not
  matter what would read the values inside the innermost one.
* `within_used` — the invariant of a cursor in use, and what each call does to it.

Subtraction of natural numbers never fails, and so the model alone would not show that a level is
left that was never entered.  `readChecked` has the checks in it, and equals `read`: what goes on
never leaves a level that was open before.  The termination of reading is said by iterating one
reading step, as many times as levels can be entered.
-/

variable {ω α β : Type}

/-! ### Onwards -/

/-- From `c` one gets to `c'` over some bytes, and out of no level that is open at `c`. -/
structure Advances (c c' : Cursor) : Prop where
  exists_bytes : ∃ bytes, c.rest = bytes ++ c'.rest ∧ c'.position = c.position + bytes.length
  depth_le : c.depth ≤ c'.depth
  limit_eq : c'.limit = c.limit

namespace Advances

variable {c c₁ c₂ : Cursor}

/-- Staying where one is goes on over no bytes. -/
theorem refl (c : Cursor) : c.Advances c := ⟨⟨[], rfl, rfl⟩, Nat.le_refl _, rfl⟩

/-- Going on twice is going on. -/
theorem trans (h₁ : c.Advances c₁) (h₂ : c₁.Advances c₂) : c.Advances c₂ := by
  obtain ⟨front, hfront, hposition₁⟩ := h₁.exists_bytes
  obtain ⟨back, hback, hposition₂⟩ := h₂.exists_bytes
  refine ⟨⟨front ++ back, ?_, ?_⟩, h₁.depth_le.trans h₂.depth_le, h₂.limit_eq.trans h₁.limit_eq⟩
  · rw [hfront, hback, List.append_assoc]
  · rw [hposition₂, hposition₁, List.length_append, Nat.add_assoc]

instance : IsPreorder Cursor Advances where
  refl := refl
  trans _ _ _ := trans

/-- Passing over bytes goes on over them. -/
theorem of_passes {bytes : List UInt8} (h : c.Passes bytes c₁) : c.Advances c₁ :=
  ⟨⟨bytes, h.rest, h.position⟩, h.depth.ge, h.limit⟩

/-- A cursor that goes on does not go back. -/
theorem position_le (h : c.Advances c₁) : c.position ≤ c₁.position := by
  obtain ⟨bytes, -, hposition⟩ := h.exists_bytes
  omega

end Advances

/-- At the limit nothing is done a level deeper, and the cursor stays. -/
theorem nested_of_full {c : Cursor} (h : c.limit ≤ c.depth) (x : Reader α) :
    nested x c = .error (.depthExceeded c.limit) c := by
  rw [nested, bind_error (enter_of_le h)]

/-- A level that can be entered is left again if what is done there succeeds. -/
theorem nested_of_free {c : Cursor} (h : c.depth < c.limit) (x : Reader α) :
    nested x c = match x { c with depth := c.depth + 1 } with
      | .ok a c₁ => .ok a { c₁ with depth := c₁.depth - 1 }
      | .error e c₁ => .error e c₁ := by
  rw [nested, bind_ok (enter_of_lt h)]
  cases hx : x { c with depth := c.depth + 1 } with
  | ok a c₁ =>
    rw [bind_ok hx, bind_ok (leave_apply c₁)]
    rfl
  | error e c₁ => rw [bind_error hx]

/-- A step that goes on, whether it succeeds or fails. -/
abbrev Onward {α : Type} (x : Reader α) : Prop := Moves Advances x

namespace Onward

/-- Bytes taken are gone over.  Where there are too few, the cursor stays. -/
theorem take (n : Nat) : Onward (Cursor.take n) := by
  refine ⟨fun c => ?_⟩
  cases h : Cursor.take n c with
  | ok bytes c' => exact .of_passes (take_eq_ok_iff.1 h).2
  | error e c' =>
    unfold Cursor.take at h
    split at h <;> cases h
    exact .refl c

/-- A check moves nothing, whether it succeeds or fails. -/
theorem checkSize (size width : Nat) : Onward (Cursor.checkSize size width) := by
  refine ⟨fun c => ?_⟩
  unfold Cursor.checkSize
  split <;> exact .refl c

/-- What goes on a level deeper ends in a level that is open, so that leaving it goes on as well. -/
theorem nested {x : Reader α} (hx : Onward x) : Onward (Cursor.nested x) := by
  refine ⟨fun c => ?_⟩
  by_cases hfree : c.depth < c.limit
  · have hinside := hx.to_final { c with depth := c.depth + 1 }
    rw [nested_of_free hfree]
    cases h : x { c with depth := c.depth + 1 } with
    | ok a c₁ =>
      rw [h] at hinside
      exact ⟨hinside.exists_bytes, Nat.le_sub_of_add_le hinside.depth_le, hinside.limit_eq⟩
    | error e c₁ =>
      rw [h] at hinside
      exact ⟨hinside.exists_bytes, Nat.le_of_succ_le hinside.depth_le, hinside.limit_eq⟩
  · rw [nested_of_full (Nat.not_lt.1 hfree)]
    exact .refl c

/-- Small steps go on, and so do sequences of them. -/
theorem stepwise : Stepwise fun x _ => Onward x where
  pure a := .pure a
  bind hx hf := hx.bind hf
  malformed _ := .throw _
  invalidFormatCode _ _ := .throw _
  here := ⟨.refl⟩
  take := take
  checkSize := checkSize

/-- What goes on inside a level goes on outside it. -/
theorem nests : Nests (fun x _ => Onward x) fun x _ => Onward x where
  outer := stepwise
  inner := stepwise
  nested := nested

/-- Reading a value goes on, with any room. -/
theorem readWithin (room : Nat) : Onward (Cursor.readWithin (ω := ω) room) :=
  @Nests.readWithin ω _ nests ⟨.refl⟩ room

/-- Reading with the room that there is goes on. -/
theorem read : Onward (Cursor.read : Reader (Value ω)) :=
  ⟨fun c => (readWithin (c.limit - c.depth)).to_final c⟩

end Onward

/-! ### Subtractions checked -/

/-- Step out of a level, which fails where none is open. -/
def leaveChecked : Reader Unit := fun c =>
  if c.depth = 0 then .error (.other "no level is open") c else leave c

/-- Do something a level deeper. -/
def nestedChecked (x : Reader α) : Reader α := do
  enter
  let a ← x
  leaveChecked
  return a

/-- Check that the end of a list or map is not behind the cursor. -/
def checkEnd (finish : Nat) : Reader Unit := fun c =>
  if finish < c.position then .error (.other "the end is behind") c else .ok () c

section Checked

variable (read : Reader (Value ω))

/-- The elements of a list or map.  Room is made for no more of them than there are bytes up to the
end, which should not be behind the cursor. -/
def readCompoundChecked (w : Width) (start : Nat) : Reader (List (Value ω)) := do
  let size ← readNumber w.size
  checkSize size w.size
  let p ← here
  let count ← readNumber w.size
  let items ← nestedChecked do
    checkEnd (p + size)
    readElements read start (p + size) count count
  let q ← here
  if q ≠ p + size then throw (.malformed (.sizeMismatch start size q))
  else return items

/-- The value with a given code. -/
def readBodyChecked (start : Nat) : Code → Reader (Value ω)
  | .described => do
    let (descriptor, body) ← nestedChecked (do return (← read, ← read))
    return .described descriptor body
  | .list w => do return .list (← readCompoundChecked read w start)
  | .map w => do
    let items ← readCompoundChecked read w start
    if items.length % 2 ≠ 0 then throw (.malformed (.oddMap start items.length))
    return .map (pairs items)
  | code => readBody read start code

/-- Read a value, given a reader for the values inside it. -/
def readWithChecked : Reader (Value ω) := do
  let start ← here
  let b ← readByte
  match Code.ofByte? b with
  | some code => readBodyChecked read start code
  | none => throw (.invalidFormatCode b start)

end Checked

/-- Read a value with at most `room` more levels inside. -/
def readWithinChecked : (room : Nat) → Reader (Value ω)
  | 0 => readWithChecked fun c => .error (.depthExceeded c.limit) c
  | room + 1 => readWithChecked (readWithinChecked room)

/-- Read one value with everything in it, with the subtractions checked. -/
def readChecked : Reader (Value ω) := fun c => readWithinChecked (c.limit - c.depth) c

/-- Two sequences with the same first step are the same where their second steps are, at what the
first step gives and where it leaves the cursor. -/
theorem bind_congr_at {x : Reader α} {f g : α → Reader β} {c : Cursor}
    (h : ∀ a c₁, x c = .ok a c₁ → f a c₁ = g a c₁) : (x >>= f) c = (x >>= g) c := by
  cases hx : x c with
  | ok a c₁ => rw [bind_ok hx, bind_ok hx, h a c₁ hx]
  | error e c₁ => rw [bind_error hx, bind_error hx]

/-- Two sequences with the same second step are the same where their first steps are. -/
theorem bind_apply_congr {x y : Reader α} {c : Cursor} (h : x c = y c) (f : α → Reader β) :
    (x >>= f) c = (y >>= f) c := by
  cases hx : x c with
  | ok a c₁ => rw [bind_ok hx, bind_ok (h.symm.trans hx)]
  | error e c₁ => rw [bind_error hx, bind_error (h.symm.trans hx)]

/-- The level that is left behind something that goes on was entered in front of it. -/
theorem nestedChecked_apply {x y : Reader α} {c : Cursor} (hy : Onward y)
    (hxy : x { c with depth := c.depth + 1 } = y { c with depth := c.depth + 1 }) :
    nestedChecked x c = nested y c := by
  refine bind_congr_at fun _ c₁ henter => ?_
  obtain ⟨-, rfl⟩ := enter_eq_ok_iff.1 henter
  have hinside := hy.to_final { c with depth := c.depth + 1 }
  cases h : y { c with depth := c.depth + 1 } with
  | ok a c₂ =>
    rw [h] at hxy hinside
    -- The inside goes on from a level that is open, and leaves it open.
    have hopen : c₂.depth ≠ 0 := Nat.ne_of_gt (Nat.lt_of_lt_of_le c.depth.succ_pos hinside.depth_le)
    have hleave : leaveChecked c₂ = .ok () { c₂ with depth := c₂.depth - 1 } := if_neg hopen
    rw [bind_ok hxy, bind_ok h, bind_ok hleave, bind_ok (leave_apply c₂)]
  | error e c₂ =>
    rw [h] at hxy
    rw [bind_error hxy, bind_error h]

/-- A size that passes the check covers the count, and the cursor has not moved. -/
theorem checkSize_eq_ok {size width : Nat} {c c' : Cursor} {u : Unit}
    (h : checkSize size width c = .ok u c') : width ≤ size ∧ c' = c := by
  unfold checkSize at h
  split at h
  · cases h
  · rename_i hsize
    cases h
    simp only [Bool.or_eq_true, decide_eq_true_eq, not_or, Nat.not_lt] at hsize
    exact ⟨hsize.1, rfl⟩

variable {read : Reader (Value ω)}

/-- The end of a list or map is never behind the cursor: the size covers the count, and the count is
all that was read since.  The level that is left was entered. -/
theorem readCompoundChecked_eq (hread : Onward read) (w : Width) (start : Nat) :
    readCompoundChecked read w start = readCompound read w start := by
  rw [readCompound_eq]
  funext c
  refine bind_congr_at fun size c₁ _ => bind_congr_at fun _ c₂ hcheck =>
    bind_congr_at fun p c₃ hhere => bind_congr_at fun count c₄ hcount => ?_
  obtain ⟨hsize, rfl⟩ := checkSize_eq_ok hcheck
  cases hhere
  -- The size covers its count, so that the count does not go past the end.
  have hbefore : ¬ c₂.position + size < c₄.position := by
    rw [(readNumber_eq_ok_iff.1 hcount).2.position, length_bigEndian]
    omega
  have hend : checkEnd (c₂.position + size) { c₄ with depth := c₄.depth + 1 } =
      .ok () { c₄ with depth := c₄.depth + 1 } := if_neg hbefore
  have hitems : Onward (readElements read start (c₂.position + size) count count) :=
    @Stepwise.readElements ω read read _ Onward.stepwise hread _ _ _ _
  exact bind_apply_congr (nestedChecked_apply hitems (bind_ok hend _)) _

/-- A described value leaves the level that it entered, and the other codes have nothing to check.
-/
theorem readBodyChecked_eq (hread : Onward read) (start : Nat) (code : Code) :
    readBodyChecked read start code = readBody read start code := by
  cases code with
  | described =>
    have hboth : Onward (do return (← read, ← read)) :=
      hread.bind fun _ => hread.bind fun _ => .pure _
    rw [readBody_described, readBodyChecked]
    exact funext fun c => bind_apply_congr (nestedChecked_apply hboth rfl) _
  | list w => rw [readBodyChecked, readCompoundChecked_eq hread, readBody]
  | map w => rw [readBodyChecked, readCompoundChecked_eq hread, readBody]
  | _ => rfl

/-- The two readers of one value agree where what reads the values inside goes on. -/
theorem readWithChecked_eq (hread : Onward read) : readWithChecked read = readWith read := by
  rw [readWith_eq, readWithChecked]
  refine congrArg _ (funext fun start => congrArg _ (funext fun b => ?_))
  unfold readCoded
  cases Code.ofByte? b with
  | some code => exact readBodyChecked_eq hread start code
  | none => rfl

/-- By induction on the room: neither of the two checks ever fails. -/
theorem readWithinChecked_eq (room : Nat) :
    readWithinChecked (ω := ω) room = readWithin room := by
  induction room with
  | zero => exact readWithChecked_eq ⟨.refl⟩
  | succ room ih =>
    rw [readWithinChecked, ih, readWithChecked_eq (Onward.readWithin room), readWithin]

/-- No level is left that is not open, and no list or map ends in front of its first element. -/
theorem readChecked_eq : readChecked (ω := ω) = Cursor.read := by
  funext c
  rw [readChecked, readWithinChecked_eq, Cursor.read]

/-! ### Reading ends -/

/-- Two readers that do not differ where at most `room` more levels can be entered, and then leave
no more to be entered. -/
def Alike (room : Nat) {α : Type} (x y : Reader α) : Prop :=
  ∀ c, c.limit ≤ c.depth + room →
    x c = y c ∧ (final (x c)).limit ≤ (final (x c)).depth + room

namespace Alike

variable {room : Nat}

/-- What goes on leaves no more levels to be entered. -/
theorem of_onward {x y : Reader α} (hx : Onward x)
    (hxy : ∀ c, c.limit ≤ c.depth + room → x c = y c) : Alike room x y := by
  intro c h
  have hfinal := hx.to_final c
  refine ⟨hxy c h, ?_⟩
  rw [hfinal.limit_eq]
  exact h.trans (Nat.add_le_add_right hfinal.depth_le room)

/-- Readers that are alike remain so in sequence, because the first one leaves no more levels to be
entered. -/
theorem bind {x y : Reader α} {f g : α → Reader β} (hxy : Alike room x y)
    (hfg : ∀ a, Alike room (f a) (g a)) : Alike room (x >>= f) (y >>= g) := by
  intro c h
  obtain ⟨hsame, hroom⟩ := hxy c h
  cases hx : x c with
  | ok a c₁ =>
    rw [hx] at hsame hroom
    rw [bind_ok hx, bind_ok hsame.symm]
    exact hfg a c₁ hroom
  | error e c₁ =>
    rw [hx] at hsame hroom
    rw [bind_error hx, bind_error hsame.symm]
    exact ⟨rfl, hroom⟩

/-- A small step is alike to itself. -/
theorem stepwise (room : Nat) : Stepwise (Alike room) where
  pure a := of_onward (.pure a) fun _ _ => rfl
  bind := bind
  malformed _ := of_onward (.throw _) fun _ _ => rfl
  invalidFormatCode _ _ := of_onward (.throw _) fun _ _ => rfl
  here := of_onward ⟨.refl⟩ fun _ _ => rfl
  take n := of_onward (Onward.take n) fun _ _ => rfl
  checkSize size width := of_onward (Onward.checkSize size width) fun _ _ => rfl

/-- Where no level can be entered, nothing inside it is done. -/
theorem nested_full (x y : Reader α) : Alike 0 (nested x) (nested y) := by
  intro c h
  rw [nested_of_full h, nested_of_full h]
  exact ⟨rfl, h⟩

/-- A level deeper there is one level less to be entered. -/
theorem nested {x y : Reader α} (hxy : Alike room x y) :
    Alike (room + 1) (Cursor.nested x) (Cursor.nested y) := by
  intro c h
  by_cases hfree : c.depth < c.limit
  · obtain ⟨hsame, hroom⟩ := hxy { c with depth := c.depth + 1 }
      (by show c.limit ≤ c.depth + 1 + room; omega)
    rw [nested_of_free hfree, nested_of_free hfree, ← hsame]
    refine ⟨rfl, ?_⟩
    cases hx : x { c with depth := c.depth + 1 } with
    | ok a c₁ =>
      rw [hx] at hroom
      -- The level that is left has room for one more.
      show c₁.limit ≤ c₁.depth - 1 + (room + 1)
      have : c₁.limit ≤ c₁.depth + room := hroom
      omega
    | error e c₁ =>
      rw [hx] at hroom
      exact Nat.le_succ_of_le hroom
  · rw [nested_of_full (Nat.not_lt.1 hfree), nested_of_full (Nat.not_lt.1 hfree)]
    exact ⟨rfl, h⟩

/-- Where no level can be entered, any two readers may stand inside: neither is reached. -/
theorem nests_full : Nests (Alike 0) fun _ _ => True where
  outer := stepwise 0
  inner := ⟨fun _ => trivial, fun _ _ => trivial, fun _ => trivial, fun _ _ => trivial, trivial,
    fun _ => trivial, fun _ _ => trivial⟩
  nested _ := nested_full _ _

/-- With room for one more level, what is alike inside is alike outside. -/
theorem nests (room : Nat) : Nests (Alike (room + 1)) (Alike room) where
  outer := stepwise (room + 1)
  inner := stepwise room
  nested := nested

/-- Whatever reads the values inside the last level that can be entered, it is not asked. -/
theorem iterate_readWith (base base' : Reader (Value ω)) (room : Nat) :
    Alike room (readWith^[room + 1] base) (readWith^[room + 1] base') := by
  induction room with
  | zero => exact nests_full.readWith trivial
  | succ room ih =>
    rw [Function.iterate_succ_apply' _ (room + 1), Function.iterate_succ_apply' _ (room + 1)]
    exact (nests room).readWith ih

end Alike

/-- The reader with some room is one reading step iterated, on the innermost reader that only
reports the limit. -/
theorem readWithin_eq_iterate (room : Nat) :
    readWithin (ω := ω) room = readWith^[room + 1] (readInside 0) := by
  induction room with
  | zero => rfl
  | succ room ih => rw [Function.iterate_succ_apply' _ (room + 1), ← ih, readWithin]

/-- Reading comes to an end: with a level of the recursion for each one that can be entered, and
one for the value itself, nothing below them is asked. -/
theorem iterate_readWith (base : Reader (Value ω)) {c : Cursor} {room : Nat}
    (h : c.limit ≤ c.depth + room) : (readWith^[room + 1] base) c = c.read := by
  obtain ⟨more, rfl⟩ : ∃ more, room = c.limit - c.depth + more :=
    ⟨room - (c.limit - c.depth), by omega⟩
  rw [Cursor.read, readWithin_eq_iterate, Nat.add_right_comm, Function.iterate_add_apply]
  exact (Alike.iterate_readWith _ _ _ c (by omega)).1

/-- Reading is the recursion, without a bound. -/
theorem read_eq_readWith (c : Cursor) : c.read = readWith (ω := ω) Cursor.read c := by
  have hread : ∀ room, Alike room (readWithin (ω := ω) room) Cursor.read := fun room =>
    .of_onward (.readWithin room) fun c h => by
      rw [readWithin_eq_iterate, iterate_readWith _ h]
  rw [Cursor.read]
  cases hroom : c.limit - c.depth with
  | zero => exact (Alike.nests_full.readWith trivial c (by omega)).1
  | succ room => exact ((Alike.nests room).readWith (hread room) c (by omega)).1

/-! ### Calls -/

/-- A call of the user of a cursor. -/
inductive Call where
  | take (n : Nat)
  | read

section Calls

variable (ω) {data : List UInt8} {limit : Nat} {c : Cursor}

/-- The cursor after a call, also after one that failed. -/
def call (c : Cursor) : Call → Cursor
  | .take n => final (take n c)
  | .read => final (Cursor.read (ω := ω) c)

/-- The cursor after some calls. -/
def used (c : Cursor) (calls : List Call) : Cursor := calls.foldl (call ω) c

/-- Each call goes on from where the cursor is. -/
theorem advances_call (c : Cursor) (x : Call) : c.Advances (c.call ω x) := by
  cases x with
  | take n => exact (Onward.take n).to_final c
  | read => exact Onward.read.to_final c

/-- By induction on the calls: all of them together go on from where the cursor is. -/
theorem advances_used (c : Cursor) (calls : List Call) : c.Advances (c.used ω calls) := by
  induction calls generalizing c with
  | nil => exact .refl c
  | cons x calls ih => exact (advances_call ω c x).trans (ih (c.call ω x))

/-- A place in some data, no deeper than a limit. -/
structure Within (data : List UInt8) (limit : Nat) (c : Cursor) : Prop where
  rest_eq : c.rest = data.drop c.position
  position_le : c.position ≤ data.length
  depth_le : c.depth ≤ limit
  limit_eq : c.limit = limit

namespace Within

/-- A new cursor is at the start of the data, at depth 0. -/
theorem start (data : List UInt8) (limit : Nat) : (Cursor.start data limit).Within data limit :=
  ⟨rfl, Nat.zero_le _, Nat.zero_le _, rfl⟩

/-- What remains is the data less what is behind. -/
theorem remaining_eq (h : c.Within data limit) : c.remaining = data.length - c.position := by
  rw [remaining, h.rest_eq, List.length_drop]

/-- The step of the invariant: a call keeps the cursor within the data and the limit, also when it
fails. -/
theorem call (h : c.Within data limit) (x : Call) : (c.call ω x).Within data limit := by
  have hadvances := advances_call ω c x
  obtain ⟨bytes, hrest, hposition⟩ := hadvances.exists_bytes
  have hlength : c.rest.length = bytes.length + (c.call ω x).rest.length := by
    rw [hrest, List.length_append]
  have hremaining : c.rest.length = data.length - c.position := h.remaining_eq
  have hdepth : (c.call ω x).depth ≤ (c.call ω x).limit := by
    have hbefore : c.depth ≤ c.limit := h.limit_eq ▸ h.depth_le
    cases x with
    | take n => exact (KeepsLimit.take n).to_final c hbefore
    | read => exact keepsLimit_read.to_final c hbefore
  constructor
  · rw [hposition, ← List.drop_drop, ← h.rest_eq, hrest, List.drop_left]
  · have := h.position_le
    omega
  · rwa [hadvances.limit_eq, h.limit_eq] at hdepth
  · rw [hadvances.limit_eq, h.limit_eq]

/-- By induction on the calls: the cursor in use stays within the data and the limit. -/
theorem used (h : c.Within data limit) (calls : List Call) :
    (c.used ω calls).Within data limit := by
  induction calls generalizing c with
  | nil => exact h
  | cons x calls ih => exact ih (h.call ω x)

variable {ω}

/-- What is taken is what the data has there. -/
theorem of_take (h : c.Within data limit) {n : Nat} {bytes : List UInt8} {c' : Cursor}
    (htake : take n c = .ok bytes c') : bytes = (data.drop c.position).take n ∧
      bytes.length = n ∧ c'.position = c.position + n ∧ c'.depth = c.depth := by
  obtain ⟨rfl, hpass⟩ := take_eq_ok_iff.1 htake
  refine ⟨?_, rfl, hpass.position, hpass.depth⟩
  rw [← h.rest_eq, hpass.rest, List.take_left]

/-- What is read has at least a byte, and all levels in it are left. -/
theorem of_read (h : c.Within data limit) {v : Value ω} {c' : Cursor}
    (hread : c.read = .ok v c') : c'.depth = c.depth ∧ c.position < c'.position := by
  obtain ⟨bytes, k, hderives, hpass, -⟩ := derives_of_read (h.limit_eq ▸ h.depth_le) hread
  have hbyte := hderives.length_pos
  refine ⟨hpass.depth, ?_⟩
  rw [hpass.position]
  omega

end Within

/-- Bytes that could not be taken are still there. -/
theorem take_eq_error {n : Nat} {e : Error} {c' : Cursor} (h : take n c = .error e c') :
    c' = c := by
  unfold take at h
  split at h <;> cases h
  rfl

variable {ω}

/-- After any calls a cursor is in the data and within the limit, and no later calls take it back or
out of a level.  It reads a value with at least a byte and leaves all levels in it; it takes the
bytes that the data has at its place, or does nothing.  No level is left that is not open, and no
list or map ends in front of its first element.  Reading is the recursion, without a bound, and
comes to an end. -/
theorem within_used (data : List UInt8) (limit : Nat) (calls : List Call) {c : Cursor}
    (hc : (start data limit).used ω calls = c) :
    (c.Within data limit ∧ c.remaining = data.length - c.position) ∧
    (∀ later, c.position ≤ (c.used ω later).position ∧ c.depth ≤ (c.used ω later).depth) ∧
    (∀ v c', c.read = .ok (v : Value ω) c' → c'.depth = c.depth ∧ c.position < c'.position) ∧
    (∀ n bytes c', take n c = .ok bytes c' → bytes = (data.drop c.position).take n ∧
      bytes.length = n ∧ c'.position = c.position + n ∧ c'.depth = c.depth) ∧
    (∀ n e c', take n c = .error e c' → c' = c) ∧
    c.readChecked = c.read (ω := ω) ∧ c.read (ω := ω) = readWith Cursor.read c ∧
    ∀ base : Reader (Value ω), (readWith^[c.limit - c.depth + 1] base) c = c.read := by
  have hwithin : c.Within data limit := hc ▸ (Within.start data limit).used ω calls
  refine ⟨⟨hwithin, hwithin.remaining_eq⟩, fun later => ?_, fun v c' => hwithin.of_read,
    fun n bytes c' => hwithin.of_take, fun n e c' => take_eq_error, ?_, read_eq_readWith c,
    fun base => iterate_readWith base (by omega)⟩
  · have hadvances := advances_used ω c later
    exact ⟨hadvances.position_le, hadvances.depth_le⟩
  · rw [readChecked_eq]

/-- A described value with a code that does not exist, another described value, and a null. -/
def broken : List UInt8 := [0x00, 0x40, 0xff, 0x00, 0x41, 0x42, 0x40]

/-- The first reading fails in a level, and the cursor is used on there. -/
theorem within_used_broken : ∃ c c₁ : Cursor, (start broken 2).used Empty [.read] = c ∧
    c.position = 3 ∧ c.depth = 1 ∧
    c.read = .ok (.described (.bool true) (.bool false) : Value Empty) c₁ ∧
    c₁.depth = c.depth ∧ c.position < c₁.position ∧
    take 2 c = .ok ((broken.drop 3).take 2) (c.used Empty [.take 2]) ∧
    final (take 5 c) = c ∧ c.position ≤ (c.used Empty [.take 5, .read, .read]).position := by
  have hread : ((start broken 2).used Empty [.read]).read =
      .ok (.described (.bool true) (.bool false) : Value Empty) ⟨[0x40], 6, 1, 2⟩ := rfl
  obtain ⟨-, hlater, hvalue, htake, hrefused, -⟩ := within_used broken 2 [.read] (ω := Empty) rfl
  obtain ⟨hdepth, hposition⟩ := hvalue _ _ hread
  obtain ⟨hbytes, -⟩ := htake 2 [0x00, 0x41] _ rfl
  refine ⟨_, _, rfl, rfl, rfl, hread, hdepth, hposition, ?_, hrefused 5 _ _ rfl, (hlater _).1⟩
  exact hbytes ▸ rfl

end Calls

end SelfDescribing.Wire.Cursor
