import SelfDescribing.Proofs.Envelope.Reading
import SelfDescribing.Proofs.Wire.Stepwise

namespace SelfDescribing

open Steps

/-!
# Nesting limits

A higher limit changes nothing but that more levels may be entered, and as each level is announced
by a byte, no input can have more levels than it has bytes.

* `Exceeded` — answers that find a limit exceeded.
* `Wire.Cursor.Outlasts` — a reader gives the answer of another one with more levels allowed.
* `Wire.Cursor.Spares` — a step that never finds the limit exceeded, with what holds before it and
  after it.
* `Envelope.answers_raised` — values and payloads under two limits, and under a limit that no
  input of a length exceeds.

Reading is compared with itself under another limit by `Nests`, from `Proofs/Wire/Stepwise`: two
runs stay in step until one of them finds the limit exceeded.  That no more levels are entered than
bytes are read is said by `Spares`, whose conditions fix the limit and the depth and count the bytes
that are left.
-/

/-- The answer that a limit is exceeded. -/
def Exceeded {α : Type} (answer : Except Error α) : Prop :=
  ∃ limit, answer = .error (.depthExceeded limit)

theorem not_exceeded_ok {α : Type} (a : α) : ¬ Exceeded (.ok a : Except Error α) := by
  rintro ⟨limit, ⟨⟩⟩

/-- Whether the limit was exceeded is seen from the error alone. -/
theorem Exceeded.of_error {α β : Type} {e : Error} (h : Exceeded (.error e : Except Error α)) :
    Exceeded (.error e : Except Error β) := by
  obtain ⟨limit, he⟩ := h
  cases he
  exact ⟨limit, rfl⟩

/-- Too short an input is another error. -/
theorem not_exceeded_bufferTooShort {α : Type} (requested available position : Nat) :
    ¬ Exceeded (.error (.bufferTooShort requested available position) : Except Error α) := by
  rintro ⟨limit, ⟨⟩⟩

namespace Wire.Cursor

variable {ω α β : Type}

/-! ### More levels -/

/-- The same place with `n` more levels allowed. -/
def raise (n : Nat) (c : Cursor) : Cursor := { c with limit := c.limit + n }

/-- Unless the first reader finds the limit exceeded, the second one gives the same answer where `n`
more levels are allowed, and ends at the same place. -/
def Outlasts (n : Nat) {α : Type} (x y : Reader α) : Prop :=
  ∀ c, ¬ Exceeded (outcome (x c)) → y (c.raise n) = viewed (raise n) (x c)

namespace Outlasts

variable {n : Nat}

/-- Two steps in turn outlast the lower limit if each does. -/
theorem bind {x y : Reader α} {f g : α → Reader β} (hxy : Outlasts n x y)
    (hfg : ∀ a, Outlasts n (f a) (g a)) : Outlasts n (x >>= f) (y >>= g) := by
  intro c h
  have hfirst := hxy c
  -- An error of the first part is the error of both, so it was not that of the limit either.
  cases hx : x c with
  | ok a c₁ =>
    rw [hx] at hfirst
    rw [bind_ok hx] at h ⊢
    rw [bind_ok (hfirst (not_exceeded_ok a))]
    exact hfg a c₁ h
  | error e c₁ =>
    rw [hx] at hfirst
    rw [bind_error hx] at h ⊢
    rw [bind_error (hfirst fun he => h he.of_error)]
    rfl

/-- Going down a level succeeds under the higher limit where it did under the lower one. -/
theorem enter : Outlasts n enter enter := by
  intro c h
  by_cases hfree : c.depth < c.limit
  · have hraised : (c.raise n).depth < (c.raise n).limit := Nat.lt_add_right n hfree
    rw [enter_of_lt hfree, enter_of_lt hraised]
    rfl
  · rw [enter_of_le (Nat.not_lt.1 hfree)] at h
    exact absurd ⟨c.limit, rfl⟩ h

theorem stepwise (n : Nat) : Stepwise (Outlasts n) where
  pure a c _ := rfl
  bind := bind
  malformed fault c _ := rfl
  invalidFormatCode code start c _ := rfl
  here c _ := rfl
  -- Small steps look at the bytes and the position, and hand the limit on.
  take size c _ := by
    unfold take
    show (if has size c.rest then _ else _) = _
    split <;> rfl
  checkSize size width c _ := by
    unfold checkSize
    show (if size < width || !has size c.rest then _ else _) = _
    split <;> rfl

theorem nests (n : Nat) : Nests (Outlasts n) (Outlasts n) where
  outer := stepwise n
  inner := stepwise n
  nested h := enter.bind fun _ => h.bind fun _ => bind (fun _ _ => rfl) fun _ _ _ => rfl

/-- Reading a value under the higher limit gives what it gives under the lower one, unless this was
exceeded. -/
theorem readWithin (n room : Nat) :
    Outlasts n (Cursor.readWithin (ω := ω) room) (Cursor.readWithin (room + n)) := by
  induction room with
  | zero =>
    -- Without room the values inside are found too deep, whatever they are.
    rw [readWithin_eq, readWithin_eq]
    exact (nests n).readWith fun c h => absurd ⟨c.limit, rfl⟩ h
  | succ room ih =>
    rw [Nat.add_right_comm]
    exact (nests n).readWith ih

/-- Raising the limit at the start of a byte string lifts nothing but its own error. -/
theorem read_start (bytes : List UInt8) (limit n : Nat)
    (h : ¬ Exceeded (outcome ((start bytes limit).read (ω := ω)))) :
    (start bytes (limit + n)).read (ω := ω) = viewed (raise n) (start bytes limit).read :=
  readWithin n limit (start bytes limit) h

end Outlasts

/-! ### As many levels as bytes -/

/-- A place with a given limit and depth, and with at most `left` bytes behind it. -/
structure Holds (limit depth left : Nat) (c : Cursor) : Prop where
  limit_eq : c.limit = limit
  depth_eq : c.depth = depth
  length_le : c.rest.length ≤ left

/-- From every place with `P` a step does not find the limit exceeded, and if it succeeds, then at a
place with `Q`. -/
structure Spares (P Q : Cursor → Prop) {α : Type} (x : Reader α) : Prop where
  not_exceeded : ∀ {c}, P c → ¬ Exceeded (outcome (x c))
  keeps : ∀ {c a c'}, P c → x c = .ok a c' → Q c'

namespace Spares

variable {P Q S : Cursor → Prop} {limit depth left : Nat}

/-- Two steps in turn spare the limit if the second one does so from where the first one ends. -/
theorem bind {x : Reader α} {f : α → Reader β} (hx : Spares P Q x) (hf : ∀ a, Spares Q S (f a)) :
    Spares P S (x >>= f) := by
  constructor
  · intro c hc
    have hfirst := hx.not_exceeded hc
    cases h : x c with
    | ok a c₁ =>
      rw [bind_ok h]
      exact (hf a).not_exceeded (hx.keeps hc h)
    | error e c₁ =>
      rw [h] at hfirst
      rw [bind_error h]
      exact fun he => hfirst he.of_error
  · intro c b c' hc h
    obtain ⟨a, c₁, hxa, hfa⟩ := bind_eq_ok.1 h
    exact (hf a).keeps (hx.keeps hc hxa) hfa

/-- Less is needed of a step where more is known before it and less is asked after it. -/
theorem imp {P' Q' : Cursor → Prop} {x : Reader α} (hx : Spares P Q x) (hP : ∀ c, P' c → P c)
    (hQ : ∀ c, Q c → Q' c) : Spares P' Q' x :=
  ⟨fun hc => hx.not_exceeded (hP _ hc), fun hc h => hQ _ (hx.keeps (hP _ hc) h)⟩

/-- Taking bytes never exceeds the limit, and leaves as many bytes less. -/
theorem take (size : Nat) : Spares (Holds limit depth left)
    (fun c => Holds limit depth (left - size) c ∧ size ≤ left) (take size) := by
  constructor
  · intro c hc
    unfold Cursor.take
    split
    · exact not_exceeded_ok _
    · exact not_exceeded_bufferTooShort _ _ _
  · intro c bytes c' hc h
    obtain ⟨rfl, hpass⟩ := take_eq_ok_iff.1 h
    have hlength := hpass.length_rest
    have hleft := hc.length_le
    exact ⟨⟨hpass.limit.trans hc.limit_eq, hpass.depth.trans hc.depth_eq, by omega⟩, by omega⟩

theorem pure (a : α) : Spares P P (Pure.pure a : Reader α) :=
  ⟨fun _ => not_exceeded_ok a, fun hc h => by
    cases h
    exact hc⟩

/-- A step that gives no error of depth and stays where it is. -/
theorem of_stays {x : Reader α} (hx : ∀ c, ¬ Exceeded (outcome (x c)))
    (hstays : ∀ {c a c'}, x c = .ok a c' → c' = c) : Spares P P x :=
  ⟨fun _ => hx _, fun hc h => hstays h ▸ hc⟩

theorem stepwise (limit depth left : Nat) : Stepwise fun x _ =>
    Spares (Holds limit depth left) (Holds limit depth left) x where
  pure := pure
  bind hx hf := hx.bind hf
  malformed fault := of_stays (by rintro c ⟨limit, ⟨⟩⟩) fun h => nomatch h
  invalidFormatCode code start := of_stays (by rintro c ⟨limit, ⟨⟩⟩) fun h => nomatch h
  here := of_stays (fun c => not_exceeded_ok c.position) fun h => by
    cases h
    rfl
  take size := (take size).imp (fun _ hc => hc) fun _ hc =>
    ⟨hc.1.limit_eq, hc.1.depth_eq, hc.1.length_le.trans (Nat.sub_le left size)⟩
  checkSize size width := by
    refine of_stays (fun c => ?_) fun {c a c'} h => ?_
    · unfold checkSize
      split
      · exact not_exceeded_bufferTooShort _ _ _
      · exact not_exceeded_ok ()
    · unfold checkSize at h
      split at h
      · cases h
      · cases h
        rfl

/-- A level deeper, the limit is spared if it was not reached before. -/
theorem nested {x : Reader α} (hfree : depth < limit)
    (hx : Spares (Holds limit (depth + 1) left) (Holds limit (depth + 1) left) x) :
    Spares (Holds limit depth left) (Holds limit depth left) (nested x) := by
  have hopen : ∀ {c}, Holds limit depth left c → c.depth < c.limit := fun hc => by
    rw [hc.depth_eq, hc.limit_eq]
    exact hfree
  have henter : Spares (Holds limit depth left) (Holds limit (depth + 1) left) enter := by
    constructor
    · intro c hc
      rw [enter_of_lt (hopen hc)]
      exact not_exceeded_ok ()
    · intro c _ c' hc h
      obtain ⟨-, rfl⟩ := enter_eq_ok_iff.1 h
      exact ⟨hc.limit_eq, congrArg (· + 1) hc.depth_eq, hc.length_le⟩
  have hleave : Spares (Holds limit (depth + 1) left) (Holds limit depth left) leave := by
    refine ⟨fun _ => not_exceeded_ok (), fun {c a c'} hc h => ?_⟩
    cases h
    exact ⟨hc.limit_eq, congrArg (· - 1) hc.depth_eq, hc.length_le⟩
  exact henter.bind fun _ => hx.bind fun a =>
    hleave.bind fun _ => pure a

/-- The code of a value takes a byte off what is left for the values inside, which are a level
deeper. -/
theorem readWith {read : Reader (Value ω)}
    (hinside : 0 < left → depth < limit ∧
      Spares (Holds limit (depth + 1) (left - 1)) (Holds limit (depth + 1) (left - 1)) read) :
    Spares (Holds limit depth left) (Holds limit depth left) (Cursor.readWith read) := by
  have hbyte : Spares (Holds limit depth left)
      (fun c => Holds limit depth (left - 1) c ∧ 1 ≤ left) readByte :=
    ((take 1).bind fun _ => pure _).bind fun _ => pure _
  rw [readWith_eq]
  refine (stepwise limit depth left).here.bind fun start => hbyte.bind fun b => ?_
  by_cases hleft : 1 ≤ left
  · obtain ⟨hfree, hread⟩ := hinside hleft
    have hnests : Nests (fun x _ => Spares (Holds limit depth (left - 1))
        (Holds limit depth (left - 1)) x) (fun x _ => Spares (Holds limit (depth + 1) (left - 1))
          (Holds limit (depth + 1) (left - 1)) x) :=
      ⟨stepwise limit depth (left - 1), stepwise limit (depth + 1) (left - 1), nested hfree⟩
    have hcoded : Spares (Holds limit depth (left - 1)) (Holds limit depth (left - 1))
        (readCoded read start b) := @Nests.readCoded ω read read _ _ hnests hread start b
    exact hcoded.imp (fun _ hc => hc.1) fun _ hc =>
      ⟨hc.limit_eq, hc.depth_eq, hc.length_le.trans (Nat.sub_le left 1)⟩
  · -- Without a byte there is no code.
    exact ⟨fun hc => absurd hc.2 hleft, fun hc => absurd hc.2 hleft⟩

/-- Room for as many levels as there are bytes is enough. -/
theorem readWithin {room : Nat} (h : left ≤ room) :
    Spares (Holds (depth + room) depth left) (Holds (depth + room) depth left)
      (Cursor.readWithin (ω := ω) room) := by
  induction room generalizing depth left with
  | zero => exact readWith fun hleft => absurd hleft (Nat.not_lt.2 h)
  | succ room ih =>
    refine readWith fun hleft => ⟨by omega, ?_⟩
    rw [Nat.add_comm room 1, ← Nat.add_assoc]
    exact ih (by omega)

/-- A value under a limit of as many levels as there are bytes never exceeds it: each level takes a
byte. -/
theorem read_start {bytes : List UInt8} {limit : Nat} (h : bytes.length ≤ limit) :
    ¬ Exceeded (outcome ((start bytes limit).read (ω := ω))) :=
  (readWithin h).not_exceeded ⟨(Nat.zero_add limit).symm, rfl, le_refl bytes.length⟩

end Spares

end Wire.Cursor

/-! ### Payloads -/

open Wire Cursor

variable {ω : Type} [LiveObject ω]

namespace Envelope

/-- What is made of a value once it is read does not exceed the limit. -/
theorem not_exceeded_ofValue (v : Value ω) : ¬ Exceeded (ofValue v) := by
  rintro ⟨limit, h⟩
  obtain ⟨fault, hfault⟩ := (Malforms.envelope v).of_error h
  cases hfault

/-- Parsing a payload finds the limit exceeded only where reading the value behind its header
does. -/
theorem exceeded_parse_iff {bytes : List UInt8} {limit : Nat}
    (hheader : bytes.take header.length = header) : Exceeded (parse (ω := ω) bytes limit) ↔
      Exceeded (outcome ((start (bytes.drop header.length) limit).read (ω := ω))) := by
  rw [parse, if_neg (not_not.2 hheader)]
  cases (start (bytes.drop header.length) limit).read (ω := ω) with
  | error e c => exact ⟨Exceeded.of_error, Exceeded.of_error⟩
  | ok v c =>
    refine iff_of_false ?_ (not_exceeded_ok v)
    dsimp only
    split
    · rintro ⟨limit, ⟨⟩⟩
    · exact not_exceeded_ofValue v

theorem parse_raised {bytes : List UInt8} {limit : Nat} (n : Nat)
    (h : ¬ Exceeded (parse (ω := ω) bytes limit)) :
    parse (ω := ω) bytes (limit + n) = parse bytes limit := by
  by_cases hheader : bytes.take header.length = header
  · rw [exceeded_parse_iff hheader] at h
    rw [parse, parse, Outlasts.read_start _ limit n h]
    cases (start (bytes.drop header.length) limit).read (ω := ω) <;> rfl
  · rw [parse, parse, if_pos hheader, if_pos hheader]

/-- A payload with no more bytes than the limit does not hit the limit. -/
theorem not_exceeded_parse {bytes : List UInt8} {limit : Nat} (h : bytes.length ≤ limit) :
    ¬ Exceeded (parse (ω := ω) bytes limit) := by
  by_cases hheader : bytes.take header.length = header
  · have hbehind : (bytes.drop header.length).length ≤ limit := by
      rw [List.length_drop]
      omega
    rw [exceeded_parse_iff hheader]
    exact Spares.read_start hbehind
  · rw [parse, if_pos hheader]
    rintro ⟨limit, ⟨⟩⟩

/-- With more levels allowed, values are read and payloads parsed with the same answer, also where
it is an error, and up to the same place and level, unless the limit was exceeded.  A limit is never
exceeded by fewer bytes than it allows levels. -/
theorem answers_raised (bytes : List UInt8) (limit n : Nat) :
    (¬ Exceeded (outcome ((start bytes limit).read (ω := ω))) →
      (start bytes (limit + n)).read (ω := ω) = viewed (raise n) (start bytes limit).read) ∧
    (¬ Exceeded (parse (ω := ω) bytes limit) →
      parse (ω := ω) bytes (limit + n) = parse bytes limit) ∧
    (bytes.length ≤ limit → ¬ Exceeded (outcome ((start bytes limit).read (ω := ω))) ∧
      ¬ Exceeded (parse (ω := ω) bytes limit)) :=
  ⟨Outlasts.read_start bytes limit n, parse_raised n,
    fun h => ⟨Spares.read_start h, not_exceeded_parse h⟩⟩

/-- The envelope of nothing needs four levels, and a list with an empty list in it two. -/
theorem answers_raised_blank :
    (∃ bytes, blank.toBytes = .ok bytes ∧ parse bytes 4 = .ok blank ∧
      parse bytes (4 + 3) = .ok blank ∧ bytes.length ≤ 33 ∧
      ¬ Exceeded (parse (ω := Empty) bytes 33)) ∧
    (start [0xc0, 4, 1, 0xc0, 1, 0, 0x40] 2).read =
      .ok (.list [.list []] : Value Empty) ⟨[0x40], 6, 0, 2⟩ ∧
    (start [0xc0, 4, 1, 0xc0, 1, 0, 0x40] (2 + 3)).read =
      .ok (.list [.list []] : Value Empty) ⟨[0x40], 6, 0, 5⟩ := by
  have hparse := parse_blank
  have hread : (start [0xc0, 4, 1, 0xc0, 1, 0, 0x40] 2).read =
      .ok (.list [.list []] : Value Empty) ⟨[0x40], 6, 0, 2⟩ := rfl
  refine ⟨⟨_, rfl, hparse, ?_, by decide, ?_⟩, hread, ?_⟩
  · rw [(answers_raised _ 4 3).2.1 (by rw [hparse]; exact not_exceeded_ok blank), hparse]
  · exact ((answers_raised _ 33 0).2.2 (by decide)).2
  · rw [(answers_raised _ 2 3).1 (by rw [hread]; exact not_exceeded_ok _), hread]
    rfl

end Envelope

end SelfDescribing
