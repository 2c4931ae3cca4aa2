import SelfDescribing.Proofs.Wire.Passing

namespace SelfDescribing.Wire

open Steps

variable {ω : Type}

/-!
# Written forms are read

What a cursor does where a written form of a value stands.

* `Cursor.Takes` — what a step does whose bytes need a number of levels: it succeeds where there
  are as many, and otherwise finds the limit exceeded.
* `Derives.takes`, `Elements.takes` — written forms are read so.

The number of levels is part of the statement because reading must not succeed beyond the limit
either.  `Takes` says both at once, and composes: what needs `j` levels followed by what needs `k`
needs the larger number of the two.
-/

/-! ### Codes of a fixed size -/

/-- A code and a number that stand for a value are a written form of it. -/
theorem Scalar.of_value? {code : FixedCode} {n : Nat} {v : Value ω} (hn : n < 256 ^ code.size)
    (hv : code.value? n = some v) : Scalar (code.toByte :: bigEndian code.size n) v := by
  cases code <;> simp only [FixedCode.value?, Option.some.injEq, FixedCode.size] at hn hv
  case char =>
    -- The only number that need not stand for a value.
    split at hv
    · rename_i valid
      cases hv
      have hc := Scalar.char (ω := ω) (Char.ofNat n)
      rwa [show (Char.ofNat n).toNat = n by
        simp [Char.ofNat, valid, Char.ofNatAux, Char.toNat]] at hc
    · cases hv
  all_goals subst hv
  case null => exact .null
  case yes => exact .yes
  case no => exact .no
  case uintZero => exact .uintZero
  case ulongZero => exact .ulongZero
  case emptyList => exact .emptyList
  case ubyte => exact .ubyte (UInt8.ofNat n)
  case byte => exact .byte (UInt8.ofNat n).toInt8
  case smallInt => exact .smallInt (UInt8.ofNat n).toInt8
  case smallLong => exact .smallLong (UInt8.ofNat n).toInt8
  case smallUint =>
    -- A small form holds the number in one byte, which is widened.
    have small := Scalar.smallUint (ω := ω) (UInt8.ofNat n)
    rwa [show (UInt8.ofNat n).toUInt32 = UInt32.ofNat n by
      apply UInt32.toNat_inj.1
      simp at hn ⊢
      omega] at small
  case smallUlong =>
    have small := Scalar.smallUlong (ω := ω) (UInt8.ofNat n)
    rwa [show (UInt8.ofNat n).toUInt64 = UInt64.ofNat n by
      apply UInt64.toNat_inj.1
      simp at hn ⊢
      omega] at small
  case ushort =>
    have number := Scalar.ushort (ω := ω) (UInt16.ofNat n)
    rwa [UInt16.toNat_ofNat_of_lt' hn] at number
  case short =>
    have number := Scalar.short (ω := ω) (UInt16.ofNat n).toInt16
    rwa [UInt16.toUInt16_toInt16, UInt16.toNat_ofNat_of_lt' hn] at number
  case uint =>
    have number := Scalar.uint (ω := ω) (UInt32.ofNat n)
    rwa [UInt32.toNat_ofNat_of_lt' hn] at number
  case int =>
    have number := Scalar.int (ω := ω) (UInt32.ofNat n).toInt32
    rwa [UInt32.toUInt32_toInt32, UInt32.toNat_ofNat_of_lt' hn] at number
  case float =>
    have number := Scalar.float (ω := ω) (UInt32.ofNat n)
    rwa [UInt32.toNat_ofNat_of_lt' hn] at number
  case ulong =>
    have number := Scalar.ulong (ω := ω) (UInt64.ofNat n)
    rwa [UInt64.toNat_ofNat_of_lt' hn] at number
  case long =>
    have number := Scalar.long (ω := ω) (UInt64.ofNat n).toInt64
    rwa [UInt64.toUInt64_toInt64, UInt64.toNat_ofNat_of_lt' hn] at number
  case double =>
    have number := Scalar.double (ω := ω) (UInt64.ofNat n)
    rwa [UInt64.toNat_ofNat_of_lt' hn] at number
  case timestamp =>
    have number := Scalar.timestamp (ω := ω) (UInt64.ofNat n).toInt64
    rwa [UInt64.toUInt64_toInt64, UInt64.toNat_ofNat_of_lt' hn] at number

namespace Cursor

variable {read : Reader (Value ω)} {c c₁ c₂ c' : Cursor} {v : Value ω}

/-- A value is read by its code. -/
theorem readWith_of_code {code : Code} (h : c.Passes [code.toByte] c₁) :
    readWith read c = readBody read c.position code c₁ := by
  have hbyte : readByte c = .ok code.toByte c₁ := readByte_eq_ok_iff.2 h
  rw [readWith, get_bind_apply, bind_ok hbyte, Code.ofByte?_toByte]

/-- A value is read in two steps: the byte of its code, and what the code asks for. -/
theorem readWith_eq_ok_iff :
    readWith read c = .ok v c' ↔
      ∃ code c₁, c.Passes [Code.toByte code] c₁ ∧ readBody read c.position code c₁ = .ok v c' := by
  constructor
  · intro h
    rw [readWith, get_bind_apply, bind_eq_ok] at h
    obtain ⟨b, c₁, hbyte, hbody⟩ := h
    cases hcode : Code.ofByte? b with
    | some code =>
      rw [hcode] at hbody
      rw [readByte_eq_ok_iff, ← Code.toByte_of_ofByte? hcode] at hbyte
      exact ⟨code, c₁, hbyte, hbody⟩
    | none =>
      rw [hcode] at hbody
      cases hbody
  · rintro ⟨code, c₁, hpass, hbody⟩
    rw [readWith_of_code hpass, hbody]

/-- Behind a code of fixed size stand that many bytes, of a number that the code has a value for. -/
theorem readBody_fixed_eq_ok_iff {start : Nat} {code : FixedCode} :
    readBody read start (.fixed code) c = .ok v c' ↔
      ∃ n, n < 256 ^ code.size ∧ c.Passes (bigEndian code.size n) c' ∧ code.value? n = some v := by
  rw [readBody, bind_eq_ok]
  constructor
  · rintro ⟨n, c₁, hnumber, hvalue⟩
    obtain ⟨hn, hpass⟩ := readNumber_eq_ok_iff.1 hnumber
    cases hv : code.value? (ω := ω) n with
    | some w =>
      rw [hv] at hvalue
      cases hvalue
      exact ⟨n, hn, hpass, hv⟩
    | none =>
      rw [hv] at hvalue
      cases hvalue
  · rintro ⟨n, hn, hpass, hv⟩
    refine ⟨n, c', readNumber_eq_ok_iff.2 ⟨hn, hpass⟩, ?_⟩
    rw [hv]
    rfl

/-! ### Codes with a length -/

/-- Behind the code of a binary stand a count and that many bytes. -/
theorem readBody_binary_eq_ok_iff {start : Nat} {w : Width} :
    readBody read start (.binary w) c = .ok v c' ↔
      ∃ bytes, bytes.length < w.bound ∧ c.Passes (bigEndian w.size bytes.length ++ bytes) c' ∧
        v = .binary bytes := by
  simp only [readBody, bind_eq_ok, readNumber_eq_ok_iff, take_eq_ok_iff]
  constructor
  · rintro ⟨n, c₁, ⟨hn, hlength⟩, bytes, c₂, ⟨rfl, hbytes⟩, hret⟩
    cases hret
    exact ⟨bytes, hn, hlength.trans hbytes, rfl⟩
  · rintro ⟨bytes, hn, hpass, rfl⟩
    obtain ⟨c₁, hlength, hbytes⟩ := hpass.split
    exact ⟨_, c₁, ⟨hn, hlength⟩, bytes, c', ⟨rfl, hbytes⟩, rfl⟩

/-- Strings and symbols are read alike: a count, and the bytes of a text.  `f` says which of the two
becomes of it. -/
theorem readText_counted_eq_ok_iff {start : Nat} {w : Width} {f : String → Value ω} :
    (do return f (← readText (← readNumber w.size) start) : Reader (Value ω)) c = .ok v c' ↔
      ∃ s, (utf8Bytes s).length < w.bound ∧
        c.Passes (bigEndian w.size (utf8Bytes s).length ++ utf8Bytes s) c' ∧ v = f s := by
  simp only [bind_eq_ok, readNumber_eq_ok_iff, readText_eq_ok_iff]
  constructor
  · rintro ⟨n, c₁, ⟨hn, hlength⟩, s, c₂, ⟨rfl, hbytes⟩, hret⟩
    cases hret
    exact ⟨s, hn, hlength.trans hbytes, rfl⟩
  · rintro ⟨s, hn, hpass, rfl⟩
    obtain ⟨c₁, hlength, hbytes⟩ := hpass.split
    exact ⟨_, c₁, ⟨hn, hlength⟩, s, c', ⟨rfl, hbytes⟩, rfl⟩

end Cursor

/-! ### Written forms are read -/

/-- The byte in front of a form that comes narrow and wide is the byte of its code. -/
theorem Width.code_eq_toByte (w : Width) :
    w.code 0xa0 0xb0 = (Code.binary w).toByte ∧ w.code 0xa1 0xb1 = (Code.string w).toByte ∧
      w.code 0xa3 0xb3 = (Code.symbol w).toByte ∧ w.code 0xc0 0xd0 = (Code.list w).toByte ∧
      w.code 0xc1 0xd1 = (Code.map w).toByte := by
  cases w <;> decide

namespace Cursor

variable {read : Reader (Value ω)} {c c' : Cursor} {v : Value ω}

/-- A code of a fixed size is read with its number. -/
theorem readWith_fixed (code : FixedCode) (n : Nat)
    (hpass : c.Passes (code.toByte :: bigEndian code.size n) c') (hn : n < 256 ^ code.size)
    (hv : code.value? n = some v) : readWith read c = .ok v c' := by
  obtain ⟨c₁, hcode, hnumber⟩ := hpass.uncons
  have hbody : readBody read c.position (.fixed code) c₁ = .ok v c' :=
    readBody_fixed_eq_ok_iff.2 ⟨n, hn, hnumber, hv⟩
  exact readWith_eq_ok_iff.2 ⟨.fixed code, c₁, hcode, hbody⟩

/-- A code of a fixed size is read with its one byte. -/
theorem readWith_byte (code : FixedCode) (n : UInt8) (hpass : c.Passes [code.toByte, n] c')
    (hsize : code.size = 1) (hv : code.value? n.toNat = some v) :
    readWith read c = .ok v c' := by
  have hbytes : code.toByte :: bigEndian code.size n.toNat = [code.toByte, n] := by
    rw [hsize, bigEndian_one, UInt8.ofNat_toNat]
  refine readWith_fixed code n.toNat (by rwa [hbytes]) ?_ hv
  rw [hsize]
  exact n.toNat_lt

/-- A code is read with the content that is read behind it. -/
theorem readWith_content (code : Code) {content : List UInt8}
    (hpass : c.Passes (code.toByte :: content) c')
    (hbody : ∀ c₁, c₁.Passes content c' → readBody read c.position code c₁ = .ok v c') :
    readWith read c = .ok v c' := by
  obtain ⟨c₁, hcode, hcontent⟩ := hpass.uncons
  exact readWith_eq_ok_iff.2 ⟨code, c₁, hcode, hbody c₁ hcontent⟩

end Cursor

open Cursor in
/-- A value without parts is read whatever reads parts. -/
theorem Scalar.readWith_eq {bytes : List UInt8} {v : Value ω} (h : Scalar bytes v)
    {read : Reader (Value ω)} {c c' : Cursor} (hpass : c.Passes bytes c') :
    readWith read c = .ok v c' := by
  cases h with
  -- What has a code of fixed size is a number and its meaning.
  | null => exact readWith_fixed .null 0 hpass (by decide) rfl
  | yes => exact readWith_fixed .yes 0 hpass (by decide) rfl
  | no => exact readWith_fixed .no 0 hpass (by decide) rfl
  | uintZero => exact readWith_fixed .uintZero 0 hpass (by decide) rfl
  | ulongZero => exact readWith_fixed .ulongZero 0 hpass (by decide) rfl
  | emptyList => exact readWith_fixed .emptyList 0 hpass (by decide) rfl
  | ubyte n => exact readWith_byte .ubyte n hpass rfl (by simp [FixedCode.value?])
  | byte n => exact readWith_byte .byte n.toUInt8 hpass rfl (by simp [FixedCode.value?])
  | smallUint n => exact readWith_byte .smallUint n hpass rfl (by simp [FixedCode.value?])
  | smallUlong n => exact readWith_byte .smallUlong n hpass rfl (by simp [FixedCode.value?])
  | smallInt n => exact readWith_byte .smallInt n.toUInt8 hpass rfl (by simp [FixedCode.value?])
  | smallLong n => exact readWith_byte .smallLong n.toUInt8 hpass rfl (by simp [FixedCode.value?])
  | ushort n => exact readWith_fixed .ushort n.toNat hpass n.toNat_lt (by simp [FixedCode.value?])
  | short n =>
    exact readWith_fixed .short n.toUInt16.toNat hpass (UInt16.toNat_lt _)
      (by simp [FixedCode.value?])
  | uint n => exact readWith_fixed .uint n.toNat hpass n.toNat_lt (by simp [FixedCode.value?])
  | int n =>
    exact readWith_fixed .int n.toUInt32.toNat hpass (UInt32.toNat_lt _)
      (by simp [FixedCode.value?])
  | float bits =>
    exact readWith_fixed .float bits.toNat hpass bits.toNat_lt (by simp [FixedCode.value?])
  | char ch =>
    refine readWith_fixed .char ch.toNat hpass ch.val.toNat_lt ?_
    rw [FixedCode.value?, if_pos (by exact ch.valid), Char.ofNat_toNat]
  | ulong n => exact readWith_fixed .ulong n.toNat hpass n.toNat_lt (by simp [FixedCode.value?])
  | long n =>
    exact readWith_fixed .long n.toUInt64.toNat hpass (UInt64.toNat_lt _)
      (by simp [FixedCode.value?])
  | double bits =>
    exact readWith_fixed .double bits.toNat hpass bits.toNat_lt (by simp [FixedCode.value?])
  | timestamp ms =>
    exact readWith_fixed .timestamp ms.toUInt64.toNat hpass (UInt64.toNat_lt _)
      (by simp [FixedCode.value?])
  -- The others are a count and as many bytes; `fits` says that the count was written in its width.
  | binary w content fits =>
    rw [Width.counted, w.code_eq_toByte.1] at hpass
    refine readWith_content (.binary w) hpass fun c₁ hcontent => ?_
    exact readBody_binary_eq_ok_iff.2 ⟨content, fits, hcontent, rfl⟩
  | string w s fits =>
    rw [Width.counted, w.code_eq_toByte.2.1] at hpass
    refine readWith_content (.string w) hpass fun c₁ hcontent => ?_
    exact readText_counted_eq_ok_iff.2 ⟨s, fits, hcontent, rfl⟩
  | symbol w s fits =>
    rw [Width.counted, w.code_eq_toByte.2.2.1] at hpass
    refine readWith_content (.symbol w) hpass fun c₁ hcontent => ?_
    exact readText_counted_eq_ok_iff.2 ⟨s, fits, hcontent, rfl⟩

/-- A written form has at least its code. -/
theorem Derives.length_pos {bytes : List UInt8} {v : Value ω} {k : Nat} (h : Derives bytes v k) :
    0 < bytes.length := by
  cases h with
  | scalar h => cases h <;> simp [Width.counted]
  | described _ _ => simp
  | list w _ _ _ => simp [Width.sized]
  | map w _ _ _ => simp [Width.sized]

namespace Cursor

variable {α β : Type} {c c₁ c₂ : Cursor} {room j k : Nat} {a : α} {b : β}

/-- A step that needs `k` levels where there is room for `room`: it gives `a` and ends at `c'`, or
finds that the levels do not suffice. -/
structure Takes (x : Reader α) (c : Cursor) (room k : Nat) (a : α) (c' : Cursor) : Prop where
  fits : k ≤ room → x c = .ok a c'
  exceeds : room < k → ∃ c'', x c = .error (.depthExceeded c.limit) c''

namespace Takes

/-- A step that succeeds and enters no level has room everywhere. -/
theorem of_ok {x : Reader α} (h : x c = .ok a c₁) : Takes x c room 0 a c₁ where
  fits _ := h
  exceeds h := absurd h (Nat.not_lt_zero _)

/-- A step, and another one where there was room for the first. -/
theorem bind {x : Reader α} {f : α → Reader β} (first : Takes x c room j a c₁)
    (hlimit : c₁.limit = c.limit) (next : Takes (f a) c₁ room k b c₂) :
    Takes (x >>= f) c room (max j k) b c₂ where
  fits h := by
    rw [bind_ok (first.fits (by omega))]
    exact next.fits (by omega)
  exceeds h := by
    by_cases hj : j ≤ room
    · obtain ⟨c'', hfails⟩ := next.exceeds (by omega)
      exact ⟨c'', by rw [bind_ok (first.fits hj), hfails, hlimit]⟩
    · obtain ⟨c'', hfails⟩ := first.exceeds (by omega)
      exact ⟨c'', bind_error hfails f⟩

/-- A step that needs no level in front of another one. -/
theorem after {x : Reader α} {f : α → Reader β} (first : x c = .ok a c₁)
    (hlimit : c₁.limit = c.limit) (next : Takes (f a) c₁ room k b c₂) :
    Takes (x >>= f) c room k b c₂ := by
  have both := (of_ok first).bind hlimit next
  rwa [Nat.zero_max] at both

/-- A step that needs no level behind another one. -/
theorem andThen {x : Reader α} {f : α → Reader β} (first : Takes x c room k a c₁)
    (next : f a c₁ = .ok b c₂) : Takes (x >>= f) c room k b c₂ where
  fits h := by rw [bind_ok (first.fits h), next]
  exceeds h := by
    obtain ⟨c'', hfails⟩ := first.exceeds h
    exact ⟨c'', bind_error hfails f⟩

/-- Stepping into a level needs one more. -/
theorem level {f : Unit → Reader α} (hroom : c.limit = c.depth + room)
    (inside : ∀ r, room = r + 1 → Takes (f ()) { c with depth := c.depth + 1 } r k a c₁) :
    Takes (enter >>= f) c room (k + 1) a c₁ := by
  cases room with
  | zero =>
    have full : enter c = .error (.depthExceeded c.limit) c := enter_of_le (by omega)
    exact ⟨fun h => absurd h (by omega), fun _ => ⟨c, bind_error full f⟩⟩
  | succ r =>
    have free : enter c = .ok () { c with depth := c.depth + 1 } := enter_of_lt (by omega)
    obtain ⟨fits, exceeds⟩ := inside r rfl
    constructor
    · intro h
      rw [bind_ok free]
      exact fits (by omega)
    · intro h
      obtain ⟨c'', hfails⟩ := exceeds (by omega)
      exact ⟨c'', by rw [bind_ok free, hfails]⟩

end Takes

/-- A list or map is read where its elements are, and needs one level more than they do. -/
theorem readCompound_takes {read : Reader (Value ω)} {w : Width} {start count : Nat}
    {body : List UInt8} {items : List (Value ω)}
    (hpass : c.Passes
      (bigEndian w.size (w.size + body.length) ++ (bigEndian w.size count ++ body)) c')
    (hsize : w.size + body.length < w.bound) (hcount : count < w.bound)
    (hroom : c.limit = c.depth + room)
    (inside : ∀ r c₁ c₂, room = r + 1 → c₁.limit = c₁.depth + r → Passes c₁ body c₂ →
      Takes (readElements read start c₂.position count count) c₁ r k items c₂) :
    Takes (readCompound read w start) c room (k + 1) items c' := by
  obtain ⟨c₁, hpass₁, hpass₂⟩ := hpass.split
  obtain ⟨c₂, hpass₂, hpass₃⟩ := hpass₂.split
  -- The announced size is there, and it ends where the elements end.
  have hrest : c₁.rest.length = w.size + body.length + c'.rest.length := by
    rw [hpass₂.length_rest, hpass₃.length_rest, length_bigEndian]
    omega
  have hfinish : c₁.position + (w.size + body.length) = c'.position := by
    rw [hpass₃.position, hpass₂.position, length_bigEndian, Nat.add_assoc]
  have hlimit : c₂.limit = c.limit := hpass₂.limit.trans hpass₁.limit
  have hdepth : c₂.depth = c.depth := hpass₂.depth.trans hpass₁.depth
  have hfits : has (w.size + body.length) c₁.rest = true := has_iff.2 (by omega)
  -- The size, the count, the level, the elements, and the check that they fill the size.
  refine Takes.after (readNumber_eq_ok_iff.2 ⟨hsize, hpass₁⟩) hpass₁.limit ?_
  refine Takes.after (x := get) rfl rfl ?_
  rw [if_neg (by simp [hfits])]
  refine Takes.after (readNumber_eq_ok_iff.2 ⟨hcount, hpass₂⟩) hpass₂.limit ?_
  refine Takes.level (by omega) fun r hr => ?_
  rw [hfinish]
  have helements := inside r { c₂ with depth := c₂.depth + 1 } { c' with depth := c'.depth + 1 } hr
    (by show c₂.limit = c₂.depth + 1 + r; omega) hpass₃.deeper
  refine helements.andThen ?_
  rw [bind_ok (leave_apply _), get_bind_apply, if_neg (by simp)]
  rfl

/-- The reader of what is inside a value that is read with room for some levels. -/
def readInside : (room : Nat) → Reader (Value ω)
  | 0 => fun c => .error (.depthExceeded c.limit) c
  | room + 1 => readWithin room

/-- With and without room inside, a value is read by the same step. -/
theorem readWithin_eq (room : Nat) :
    readWithin (ω := ω) room = readWith (readInside room) := by cases room <;> rfl

/-- A value is read by its code, as far as levels go. -/
theorem takes_of_code {code : Code} {content : List UInt8} {v : Value ω}
    (hpass : c.Passes (code.toByte :: content) c')
    (body : ∀ c₁, c₁.limit = c.limit → c₁.depth = c.depth → c₁.Passes content c' →
      Takes (readBody (readInside room) c.position code) c₁ room k v c') :
    Takes (readWithin room) c room k v c' := by
  obtain ⟨c₁, hcode, hcontent⟩ := hpass.uncons
  obtain ⟨fits, exceeds⟩ := body c₁ hcode.limit hcode.depth hcontent
  rw [readWithin_eq]
  constructor
  · rwa [readWith_of_code hcode]
  · rwa [readWith_of_code hcode, ← hcode.limit]

/-- The entries of a map come back from its keys and values in turn. -/
theorem pairs_keysAndValues (entries : List (Value ω × Value ω)) :
    pairs (keysAndValues entries) = entries := by
  induction entries with
  | nil => rfl
  | cons e rest ih =>
    show e :: pairs (keysAndValues rest) = e :: rest
    rw [ih]

end Cursor

open Cursor in
mutual

/-- A written form is read, up to its end, where its levels are within the limit. -/
theorem Derives.takes {bytes : List UInt8} {v : Value ω} {k : Nat} :
    Derives bytes v k → ∀ {room : Nat} {c c' : Cursor}, c.Passes bytes c' →
      c.limit = c.depth + room → Takes (readWithin room) c room k v c'
  | .scalar h, room, c, c', hpass, hroom => by
    rw [readWithin_eq]
    exact .of_ok (h.readWith_eq hpass)
  | .described hd hb, room, c, c', hpass, hroom => by
    have hdescribed : c.Passes (Code.described.toByte :: _) c' := hpass
    refine takes_of_code hdescribed fun c₁ hlimit hdepth hcontent => ?_
    obtain ⟨c₂, hfront, hback⟩ := hcontent.split
    refine Takes.level (by omega) fun r hr => ?_
    subst hr
    -- The second part is read at the level of the first, which left it again.
    have hfirst := hd.takes hfront.deeper (show c₁.limit = c₁.depth + 1 + r by omega)
    have hsecond := hb.takes hback.deeper
      (show c₂.limit = c₂.depth + 1 + r by rw [hfront.limit, hfront.depth]; omega)
    exact hfirst.bind hfront.limit (hsecond.andThen rfl)
  | .list w he hsize hcount, room, c, c', hpass, hroom => by
    rw [Width.sized, w.code_eq_toByte.2.2.2.1] at hpass
    refine takes_of_code hpass fun c₁ hlimit hdepth hcontent => ?_
    refine (readCompound_takes hcontent hsize hcount (by omega) ?_).andThen rfl
    intro r c₂ c₃ hr hroom₂ hbody
    subst hr
    exact he.takes _ _ hbody hroom₂
  | @Derives.map _ w _ entries levels he hsize hcount, room, c, c', hpass, hroom => by
    rw [Width.sized, w.code_eq_toByte.2.2.2.2] at hpass
    refine takes_of_code hpass fun c₁ hlimit hdepth hcontent => ?_
    have hitems : Takes (readCompound (readInside room) w c.position) c₁ room (levels + 1)
        (keysAndValues entries) c' := by
      refine readCompound_takes hcontent hsize hcount (by omega) ?_
      intro r c₂ c₃ hr hroom₂ hbody
      subst hr
      exact he.takes _ _ hbody hroom₂
    refine hitems.andThen ?_
    rw [if_neg (by rw [length_keysAndValues]; omega), pairs_keysAndValues]
    rfl

/-- Written forms one after the other are read, up to their end. -/
theorem Elements.takes {body : List UInt8} {items : List (Value ω)} {k : Nat} :
    Elements body items k → ∀ {room : Nat} {c c' : Cursor} (start count : Nat),
      c.Passes body c' → c.limit = c.depth + room →
      Takes (readElements (readWithin room) start c'.position count items.length) c room k items c'
  | .nil, room, c, c', start, count, hpass, hroom => by
    rw [Passes.unique (.refl c) hpass]
    exact .of_ok rfl
  | @Elements.cons _ front back v items _ _ hv he, room, c, c', start, count, hpass, hroom => by
    obtain ⟨c₁, hfront, hback⟩ := hpass.split
    -- There is a byte left for this element, so the announced size does not end here.
    have hbefore : ¬ c'.position ≤ c.position := by
      have := hv.length_pos
      rw [hpass.position, List.length_append]
      omega
    have hfirst := hv.takes hfront hroom
    have hrest := he.takes start count hback
      (show c₁.limit = c₁.depth + room by rw [hfront.limit, hfront.depth]; omega)
    refine Takes.after (x := get) rfl rfl ?_
    rw [if_neg hbefore]
    exact hfirst.bind hfront.limit (hrest.andThen rfl)

end

end SelfDescribing.Wire
