import SelfDescribing.Wire.Encode
import SelfDescribing.Proofs.Wire.Parsing

namespace SelfDescribing

open Wire

/-!
# What is written is read back

* `Value.derives_encode` — a value that is written has the bytes of one of its written forms, and
  this form nests as deep as `Value.nesting` says.
* `Wire.Encoder.read_of_write` — reading gives the value back, exactly where its nesting is within
  the limit.

The encoder writes one of the forms in the grammar, and the reader reads all of them; the round trip
is the composition.  The proof has one case for each kind of value, and for numbers one for each
form that the encoder may choose.
-/

/-! ### Outputs -/

namespace Wire

namespace Output

variable {first o : Output} {next : Unit → Output} {wrap : List UInt8 → Output}

/-- An output is complete if both its parts are, and then it is one behind the other. -/
theorem andThen_complete (h : (first.andThen next).failure = none) :
    first.failure = none ∧ (next ()).failure = none ∧
      (first.andThen next).bytes = first.bytes ++ (next ()).bytes := by
  unfold andThen at h ⊢
  split at h
  · rename_i e he
    rw [he] at h
    cases h
  · rename_i he
    rw [he]
    exact ⟨rfl, h, rfl⟩

/-- What is wrapped as a whole is complete if it is complete in front of and behind the wrapping. -/
theorem whole_complete (h : (o.whole wrap).failure = none) :
    o.failure = none ∧ (wrap o.bytes).failure = none ∧
      (o.whole wrap).bytes = (wrap o.bytes).bytes := by
  unfold whole at h ⊢
  split at h
  · cases h
  · rename_i he
    rw [he]
    exact ⟨rfl, h, rfl⟩

end Output

/-- A length that was written in four bytes fits in them. -/
theorem wideLength_complete {n : Nat} {next : List UInt8 → Output}
    (h : (wideLength n next).failure = none) :
    n < Width.wide.bound ∧ wideLength n next = next (bigEndian 4 n) := by
  unfold wideLength at h ⊢
  split at h
  · rename_i hn
    rw [if_pos hn]
    exact ⟨hn, rfl⟩
  · cases h

/-- A code of a fixed size is written with its number. -/
theorem derives_fixed {ω : Type} {code : FixedCode} {n : Nat} {v : Value ω}
    (hn : n < 256 ^ code.size) (hv : code.value? n = some v) :
    Derives (fixed code n).bytes v 0 :=
  .scalar (.of_value? hn hv)

/-- Bytes with a length are written narrow or wide, and their length fits. -/
theorem variableSize_complete {code : Width → Code} {bytes : List UInt8}
    (h : (variableSize code bytes).failure = none) :
    ∃ w, bytes.length < Width.bound w ∧ (variableSize code bytes).bytes =
      w.counted (code .narrow).toByte (code .wide).toByte bytes := by
  unfold variableSize at h ⊢
  split
  · rename_i hshort
    exact ⟨.narrow, hshort, rfl⟩
  · rename_i hlong
    rw [if_neg hlong] at h
    obtain ⟨hfits, hlength⟩ := wideLength_complete h
    rw [hlength]
    exact ⟨.wide, hfits, rfl⟩

/-- Elements are written narrow or wide, and their size and count fit. -/
theorem compound_complete {code : Width → Code} {count : Nat} {body : List UInt8}
    (h : (compound code count body).failure = none) :
    ∃ w : Width, w.size + body.length < w.bound ∧ count < w.bound ∧
      (compound code count body).bytes =
        w.sized (code .narrow).toByte (code .wide).toByte count body := by
  unfold compound at h ⊢
  split
  -- The narrow form is chosen only where size and count both fit in a byte.
  · rename_i hshort
    refine ⟨.narrow, ?_, hshort.2, ?_⟩
    · rw [Nat.add_comm]
      exact hshort.1
    · rw [Nat.add_comm]
      rfl
  -- In the wide form two numbers are written, either of which might not fit.
  · rename_i hlong
    rw [if_neg hlong] at h
    change (wideLength (body.length + 4) _).failure = none at h
    obtain ⟨hsize, hrest⟩ := wideLength_complete h
    rw [hrest] at h
    obtain ⟨hcount, hlast⟩ := wideLength_complete h
    refine ⟨.wide, ?_, hcount, ?_⟩
    · rw [Nat.add_comm]
      exact hsize
    · rw [hrest, hlast, Nat.add_comm]
      rfl

end Wire

namespace Value

variable {ω : Type} [LiveObject ω]

/-! ### Values -/

/-- A number between -128 and 127 survives the one byte it is written in. -/
theorem toInt32_toInt8 {n : Int32} (h : -128 ≤ n ∧ n ≤ 127) : n.toInt8.toInt32 = n := by
  have low : -128 ≤ n.toInt := Int32.le_iff_toInt_le.1 h.1
  have high : n.toInt ≤ 127 := Int32.le_iff_toInt_le.1 h.2
  apply Int32.toInt_inj.1
  rw [Int8.toInt_toInt32, Int32.toInt_toInt8]
  exact Int.bmod_eq_of_le (by omega) (by omega)

/-- A long number between -128 and 127 survives the one byte it is written in. -/
theorem toInt64_toInt8 {n : Int64} (h : -128 ≤ n ∧ n ≤ 127) : n.toInt8.toInt64 = n := by
  have low : -128 ≤ n.toInt := Int64.le_iff_toInt_le.1 h.1
  have high : n.toInt ≤ 127 := Int64.le_iff_toInt_le.1 h.2
  apply Int64.toInt_inj.1
  rw [Int8.toInt_toInt64, Int64.toInt_toInt8]
  exact Int.bmod_eq_of_le (by omega) (by omega)

mutual

/-- What a written value leaves is one of its written forms. -/
theorem derives_encode : ∀ (v : Value ω), v.encode.failure = none →
    Derives v.encode.bytes v v.nesting
  | .null, _ => derives_fixed (by decide) rfl
  | .bool true, _ => derives_fixed (by decide) rfl
  | .bool false, _ => derives_fixed (by decide) rfl
  | .ubyte n, _ => derives_fixed n.toNat_lt (by simp [FixedCode.value?])
  | .ushort n, _ => derives_fixed n.toNat_lt (by simp [FixedCode.value?])
  | .byte n, _ => derives_fixed (UInt8.toNat_lt _) (by simp [FixedCode.value?])
  | .short n, _ => derives_fixed (UInt16.toNat_lt _) (by simp [FixedCode.value?])
  | .float bits, _ => derives_fixed bits.toNat_lt (by simp [FixedCode.value?])
  | .double bits, _ => derives_fixed bits.toNat_lt (by simp [FixedCode.value?])
  | .timestamp ms, _ => derives_fixed (UInt64.toNat_lt _) (by simp [FixedCode.value?])
  | .char c, _ => by
    refine derives_fixed c.val.toNat_lt ?_
    rw [FixedCode.value?, if_pos (by exact c.valid), Char.ofNat_toNat]
  -- Numbers have shorter forms: zero a code, and what fits in a byte the byte.
  | .uint n, _ => by
    rw [encode]
    split
    · rename_i h
      subst h
      exact derives_fixed (by decide) rfl
    · split
      · rename_i _ h
        exact derives_fixed (UInt32.lt_iff_toNat_lt.1 h) (by simp [FixedCode.value?])
      · exact derives_fixed n.toNat_lt (by simp [FixedCode.value?])
  | .ulong n, _ => by
    rw [encode]
    split
    · rename_i h
      subst h
      exact derives_fixed (by decide) rfl
    · split
      · rename_i _ h
        exact derives_fixed (UInt64.lt_iff_toNat_lt.1 h) (by simp [FixedCode.value?])
      · exact derives_fixed n.toNat_lt (by simp [FixedCode.value?])
  | .int n, _ => by
    rw [encode]
    split
    · rename_i h
      exact derives_fixed (UInt8.toNat_lt _) (by simp [FixedCode.value?, toInt32_toInt8 h])
    · exact derives_fixed (UInt32.toNat_lt _) (by simp [FixedCode.value?])
  | .long n, _ => by
    rw [encode]
    split
    · rename_i h
      exact derives_fixed (UInt8.toNat_lt _) (by simp [FixedCode.value?, toInt64_toInt8 h])
    · exact derives_fixed (UInt64.toNat_lt _) (by simp [FixedCode.value?])
  -- From here on something is counted, and completeness says that the count fits its width.
  | .binary bytes, h => by
    obtain ⟨w, hfits, hbytes⟩ := variableSize_complete h
    rw [encode, hbytes]
    exact .scalar (.binary w bytes hfits)
  | .string s, h => by
    obtain ⟨w, hfits, hbytes⟩ := variableSize_complete h
    rw [encode, hbytes]
    exact .scalar (.string w s hfits)
  | .symbol s, h => by
    obtain ⟨w, hfits, hbytes⟩ := variableSize_complete h
    rw [encode, hbytes]
    exact .scalar (.symbol w s hfits)
  | .list items, h => by
    rw [encode] at h ⊢
    rw [nesting]
    split
    · -- An empty list has a code of its own and no level.
      rename_i hempty
      rw [List.isEmpty_iff] at hempty
      subst hempty
      exact derives_fixed (by decide) rfl
    · rename_i hsome
      rw [if_neg hsome] at h
      obtain ⟨hitems, hwrap, hbytes⟩ := Output.whole_complete h
      obtain ⟨w, hsize, hcount, hbody⟩ := compound_complete hwrap
      rw [hbytes, hbody]
      exact .list w (elements_encodeItems items hitems) hsize hcount
  | .map entries, h => by
    rw [encode] at h ⊢
    obtain ⟨hitems, hwrap, hbytes⟩ := Output.whole_complete h
    obtain ⟨w, hsize, hcount, hbody⟩ := compound_complete hwrap
    rw [← length_keysAndValues] at hcount
    rw [hbytes, hbody, ← length_keysAndValues]
    exact .map w (elements_encodeEntries entries hitems) hsize hcount
  -- The two parts of a described value are complete if the whole is.
  | .described descriptor body, h => by
    rw [encode] at h ⊢
    obtain ⟨hfront, hback, hbytes⟩ := Output.andThen_complete h
    show Derives (0x00 :: ((descriptor.encode).andThen fun _ => body.encode).bytes) _ _
    rw [hbytes, nesting]
    exact .described (derives_encode descriptor hfront) (derives_encode body hback)
  | .live _, h => nomatch h

/-- By recursion on the items, together with `derives_encode`: what is written for the items of a
list is their written forms, one behind the other. -/
theorem elements_encodeItems : ∀ (items : List (Value ω)), (encodeItems items).failure = none →
    Elements (encodeItems items).bytes items (itemsNesting items)
  | [], _ => .nil
  | v :: rest, h => by
    rw [encodeItems] at h ⊢
    obtain ⟨hfront, hback, hbytes⟩ := Output.andThen_complete h
    rw [hbytes, itemsNesting]
    exact .cons (derives_encode v hfront) (elements_encodeItems rest hback)

/-- The entries of a map are written as its keys and values in turn. -/
theorem elements_encodeEntries : ∀ (entries : List (Value ω × Value ω)),
    (encodeEntries entries).failure = none →
    Elements (encodeEntries entries).bytes (keysAndValues entries) (entriesNesting entries)
  | [], _ => .nil
  | (k, v) :: rest, h => by
    rw [encodeEntries] at h ⊢
    obtain ⟨hkey, hfront, hbytes⟩ := Output.andThen_complete h
    obtain ⟨hvalue, hback, hbytes'⟩ := Output.andThen_complete hfront
    rw [hbytes, hbytes', entriesNesting, Nat.max_assoc]
    exact .cons (derives_encode k hkey)
      (.cons (derives_encode v hvalue) (elements_encodeEntries rest hback))

end

end Value

namespace Wire.Encoder

open Cursor

variable {ω : Type}

/-- Writing succeeds with a value's own bytes behind what was written before. -/
theorem write_eq_ok_iff [LiveObject ω] {v : Value ω} {e e' : Encoder} :
    write v e = .ok () e' ↔ v.encode.failure = none ∧ e' = e.writeRaw v.encode.bytes := by
  simp only [write]
  cases h : v.encode.failure with
  | none =>
    constructor
    · intro hok
      cases hok
      exact ⟨rfl, rfl⟩
    · rintro ⟨-, rfl⟩
      rfl
  | some err =>
    constructor
    · intro hok
      cases hok
    · intro hok
      cases hok.1

/-- A written value is read back, up to the end of its bytes and to the level where the reader
was, if its nesting is within the limit there; otherwise the limit is found exceeded.  What was
written before and what follows has no influence. -/
theorem read_of_write [LiveObject ω] {v : Value ω} {e e' : Encoder} (hwrite : write v e = .ok () e')
    {c : Cursor} {rest : List UInt8} (hrest : c.rest = e'.buffer.drop e.buffer.length ++ rest)
    (hlimit : c.depth ≤ c.limit) :
    (c.depth + v.nesting ≤ c.limit → c.read = .ok v
      ⟨rest, c.position + (e'.buffer.length - e.buffer.length), c.depth, c.limit⟩) ∧
    (c.limit < c.depth + v.nesting → ∃ c',
      (c.read : EStateM.Result _ _ (Value ω)) = .error (.depthExceeded c.limit) c') := by
  obtain ⟨hcomplete, rfl⟩ := write_eq_ok_iff.1 hwrite
  have hbytes : (e.writeRaw v.encode.bytes).buffer.drop e.buffer.length = v.encode.bytes :=
    List.drop_left
  have hlength : (e.writeRaw v.encode.bytes).buffer.length - e.buffer.length =
      v.encode.bytes.length := by
    rw [writeRaw, List.length_append, Nat.add_sub_cancel_left]
  rw [hbytes] at hrest
  rw [hlength]
  -- The bytes are a written form of the value, which the reader takes as it takes any.
  have hpass : c.Passes v.encode.bytes
      ⟨rest, c.position + v.encode.bytes.length, c.depth, c.limit⟩ := ⟨hrest, rfl, rfl, rfl⟩
  have hroom : c.limit = c.depth + (c.limit - c.depth) := by omega
  obtain ⟨fits, exceeds⟩ := (v.derives_encode hcomplete).takes hpass hroom
  exact ⟨fun h => fits (by omega), fun h => exceeds (by omega)⟩

/-- Values without live objects. -/
instance : LiveObject Empty := ⟨Empty.elim⟩

/-- An empty map behind a byte, in front of another one, needs a level and an empty list none. -/
theorem read_of_write_empty_map :
    write (.map [] : Value Empty) ⟨[7]⟩ = .ok () ⟨[7, 0xc1, 1, 0]⟩ ∧
      (⟨[0xc1, 1, 0, 9], 1, 1, 2⟩ : Cursor).read = .ok (.map [] : Value Empty) ⟨[9], 4, 1, 2⟩ ∧
      ∃ c', (⟨[0xc1, 1, 0, 9], 1, 2, 2⟩ : Cursor).read (ω := Empty) =
        .error (.depthExceeded 2) c' := by
  have hwrite : write (.map [] : Value Empty) ⟨[7]⟩ = .ok () ⟨[7, 0xc1, 1, 0]⟩ := by
    rw [write_eq_ok_iff]
    exact ⟨rfl, rfl⟩
  have hread := fun depth (h : depth ≤ 2) =>
    @read_of_write Empty _ _ _ _ hwrite ⟨[0xc1, 1, 0, 9], 1, depth, 2⟩ [9] rfl h
  exact ⟨hwrite, (hread 1 (by decide)).1 (by decide), (hread 2 (by decide)).2 (by decide)⟩

end Wire.Encoder

end SelfDescribing
