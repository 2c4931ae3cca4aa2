import SelfDescribing.Proofs.Wire.Writing

namespace SelfDescribing

open Wire Steps

/-!
# The smallest written form

The encoder chooses between narrow and wide forms from the inside out, by the bytes that it has
written for the parts.  So it writes everything that has a written form, and none is smaller.

* `Wire.Output.Within` — an output without failure that has at most some number of bytes.
* `Wire.Derives.within` — a value with a written form is written in no more bytes and levels.
* `Wire.Encoder.normalise` — reading a value and writing it again.
* `Wire.Encoder.writes_smallest` — what is read can be written, in the smallest form.

That nothing is smaller is said against the grammar and not against another encoder.  The induction
is on the derivation of the given form: each part is written in no more bytes than it came in, and
then a narrow form can be chosen wherever the given form was narrow.
-/

variable {ω : Type}

/-! ### Keys and values in turn -/

namespace Value

/-- The keys and values of a map are written as the items of a list are. -/
theorem encodeEntries_eq [LiveObject ω] (entries : List (Value ω × Value ω)) :
    encodeEntries entries = encodeItems (keysAndValues entries) := by
  induction entries with
  | nil => rw [encodeEntries, keysAndValues, List.flatMap_nil, encodeItems]
  | cons entry rest ih =>
    obtain ⟨k, v⟩ := entry
    show _ = encodeItems (k :: v :: keysAndValues rest)
    rw [encodeEntries, encodeItems, encodeItems, ih]

/-- The entries of a map are nested as deep as its keys and values in turn. -/
theorem entriesNesting_eq (entries : List (Value ω × Value ω)) :
    entriesNesting entries = itemsNesting (keysAndValues entries) := by
  induction entries with
  | nil => rw [entriesNesting, keysAndValues, List.flatMap_nil, itemsNesting]
  | cons entry rest ih =>
    obtain ⟨k, v⟩ := entry
    show _ = itemsNesting (k :: v :: keysAndValues rest)
    rw [entriesNesting, itemsNesting, itemsNesting, ih, Nat.max_assoc]

end Value

namespace Wire

/-! ### Sizes of outputs -/

/-- A length below the bound is written in four bytes. -/
theorem wideLength_of_lt {n : Nat} {next : List UInt8 → Output} (h : n < Width.wide.bound) :
    wideLength n next = next (bigEndian 4 n) :=
  if_pos h

/-- A count takes at least one byte. -/
theorem Width.size_pos (w : Width) : 0 < w.size := by
  cases w <;> decide

/-- An output is complete, and has at most some number of bytes. -/
structure Output.Within (size : Nat) (o : Output) : Prop where
  complete : o.failure = none
  length_le : o.bytes.length ≤ size

namespace Output.Within

variable {size front back count : Nat} {bytes body written : List UInt8} {w : Width}
  {narrow wide : UInt8}

/-- The bounds of two outputs add up. -/
theorem andThen {first : Output} {next : Unit → Output} (hfirst : first.Within front)
    (hnext : (next ()).Within back) : (first.andThen next).Within (front + back) := by
  unfold Output.andThen
  rw [hfirst.complete]
  refine ⟨hnext.complete, ?_⟩
  rw [List.length_append]
  exact Nat.add_le_add hfirst.length_le hnext.length_le

/-- A byte in front costs one byte. -/
theorem after {o : Output} {b : UInt8} (h : o.Within size) : (o.after [b]).Within (size + 1) :=
  ⟨h.complete, Nat.succ_le_succ h.length_le⟩

/-- The bound of what is wrapped is the bound of the wrapping, given that the inside is complete. -/
theorem whole {o : Output} {wrap : List UInt8 → Output} (h : o.Within back)
    (hwrap : (wrap o.bytes).Within size) : (o.whole wrap).Within size := by
  unfold Output.whole
  rw [h.complete]
  exact hwrap

/-- A code of fixed size writes its own byte and that many more. -/
theorem fixed {code : FixedCode} {n : Nat} (h : code.size < size) :
    (Wire.fixed code n).Within size := by
  refine ⟨rfl, ?_⟩
  rw [Wire.fixed, Output.ok, List.length_cons, length_bigEndian]
  exact h

/-- Bytes whose length fits some width are written in the smallest width. -/
theorem variableSize {code : Width → Code} (fits : bytes.length < w.bound) :
    (Wire.variableSize code bytes).Within (w.counted narrow wide bytes).length := by
  have hcounted : (w.counted narrow wide bytes).length = w.size + bytes.length + 1 := by
    rw [Width.counted, List.length_cons, List.length_append, length_bigEndian]
  rw [hcounted]
  unfold Wire.variableSize
  split
  case isTrue hshort =>
    refine ⟨rfl, ?_⟩
    have hsize := w.size_pos
    simp only [Output.ok, List.length_cons]
    omega
  case isFalse hlong =>
    -- Only wide lengths fit.
    cases w with
    | narrow => exact absurd fits hlong
    | wide =>
      rw [wideLength_of_lt fits]
      refine ⟨rfl, ?_⟩
      simp only [Output.after, Output.ok, List.length_append, length_bigEndian, List.length_cons,
        List.length_nil, Width.size]
      omega

/-- Elements whose size and count fit some width are written in the smallest width, also if they
have become shorter. -/
theorem compound {code : Width → Code} (hwritten : written.length ≤ body.length)
    (hsize : w.size + body.length < w.bound) (hcount : count < w.bound) :
    (Wire.compound code count written).Within (w.sized narrow wide count body).length := by
  have hsized : (w.sized narrow wide count body).length =
      w.size + (w.size + body.length) + 1 := by
    simp only [Width.sized, List.length_cons, List.length_append, length_bigEndian]
  rw [hsized]
  unfold Wire.compound
  split
  case isTrue hshort =>
    refine ⟨rfl, ?_⟩
    have hsize := w.size_pos
    simp only [Output.ok, List.length_cons]
    omega
  case isFalse hlong =>
    cases w with
    | narrow =>
      -- What has become shorter fits a narrow size all the more.
      have hnarrow : 1 + body.length < 256 ∧ count < 256 := ⟨hsize, hcount⟩
      exact absurd ⟨by omega, hnarrow.2⟩ hlong
    | wide =>
      have hfits : written.length + 4 < Width.wide.bound := by
        rw [Nat.add_comm]
        exact (Nat.add_le_add_left hwritten 4).trans_lt hsize
      rw [wideLength_of_lt hfits, wideLength_of_lt hcount]
      refine ⟨rfl, ?_⟩
      simp only [Output.after, Output.ok, List.length_append, length_bigEndian, List.length_cons,
        List.length_nil, Width.size]
      omega

end Output.Within

/-! ### Written forms are written again -/

variable [LiveObject ω]

/-- Values without parts are written in the smallest of their forms. -/
theorem Scalar.within {bytes : List UInt8} {v : Value ω} (h : Scalar bytes v) :
    v.encode.Within bytes.length := by
  cases h
  case binary w bytes fits =>
    rw [Value.encode]
    exact .variableSize fits
  case string w s fits =>
    rw [Value.encode]
    exact .variableSize fits
  case symbol w s fits =>
    rw [Value.encode]
    exact .variableSize fits
  -- A number that came in one byte is written in one byte or in none.
  case smallUint n =>
    have hsmall : n.toUInt32 < 256 := by
      rw [UInt32.lt_iff_toNat_lt, UInt8.toNat_toUInt32]
      exact n.toNat_lt
    rw [Value.encode, if_pos hsmall]
    split <;> exact .fixed (by simp [FixedCode.size])
  case smallUlong n =>
    have hsmall : n.toUInt64 < 256 := by
      rw [UInt64.lt_iff_toNat_lt, UInt8.toNat_toUInt64]
      exact n.toNat_lt
    rw [Value.encode, if_pos hsmall]
    split <;> exact .fixed (by simp [FixedCode.size])
  case smallInt n =>
    have hsmall : -128 ≤ n.toInt32 ∧ n.toInt32 ≤ 127 := by
      rw [Int32.le_iff_toInt_le, Int32.le_iff_toInt_le, Int8.toInt_toInt32]
      exact ⟨n.le_toInt, n.toInt_le⟩
    rw [Value.encode, if_pos hsmall]
    exact .fixed (Nat.lt_add_one 1)
  case smallLong n =>
    have hsmall : -128 ≤ n.toInt64 ∧ n.toInt64 ≤ 127 := by
      rw [Int64.le_iff_toInt_le, Int64.le_iff_toInt_le, Int8.toInt_toInt64]
      exact ⟨n.le_toInt, n.toInt_le⟩
    rw [Value.encode, if_pos hsmall]
    exact .fixed (Nat.lt_add_one 1)
  case emptyList =>
    rw [Value.encode]
    exact .fixed (by decide)
  case uintZero =>
    rw [Value.encode]
    exact .fixed (by decide)
  case ulongZero =>
    rw [Value.encode]
    exact .fixed (by decide)
  -- A number that came in all its bytes is written in as many or in fewer.
  case uint n =>
    rw [Value.encode]
    split
    · exact .fixed (by simp [FixedCode.size])
    · split <;> exact .fixed (by simp [FixedCode.size, length_bigEndian])
  case ulong n =>
    rw [Value.encode]
    split
    · exact .fixed (by simp [FixedCode.size])
    · split <;> exact .fixed (by simp [FixedCode.size, length_bigEndian])
  case int n =>
    rw [Value.encode]
    split <;> exact .fixed (by simp [FixedCode.size, length_bigEndian])
  case long n =>
    rw [Value.encode]
    split <;> exact .fixed (by simp [FixedCode.size, length_bigEndian])
  -- The other codes have one form each, in which the value is written again.
  all_goals
    rw [Value.encode]
    exact .fixed (by simp [FixedCode.size, length_bigEndian])

omit [LiveObject ω] in
/-- A scalar has nothing in it. -/
theorem Scalar.nesting_eq {bytes : List UInt8} {v : Value ω} (h : Scalar bytes v) :
    v.nesting = 0 := by
  cases h <;> simp [Value.nesting]

mutual

/-- A value with a written form is written in no more bytes and with no more levels. -/
theorem Derives.within {bytes : List UInt8} {v : Value ω} {k : Nat} :
    Derives bytes v k → v.encode.Within bytes.length ∧ v.nesting ≤ k
  | .scalar h => ⟨h.within, h.nesting_eq.le⟩
  | .described hfront hback => by
    obtain ⟨hdescriptor, hj⟩ := hfront.within
    obtain ⟨hbody, hk⟩ := hback.within
    rw [Value.encode, Value.nesting, List.length_cons, List.length_append]
    exact ⟨(hdescriptor.andThen hbody).after, by omega⟩
  | .list w helements hsize hcount => by
    obtain ⟨hbody, hk⟩ := helements.within
    rw [Value.encode, Value.nesting]
    split
    · -- The empty list has a form without a size.
      exact ⟨.fixed (by simp [FixedCode.size, Width.sized]), Nat.zero_le _⟩
    · exact ⟨hbody.whole (.compound hbody.length_le hsize hcount), Nat.succ_le_succ hk⟩
  | .map w helements hsize hcount => by
    obtain ⟨hbody, hk⟩ := helements.within
    rw [Value.encode, Value.nesting, Value.encodeEntries_eq, Value.entriesNesting_eq,
      ← length_keysAndValues]
    exact ⟨hbody.whole (.compound hbody.length_le hsize hcount), Nat.succ_le_succ hk⟩

/-- By recursion on the derivation of some elements, together with `Derives.within`: written anew
they take no more bytes, and they are nested no deeper than the derivation. -/
theorem Elements.within {body : List UInt8} {items : List (Value ω)} {k : Nat} :
    Elements body items k →
      (Value.encodeItems items).Within body.length ∧ Value.itemsNesting items ≤ k
  | .nil => by
    rw [Value.encodeItems, Value.itemsNesting]
    exact ⟨⟨rfl, Nat.le_refl 0⟩, Nat.le_refl 0⟩
  | .cons hfront hback => by
    obtain ⟨hfirst, hj⟩ := hfront.within
    obtain ⟨hrest, hk⟩ := hback.within
    rw [Value.encodeItems, Value.itemsNesting, List.length_append]
    exact ⟨hfirst.andThen hrest, by omega⟩

end

end Wire

/-! ### Reading and writing again -/

namespace Wire.Encoder

open Cursor

variable [LiveObject ω]

variable {v : Value ω} {c c' d : Cursor} {bytes rest : List UInt8} {limit : Nat}

/-- What is read is written in no more bytes and levels than it was read from. -/
theorem write_of_read (hdepth : c.depth ≤ c.limit) (h : c.read = .ok v c') :
    ∃ bytes k, Derives bytes v k ∧ c.Passes bytes c' ∧ c.depth + k ≤ c.limit ∧
      v.encode.Within bytes.length ∧ v.nesting ≤ k := by
  obtain ⟨bytes, k, hd, hpass, hk⟩ := derives_of_read hdepth h
  obtain ⟨hwithin, hnesting⟩ := hd.within
  exact ⟨bytes, k, hd, hpass, hk, hwithin, hnesting⟩

/-- What is written is read, in front of anything. -/
theorem read_written (hcomplete : v.encode.failure = none) (hrest : d.rest = v.encode.bytes ++ rest)
    (hnesting : d.depth + v.nesting ≤ d.limit) :
    d.read = .ok v ⟨rest, d.position + v.encode.bytes.length, d.depth, d.limit⟩ :=
  read_of_derives (v.derives_encode hcomplete) ⟨hrest, rfl, rfl, rfl⟩ hnesting

/-- Read the value at the start of some bytes and write it again. -/
def normalise (ω : Type) [LiveObject ω] (bytes : List UInt8) (limit : Nat) :
    Except Error (List UInt8) := do
  let v ← outcome ((start bytes limit).read (ω := ω))
  match write v empty with
  | .ok _ e => return e.buffer
  | .error err _ => throw err

/-- What is read can be written again, because it came in no fewer bytes than it takes. -/
theorem normalise_of_read (h : (start bytes limit).read = .ok v c') :
    normalise ω bytes limit = .ok v.encode.bytes := by
  obtain ⟨_, _, -, -, -, hwithin, -⟩ := write_of_read (depth_le_limit_start bytes limit) h
  have hwrite : write v empty = .ok () (empty.writeRaw v.encode.bytes) :=
    write_eq_ok_iff.2 ⟨hwithin.complete, rfl⟩
  simp only [normalise, h, outcome, bind, Except.bind, hwrite]
  rfl

/-- Nothing is normalised but what was read. -/
theorem exists_read_of_normalise {written : List UInt8}
    (h : normalise ω bytes limit = .ok written) :
    ∃ (v : Value ω) (c' : Cursor), (start bytes limit).read = .ok v c' ∧
      written = v.encode.bytes := by
  obtain ⟨v, hread, -⟩ := except_bind_eq_ok.1 h
  have hread := eq_ok_of_outcome hread
  rw [normalise_of_read hread] at h
  cases h
  exact ⟨v, _, hread, rfl⟩

/-- A value that is read can be written, in no more bytes than it was read from; these bytes are
read as the same value, wherever as many levels are free as the bytes nest that it was read from.
So no bytes are read as a value that are fewer than it is written with, and what is read and written
again stays the same when it is once more. -/
theorem writes_smallest :
    (∀ (v : Value ω) (c c' : Cursor), c.depth ≤ c.limit → c.read = .ok v c' →
      ∃ bytes k, Derives bytes v k ∧ c.Passes bytes c' ∧ c.depth + k ≤ c.limit ∧
        ∃ written, (∀ e, write v e = .ok () (e.writeRaw written)) ∧
          written.length ≤ bytes.length ∧ Derives written v v.nesting ∧ v.nesting ≤ k ∧
          ∀ (d : Cursor) (rest : List UInt8), d.rest = written ++ rest → d.depth + k ≤ d.limit →
            d.read = .ok v ⟨rest, d.position + written.length, d.depth, d.limit⟩) ∧
    (∀ (v : Value ω) (e e' : Encoder) (c c' : Cursor), write v e = .ok () e' →
      c.depth ≤ c.limit → c.read = .ok v c' →
        e'.buffer.length - e.buffer.length ≤ c'.position - c.position) ∧
    ∀ (bytes written : List UInt8) (limit : Nat), normalise ω bytes limit = .ok written →
      normalise ω written limit = .ok written := by
  refine ⟨fun v c c' hdepth h => ?_, fun v e e' c c' hwrite hdepth h => ?_,
    fun bytes written limit h => ?_⟩
  · obtain ⟨bytes, k, hd, hpass, hk, hwithin, hnesting⟩ := write_of_read hdepth h
    exact ⟨bytes, k, hd, hpass, hk, v.encode.bytes,
      fun e => write_eq_ok_iff.2 ⟨hwithin.complete, rfl⟩, hwithin.length_le,
      v.derives_encode hwithin.complete, hnesting, fun d rest hrest hlevels =>
        read_written hwithin.complete hrest (by omega)⟩
  · obtain ⟨bytes, k, -, hpass, -, hwithin, -⟩ := write_of_read hdepth h
    obtain ⟨-, rfl⟩ := write_eq_ok_iff.1 hwrite
    have hlength := hwithin.length_le
    rw [hpass.position, writeRaw, List.length_append]
    omega
  -- A normal form is read with the same nesting, so that the limit that sufficed for the given
  -- bytes suffices for it.
  · obtain ⟨v, c', hread, rfl⟩ := exists_read_of_normalise h
    obtain ⟨_, k, -, -, hk, hwithin, hnesting⟩ :=
      write_of_read (depth_le_limit_start bytes limit) hread
    have hlevels : (start v.encode.bytes limit).depth + v.nesting ≤ limit :=
      (Nat.add_le_add_left hnesting 0).trans hk
    exact normalise_of_read
      (read_written hwithin.complete (List.append_nil v.encode.bytes).symm hlevels)

/-- A zero in four bytes, in a list with a wide size, is written with a code for each. -/
theorem writes_smallest_wide :
    (start [0xd0, 0, 0, 0, 9, 0, 0, 0, 1, 0x70, 0, 0, 0, 0, 0x40] 1).read =
      .ok (.list [.uint 0] : Value Empty) ⟨[0x40], 14, 0, 1⟩ ∧
    write (.list [.uint 0] : Value Empty) ⟨[7]⟩ = .ok () ⟨[7, 0xc0, 2, 1, 0x43]⟩ ∧
    (⟨[0xc0, 2, 1, 0x43, 9], 1, 2, 3⟩ : Cursor).read =
      .ok (.list [.uint 0] : Value Empty) ⟨[9], 5, 2, 3⟩ ∧
    normalise Empty [0xd0, 0, 0, 0, 9, 0, 0, 0, 1, 0x70, 0, 0, 0, 0, 0x40] 1 =
      .ok [0xc0, 2, 1, 0x43] ∧
    normalise Empty [0xc0, 2, 1, 0x43] 1 = .ok [0xc0, 2, 1, 0x43] := by
  have hread : (start [0xd0, 0, 0, 0, 9, 0, 0, 0, 1, 0x70, 0, 0, 0, 0, 0x40] 1).read =
      .ok (.list [.uint 0] : Value Empty) ⟨[0x40], 14, 0, 1⟩ := rfl
  have hwrite : write (.list [.uint 0] : Value Empty) ⟨[7]⟩ = .ok () ⟨[7, 0xc0, 2, 1, 0x43]⟩ := rfl
  have hnormal : normalise Empty [0xd0, 0, 0, 0, 9, 0, 0, 0, 1, 0x70, 0, 0, 0, 0, 0x40] 1 =
      .ok [0xc0, 2, 1, 0x43] := rfl
  obtain ⟨smallest, -, idempotent⟩ := writes_smallest (ω := Empty)
  obtain ⟨bytes, k, -, -, hk, written, hwritten, -, -, -, hagain⟩ :=
    smallest _ _ _ (by decide) hread
  have hbytes : written = [0xc0, 2, 1, 0x43] := by
    have hboth := (hwritten ⟨[7]⟩).symm.trans hwrite
    simpa [writeRaw] using hboth
  subst hbytes
  have hlevels : 0 + k ≤ 1 := hk
  exact ⟨hread, hwrite, hagain ⟨_, 1, 2, 3⟩ [9] rfl (show 2 + k ≤ 3 by omega), hnormal,
    idempotent _ _ _ hnormal⟩

end Wire.Encoder

end SelfDescribing
