import SelfDescribing.Bytes
import Mathlib

namespace SelfDescribing

/-!
# Numbers and texts as bytes

`bigEndian` and `ofBigEndian` are inverse to each other on numbers that fit the width, and so are
`utf8Bytes` and the reading of UTF-8.
-/

/-! ### Numbers -/

/-- A number that fits the width is read back from its bytes. -/
theorem ofBigEndian_bigEndian {width n : Nat} (h : n < 256 ^ width) :
    ofBigEndian (bigEndian width n) = n := by
  induction width generalizing n with
  | zero =>
    have : n = 0 := by simpa using h
    subst this
    rfl
  | succ width ih =>
    have front : n / 256 < 256 ^ width := by
      rw [Nat.pow_succ] at h
      omega
    have last : (UInt8.ofNat n).toNat = n % 256 := UInt8.toNat_ofNat'
    rw [bigEndian, ofBigEndian_concat, ih front, last]
    omega

/-- What is read of some bytes fits their width. -/
theorem ofBigEndian_lt (bytes : List UInt8) : ofBigEndian bytes < 256 ^ bytes.length := by
  induction bytes using List.reverseRecOn with
  | nil => simp [ofBigEndian]
  | append_singleton bytes b ih =>
    have hb := b.toNat_lt
    rw [ofBigEndian_concat, List.length_append, List.length_singleton, Nat.pow_succ]
    omega

/-- Bytes are written back as they were read. -/
theorem bigEndian_ofBigEndian (bytes : List UInt8) :
    bigEndian bytes.length (ofBigEndian bytes) = bytes := by
  induction bytes using List.reverseRecOn with
  | nil => rfl
  | append_singleton bytes b ih =>
    have hb := b.toNat_lt
    have front : (256 * ofBigEndian bytes + b.toNat) / 256 = ofBigEndian bytes := by omega
    have last : UInt8.ofNat (256 * ofBigEndian bytes + b.toNat) = b := by
      apply UInt8.toNat_inj.1
      rw [UInt8.toNat_ofNat']
      omega
    rw [ofBigEndian_concat, List.length_append, List.length_singleton, bigEndian, front, last, ih]

/-- A number in one byte. -/
theorem bigEndian_one (n : Nat) : bigEndian 1 n = [UInt8.ofNat n] := rfl

/-! ### Texts -/

/-- The bytes of a text are those that the runtime has for it. -/
theorem toByteArray_utf8Bytes (s : String) : (utf8Bytes s).toByteArray = s.toUTF8 := by
  apply ByteArray.ext
  rw [List.data_toByteArray, utf8Bytes, Array.toArray_toList]

/-- The bytes of a text are valid and read as the text. -/
theorem fromUTF8?_utf8Bytes (s : String) : String.fromUTF8? (utf8Bytes s).toByteArray = some s := by
  rw [toByteArray_utf8Bytes, String.fromUTF8?, String.toUTF8_eq_toByteArray,
    dif_pos s.isValidUTF8]
  rfl

/-- A text has no other bytes than those it is read from. -/
theorem utf8Bytes_of_fromUTF8? {bytes : List UInt8} {s : String}
    (h : String.fromUTF8? bytes.toByteArray = some s) : utf8Bytes s = bytes := by
  unfold String.fromUTF8? at h
  split at h
  · rw [Option.some.injEq] at h
    subst h
    exact List.toList_data_toByteArray
  · cases h

/-- Different texts have different bytes. -/
theorem utf8Bytes_injective : Function.Injective utf8Bytes := by
  intro s t h
  have hread := fromUTF8?_utf8Bytes s
  rw [h, fromUTF8?_utf8Bytes] at hread
  exact (Option.some.inj hread).symm

/-- A text is encoded character by character. -/
theorem utf8Bytes_eq_flatMap (s : String) :
    utf8Bytes s = s.toList.flatMap String.utf8EncodeChar := by
  rw [utf8Bytes, String.toUTF8_eq_toByteArray, ← String.utf8Encode_toList, List.utf8Encode,
    List.toList_data_toByteArray]

/-- Texts that are joined have joined bytes. -/
theorem utf8Bytes_append (s t : String) : utf8Bytes (s ++ t) = utf8Bytes s ++ utf8Bytes t := by
  simp only [utf8Bytes_eq_flatMap, String.toList_append, List.flatMap_append]

/-- A byte below 128 stands for a character of its own. -/
theorem mem_toList_of_mem_utf8Bytes {s : String} {c : Char} (hc : c.toNat < 128)
    (h : UInt8.ofNat c.toNat ∈ utf8Bytes s) : c ∈ s.toList := by
  rw [utf8Bytes_eq_flatMap] at h
  obtain ⟨d, hd, h⟩ := List.mem_flatMap.1 h
  have hbyte : ∀ {n : ℕ}, UInt8.ofNat c.toNat = UInt8.ofNat n → c.toNat = n % 256 := by
    intro n hn
    have := congrArg UInt8.toNat hn
    rw [UInt8.toNat_ofNat', UInt8.toNat_ofNat'] at this
    omega
  have hlone : d.val.toNat = c.toNat := by
    -- The bytes of any other character are above 127.
    simp only [String.utf8EncodeChar.eq_def] at h
    split_ifs at h <;> simp only [List.mem_cons, List.not_mem_nil, or_false] at h
    · have := hbyte h
      omega
    all_goals grind
  rwa [← Char.toNat_inj.1 hlone]

end SelfDescribing
