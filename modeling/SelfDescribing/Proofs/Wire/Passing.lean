import SelfDescribing.Wire.Cursor
import SelfDescribing.Proofs.Steps
import SelfDescribing.Proofs.Wire.Grammar

namespace SelfDescribing.Wire.Cursor

open Steps

/-!
# Passing over bytes

What the small steps of a cursor do when they succeed, said by the bytes that they pass over.

* `Passes c bytes c'` — `c'` is the place behind `bytes`, which are the next ones at `c`; the
  nesting is the same at both.
* `take_eq_ok_iff`, `readNumber_eq_ok_iff`, `readByte_eq_ok_iff`, `readText_eq_ok_iff` — when a
  step succeeds, and where the cursor is then.

Cursors have a position, a rest, a depth and a limit, which always change together.  `Passes`
bundles the four equations, so that later proofs compose moves and never compare cursors field by
field.
-/

/-- From `c` one gets to `c'` over some bytes, with the same nesting. -/
structure Passes (c : Cursor) (bytes : List UInt8) (c' : Cursor) : Prop where
  rest : c.rest = bytes ++ c'.rest
  position : c'.position = c.position + bytes.length
  depth : c'.depth = c.depth
  limit : c'.limit = c.limit

namespace Passes

variable {c c₁ c₂ : Cursor} {front back : List UInt8}

/-- A cursor passes over nothing and stays where it is. -/
theorem refl (c : Cursor) : c.Passes [] c := ⟨rfl, rfl, rfl, rfl⟩

/-- What is passed over in two goes is passed over in one. -/
theorem trans (h₁ : c.Passes front c₁) (h₂ : c₁.Passes back c₂) :
    c.Passes (front ++ back) c₂ where
  rest := by rw [h₁.rest, h₂.rest, List.append_assoc]
  position := by rw [h₂.position, h₁.position, List.length_append, Nat.add_assoc]
  depth := h₂.depth.trans h₁.depth
  limit := h₂.limit.trans h₁.limit

/-- One can stop on the way. -/
theorem split (h : c.Passes (front ++ back) c₂) :
    ∃ c₁, c.Passes front c₁ ∧ c₁.Passes back c₂ := by
  refine ⟨⟨back ++ c₂.rest, c.position + front.length, c.depth, c.limit⟩, ⟨?_, rfl, rfl, rfl⟩,
    ⟨rfl, ?_, h.depth, h.limit⟩⟩
  · rw [h.rest, List.append_assoc]
  · rw [h.position, List.length_append, Nat.add_assoc]

/-- One can stop behind the first byte. -/
theorem uncons {b : UInt8} (h : c.Passes (b :: back) c₂) :
    ∃ c₁, c.Passes [b] c₁ ∧ c₁.Passes back c₂ :=
  split (show c.Passes ([b] ++ back) c₂ from h)

/-- What is passed over determines where one gets to. -/
theorem unique (h₁ : c.Passes front c₁) (h₂ : c.Passes front c₂) : c₁ = c₂ := by
  obtain ⟨rest₁, position₁, depth₁, limit₁⟩ := c₁
  obtain ⟨rest₂, position₂, depth₂, limit₂⟩ := c₂
  have hrest : rest₁ = rest₂ := List.append_cancel_left (h₁.rest.symm.trans h₂.rest)
  have hposition : position₁ = position₂ := h₁.position.trans h₂.position.symm
  have hdepth : depth₁ = depth₂ := h₁.depth.trans h₂.depth.symm
  have hlimit : limit₁ = limit₂ := h₁.limit.trans h₂.limit.symm
  rw [hrest, hposition, hdepth, hlimit]

/-- The bytes passed over are those by which the rest has become shorter. -/
theorem length_rest (h : c.Passes front c₁) :
    c.rest.length = front.length + c₁.rest.length := by
  rw [h.rest, List.length_append]

/-- A level deeper one passes over the same bytes. -/
theorem deeper (h : c.Passes front c₁) :
    Passes { c with depth := c.depth + 1 } front { c₁ with depth := c₁.depth + 1 } where
  rest := h.rest
  position := h.position
  depth := by rw [h.depth]
  limit := h.limit

/-- Back from a level deeper one has passed over the same bytes. -/
theorem shallower (h : Passes { c with depth := c.depth + 1 } front c₁) :
    c.Passes front { c₁ with depth := c₁.depth - 1 } where
  rest := h.rest
  position := h.position
  depth := by
    show c₁.depth - 1 = c.depth
    rw [h.depth, Nat.add_sub_cancel]
  limit := h.limit

end Passes

/-! ### The small steps -/

variable {c c' : Cursor}

/-- Taking `n` bytes succeeds with the next `n` bytes, and only with those. -/
theorem take_eq_ok_iff {n : Nat} {bytes : List UInt8} :
    take n c = .ok bytes c' ↔ bytes.length = n ∧ c.Passes bytes c' := by
  unfold take
  split
  case isTrue h =>
    rw [has_iff] at h
    constructor
    · intro hok
      cases hok
      have hlen : (c.rest.take n).length = n := by rw [List.length_take]; omega
      refine ⟨hlen, (List.take_append_drop n c.rest).symm, ?_, rfl, rfl⟩
      show c.position + n = c.position + (c.rest.take n).length
      rw [hlen]
    -- The other way round, the bytes in front are the first `n` because there are `n` of them.
    · rintro ⟨rfl, hpass⟩
      have htake : c.rest.take bytes.length = bytes := by rw [hpass.rest, List.take_left]
      have hdrop : c.rest.drop bytes.length = c'.rest := by rw [hpass.rest, List.drop_left]
      rw [htake, hdrop, ← hpass.position, ← hpass.depth, ← hpass.limit]
  case isFalse h =>
    rw [has_iff] at h
    constructor
    · intro hok
      cases hok
    · rintro ⟨rfl, hpass⟩
      have := hpass.length_rest
      omega

/-- A number of some width is read from its big-endian bytes.  The bound says which of the numbers
with these bytes it is. -/
theorem readNumber_eq_ok_iff {width n : Nat} :
    readNumber width c = .ok n c' ↔ n < 256 ^ width ∧ c.Passes (bigEndian width n) c' := by
  unfold readNumber
  rw [bind_eq_ok]
  constructor
  · rintro ⟨bytes, c₁, htake, hret⟩
    obtain ⟨rfl, hpass⟩ := take_eq_ok_iff.1 htake
    cases hret
    rw [bigEndian_ofBigEndian]
    exact ⟨ofBigEndian_lt bytes, hpass⟩
  · rintro ⟨hfits, hpass⟩
    refine ⟨_, c', take_eq_ok_iff.2 ⟨length_bigEndian width n, hpass⟩, ?_⟩
    rw [ofBigEndian_bigEndian hfits]
    rfl

/-- A byte is read where it is the next one. -/
theorem readByte_eq_ok_iff {b : UInt8} : readByte c = .ok b c' ↔ c.Passes [b] c' := by
  unfold readByte
  rw [bind_eq_ok]
  constructor
  · rintro ⟨n, c₁, hread, hret⟩
    cases hret
    exact (readNumber_eq_ok_iff.1 hread).2
  · intro hpass
    refine ⟨b.toNat, c', readNumber_eq_ok_iff.2 ⟨b.toNat_lt, ?_⟩, ?_⟩
    · rwa [bigEndian_one, UInt8.ofNat_toNat]
    · rw [UInt8.ofNat_toNat]
      rfl

/-- A text is read from its UTF-8 bytes, which there must be as many of as announced. -/
theorem readText_eq_ok_iff {length start : Nat} {s : String} :
    readText length start c = .ok s c' ↔
      (utf8Bytes s).length = length ∧ c.Passes (utf8Bytes s) c' := by
  unfold readText
  rw [bind_eq_ok]
  constructor
  · rintro ⟨bytes, c₁, htake, hret⟩
    cases ht : String.fromUTF8? bytes.toByteArray with
    | some t =>
      rw [ht] at hret
      cases hret
      rw [utf8Bytes_of_fromUTF8? ht]
      exact take_eq_ok_iff.1 htake
    | none =>
      rw [ht] at hret
      cases hret
  · intro h
    refine ⟨_, c', take_eq_ok_iff.2 h, ?_⟩
    rw [fromUTF8?_utf8Bytes]
    rfl

/-- Below the limit there is a level to enter. -/
theorem enter_of_lt (h : c.depth < c.limit) :
    enter c = .ok () { c with depth := c.depth + 1 } := by rw [enter, if_pos h]

/-- At the limit there is none, and the error names the limit. -/
theorem enter_of_le (h : c.limit ≤ c.depth) : enter c = .error (.depthExceeded c.limit) c := by
  rw [enter, if_neg (Nat.not_lt.2 h)]

/-- Entering a level moves nothing but the depth. -/
theorem enter_eq_ok_iff :
    enter c = .ok () c' ↔ c.depth < c.limit ∧ c' = { c with depth := c.depth + 1 } := by
  by_cases h : c.depth < c.limit
  · rw [enter_of_lt h]
    constructor
    · intro hok
      cases hok
      exact ⟨h, rfl⟩
    · rintro ⟨-, rfl⟩
      rfl
  · rw [enter_of_le (Nat.not_lt.1 h)]
    constructor
    · intro hok
      cases hok
    · exact fun hok => absurd hok.1 h

/-- Leaving never fails.  At depth 0 it stays there, which `Proofs/Wire/InUse` shows to happen
nowhere. -/
theorem leave_apply (c : Cursor) : leave c = .ok () { c with depth := c.depth - 1 } := rfl

end SelfDescribing.Wire.Cursor
