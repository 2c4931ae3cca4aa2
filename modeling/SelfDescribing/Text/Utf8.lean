import SelfDescribing.Error

namespace SelfDescribing.Utf8

/-!
# Faults in UTF-8

A byte sequence that is no UTF-8 has a first place where it goes wrong.  `fault` names it: how many
bytes there begin no character, or that the bytes end inside a character.
-/

/-- A byte of the form `10xxxxxx`. -/
def isTail (b : UInt8) : Bool := decide (0x80 ≤ b) && decide (b ≤ 0xbf)

/-- How many bytes follow the first byte of a character, and between which bounds the next one
lies; the bounds leave out overlong forms, surrogates and numbers that are no code point. -/
def following (first : UInt8) : Option (Nat × UInt8 × UInt8) :=
  if 0xc2 ≤ first ∧ first ≤ 0xdf then some (1, 0x80, 0xbf)
  else if first = 0xe0 then some (2, 0xa0, 0xbf)
  else if first = 0xed then some (2, 0x80, 0x9f)
  else if 0xe1 ≤ first ∧ first ≤ 0xef then some (2, 0x80, 0xbf)
  else if first = 0xf0 then some (3, 0x90, 0xbf)
  else if 0xf1 ≤ first ∧ first ≤ 0xf3 then some (3, 0x80, 0xbf)
  else if first = 0xf4 then some (3, 0x80, 0x8f)
  else none

/-- What the front of a byte sequence is. -/
inductive Front where
  | empty
  /-- A whole character and the bytes after it. -/
  | character (size : Nat) (rest : List UInt8)
  /-- This many bytes that begin no character. -/
  | broken (size : Nat)
  /-- A character that the end of the bytes cuts off. -/
  | unfinished

/-- The bytes after the second one of a character: `owed` more of them, `seen` so far. -/
def continuation : (owed seen : Nat) → List UInt8 → Front
  | 0, seen, rest => .character seen rest
  | _ + 1, _, [] => .unfinished
  | owed + 1, seen, b :: rest =>
    if isTail b then continuation owed (seen + 1) rest else .broken seen

/-- The front of a byte sequence. -/
def front : List UInt8 → Front
  | [] => .empty
  | first :: rest =>
    if first < 0x80 then .character 1 rest
    else match following first with
      | none => .broken 1
      | some (owed, low, high) =>
        match rest with
        | [] => .unfinished
        | second :: rest =>
          if low ≤ second ∧ second ≤ high then continuation (owed - 1) 2 rest else .broken 1

/-- Continuation bytes are taken from the front. -/
theorem length_continuation {owed seen size : Nat} {bytes rest : List UInt8}
    (h : continuation owed seen bytes = .character size rest) : rest.length ≤ bytes.length := by
  induction owed generalizing seen bytes with
  | zero => simp only [continuation, Front.character.injEq] at h; simp [h.2]
  | succ owed ih =>
    cases bytes with
    | nil => simp [continuation] at h
    | cons b bytes =>
      simp only [continuation] at h
      split at h
      · exact Nat.le_succ_of_le (ih h)
      · simp at h

/-- Each character takes at least one byte, so that decoding ends. -/
theorem length_front {size : Nat} {bytes rest : List UInt8}
    (h : front bytes = .character size rest) : rest.length < bytes.length := by
  unfold front at h
  split at h
  · simp at h
  · split at h
    · simp only [Front.character.injEq] at h; simp [h.2]
    · split at h
      · simp at h
      · split at h
        · simp at h
        · split at h
          · have := length_continuation h
            simp only [List.length_cons]; omega
          · simp at h

/-- The first fault of the bytes from `index` on, if there is one. -/
def faultFrom (index : Nat) (bytes : List UInt8) : Option Utf8Fault :=
  match _h : front bytes with
  | .empty => none
  | .character size rest => faultFrom (index + size) rest
  | .broken size => some ⟨index, some size⟩
  | .unfinished => some ⟨index, none⟩
termination_by bytes.length
decreasing_by exact length_front _h

/-- The first fault of a byte sequence, if there is one. -/
def fault (bytes : List UInt8) : Option Utf8Fault := faultFrom 0 bytes

end SelfDescribing.Utf8
