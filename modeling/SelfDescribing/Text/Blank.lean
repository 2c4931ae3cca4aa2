namespace SelfDescribing

/-!
# Blanks

The characters with the Unicode property White_Space, and trimming them off both ends.
-/

/-- Whether a character is white space. -/
def isBlank (c : Char) : Bool :=
  let n := c.toNat
  (decide (0x9 ≤ n) && decide (n ≤ 0xd)) || n == 0x20 || n == 0x85 || n == 0xa0 || n == 0x1680
    || (decide (0x2000 ≤ n) && decide (n ≤ 0x200a)) || n == 0x2028 || n == 0x2029 || n == 0x202f
    || n == 0x205f || n == 0x3000

/-- The characters without the blanks at both ends. -/
def trimBlanks (cs : List Char) : List Char :=
  ((cs.dropWhile isBlank).reverse.dropWhile isBlank).reverse

/-- Trimming makes no text longer. -/
theorem length_trimBlanks_le (cs : List Char) : (trimBlanks cs).length ≤ cs.length := by
  have drop : ∀ xs : List Char, (xs.dropWhile isBlank).length ≤ xs.length := fun xs =>
    (List.dropWhile_sublist _).length_le
  have h := drop (cs.dropWhile isBlank).reverse
  simp only [trimBlanks, List.length_reverse] at h ⊢
  exact Nat.le_trans h (drop cs)

end SelfDescribing
