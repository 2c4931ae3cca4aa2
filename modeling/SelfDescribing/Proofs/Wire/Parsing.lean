import SelfDescribing.Proofs.Wire.Stepwise

namespace SelfDescribing.Wire

open Steps

variable {ω : Type}

/-!
# Reading recognises the grammar

A cursor reads a value exactly where a written form of it stands that is not nested too deep:
`Cursor.read_eq_ok_iff`.

* `Cursor.ReadsForms` — a reader that reads nothing but written forms.
* `Cursor.KeepsLimit` — a step that never takes a cursor past its nesting limit.

One direction is in `Proofs/Wire/Reading`, by induction on the written form.  The other one is here,
by induction on the room, with the loop over the elements inside: each success of a reader is traced
back to the bytes that it passed over, and the derivation is put together from them.
-/

namespace Cursor

/-! ### What is read has a written form -/

/-- With room for some levels, a reader reads nothing but written forms with at most as many. -/
def ReadsForms (read : Reader (Value ω)) (room : Nat) : Prop :=
  ∀ {c c' : Cursor} {v : Value ω}, c.limit = c.depth + room → read c = .ok v c' →
    ∃ bytes k, Derives bytes v k ∧ c.Passes bytes c' ∧ k ≤ room

/-- Nothing is lost in pairing an even number of items. -/
theorem keysAndValues_pairs : ∀ {items : List (Value ω)}, items.length % 2 = 0 →
    keysAndValues (pairs items) = items
  | [], _ => rfl
  | [_], h => nomatch h
  | k :: v :: rest, h => by
    have hrest : rest.length % 2 = 0 := by
      simp only [List.length_cons] at h
      omega
    show k :: v :: keysAndValues (pairs rest) = k :: v :: rest
    rw [keysAndValues_pairs hrest]

variable {read : Reader (Value ω)} {c c' : Cursor} {room : Nat}

/-- By induction on how many elements are left: the bytes that the loop goes over are the written
forms of the elements, one behind the other, and the deepest of them counts. -/
theorem elements_of_readElements (hread : ReadsForms read room) {start finish count left : Nat}
    {items : List (Value ω)} (hroom : c.limit = c.depth + room)
    (h : readElements read start finish count left c = .ok items c') :
    ∃ body k, Elements body items k ∧ c.Passes body c' ∧ k ≤ room ∧ items.length = left := by
  induction left generalizing c items with
  | zero =>
    cases h
    exact ⟨[], 0, .nil, .refl _, Nat.zero_le _, rfl⟩
  | succ left ih =>
    -- One value and then the others; the elements nest as deep as the deepest of them.
    rw [readElements, get_bind_apply] at h
    split at h
    · cases h
    rw [bind_eq_ok] at h
    obtain ⟨v, c₁, hv, h⟩ := h
    rw [bind_eq_ok] at h
    obtain ⟨rest, c₂, hrest, hret⟩ := h
    cases hret
    obtain ⟨front, j, hfront, hpass₁, hj⟩ := hread hroom hv
    obtain ⟨back, k, hback, hpass₂, hk, rfl⟩ :=
      ih (by rw [hpass₁.limit, hpass₁.depth, hroom]) hrest
    exact ⟨front ++ back, max j k, .cons hfront hback, hpass₁.trans hpass₂, Nat.max_le.2 ⟨hj, hk⟩,
      rfl⟩

/-- A list or map that is read has the size and the count that it announces. -/
theorem elements_of_readCompound (hread : ∀ r, room = r + 1 → ReadsForms read r) {w : Width}
    {start : Nat} {items : List (Value ω)} (hroom : c.limit = c.depth + room)
    (h : readCompound read w start c = .ok items c') :
    ∃ body k, Elements body items k ∧ k + 1 ≤ room ∧ w.size + body.length < w.bound ∧
      items.length < w.bound ∧
      c.Passes (bigEndian w.size (w.size + body.length) ++
        (bigEndian w.size items.length ++ body)) c' := by
  -- Follow the steps: the size, the count, the level, the elements, the check of the size.
  rw [readCompound, bind_eq_ok] at h
  obtain ⟨size, c₁, hsize, h⟩ := h
  obtain ⟨hsize, hpass₁⟩ := readNumber_eq_ok_iff.1 hsize
  rw [get_bind_apply] at h
  split at h
  · cases h
  rw [bind_eq_ok] at h
  obtain ⟨count, c₂, hcount, h⟩ := h
  obtain ⟨hcount, hpass₂⟩ := readNumber_eq_ok_iff.1 hcount
  rw [bind_eq_ok] at h
  obtain ⟨⟨⟩, c₃, henter, h⟩ := h
  obtain ⟨hfree, rfl⟩ := enter_eq_ok_iff.1 henter
  rw [bind_eq_ok] at h
  obtain ⟨items, c₄, hitems, h⟩ := h
  rw [bind_ok (leave_apply c₄), get_bind_apply] at h
  split at h
  · cases h
  rename_i hannounced hfinish
  cases h
  obtain ⟨r, rfl⟩ : ∃ r, room = r + 1 := by
    have hlimit : c₂.limit = c.limit := hpass₂.limit.trans hpass₁.limit
    have hdepth : c₂.depth = c.depth := hpass₂.depth.trans hpass₁.depth
    exact ⟨room - 1, by omega⟩
  obtain ⟨body, k, hbody, hpass₃, hk, hlength⟩ := elements_of_readElements (hread r rfl)
    (show c₂.limit = c₂.depth + 1 + r by
      rw [hpass₂.limit, hpass₂.depth, hpass₁.limit, hpass₁.depth]; omega) hitems
  -- The elements end where the announced size ends, so they fill it.
  have hend : c₄.position = c₂.position + body.length := hpass₃.position
  have hcovers : w.size + body.length = size := by
    have := hpass₂.position
    rw [length_bigEndian] at this
    simp only [ne_eq, Decidable.not_not] at hfinish
    omega
  refine ⟨body, k, hbody, by omega, ?_, ?_, ?_⟩
  · rwa [hcovers]
  · rwa [hlength]
  · rw [hcovers, hlength]
    exact hpass₁.trans (hpass₂.trans hpass₃.shallower)

/-- Reading a value reads nothing but its written forms, if reading the values inside does. -/
theorem readsForms_readWith (hread : ∀ r, room = r + 1 → ReadsForms read r) :
    ReadsForms (readWith read) room := by
  intro c c' v hroom h
  obtain ⟨code, c₁, hcode, hbody⟩ := readWith_eq_ok_iff.1 h
  have hroom₁ : c₁.limit = c₁.depth + room := by rw [hcode.limit, hcode.depth, hroom]
  cases code with
  | described =>
    rw [readBody, bind_eq_ok] at hbody
    obtain ⟨⟨⟩, c₂, henter, hbody⟩ := hbody
    obtain ⟨hfree, rfl⟩ := enter_eq_ok_iff.1 henter
    rw [bind_eq_ok] at hbody
    obtain ⟨d, c₃, hd, hbody⟩ := hbody
    rw [bind_eq_ok] at hbody
    obtain ⟨b, c₄, hb, hret⟩ := hbody
    cases hret
    -- A level was free, so there was room, and the parts have one level less.
    obtain ⟨r, rfl⟩ : ∃ r, room = r + 1 := ⟨room - 1, by omega⟩
    have hroom₂ : c₁.limit = c₁.depth + 1 + r := by omega
    obtain ⟨front, j, hfront, hpass₂, hj⟩ := hread r rfl hroom₂ hd
    obtain ⟨back, k, hback, hpass₃, hk⟩ :=
      hread r rfl (by rw [hpass₂.limit, hpass₂.depth]; exact hroom₂) hb
    exact ⟨_, _, .described hfront hback, hcode.trans (hpass₂.trans hpass₃).shallower, by omega⟩
  | fixed code =>
    obtain ⟨n, hn, hpass, hv⟩ := readBody_fixed_eq_ok_iff.1 hbody
    exact ⟨_, 0, .scalar (.of_value? hn hv), hcode.trans hpass, Nat.zero_le _⟩
  | binary w =>
    obtain ⟨bytes, fits, hpass, rfl⟩ := readBody_binary_eq_ok_iff.1 hbody
    refine ⟨_, 0, .scalar (.binary w bytes fits), ?_, Nat.zero_le _⟩
    rw [Width.counted, w.code_eq_toByte.1]
    exact hcode.trans hpass
  | string w =>
    obtain ⟨s, fits, hpass, rfl⟩ := readText_counted_eq_ok_iff.1 hbody
    refine ⟨_, 0, .scalar (.string w s fits), ?_, Nat.zero_le _⟩
    rw [Width.counted, w.code_eq_toByte.2.1]
    exact hcode.trans hpass
  | symbol w =>
    obtain ⟨s, fits, hpass, rfl⟩ := readText_counted_eq_ok_iff.1 hbody
    refine ⟨_, 0, .scalar (.symbol w s fits), ?_, Nat.zero_le _⟩
    rw [Width.counted, w.code_eq_toByte.2.2.1]
    exact hcode.trans hpass
  | list w =>
    rw [readBody, bind_eq_ok] at hbody
    obtain ⟨items, c₂, hitems, hret⟩ := hbody
    cases hret
    obtain ⟨body, k, he, hk, hsize, hcount, hpass⟩ :=
      elements_of_readCompound hread hroom₁ hitems
    refine ⟨_, k + 1, .list w he hsize hcount, ?_, hk⟩
    rw [Width.sized, w.code_eq_toByte.2.2.2.1]
    exact hcode.trans hpass
  | map w =>
    rw [readBody, bind_eq_ok] at hbody
    obtain ⟨items, c₂, hitems, hret⟩ := hbody
    split at hret
    · cases hret
    -- The elements are keys and values in turn only if their number is even.
    rename_i heven
    cases hret
    obtain ⟨body, k, he, hk, hsize, hcount, hpass⟩ :=
      elements_of_readCompound hread hroom₁ hitems
    rw [← keysAndValues_pairs (Decidable.not_not.1 heven)] at he hcount hpass
    refine ⟨_, k + 1, .map w he hsize hcount, ?_, hk⟩
    rw [Width.sized, w.code_eq_toByte.2.2.2.2]
    exact hcode.trans hpass

/-- By induction on the room: what a reader with room for some levels reads has a written form with
at most as many. -/
theorem readsForms_readWithin (room : Nat) : ReadsForms (readWithin (ω := ω) room) room := by
  induction room with
  | zero => exact readsForms_readWith fun r hr => absurd hr (Nat.succ_ne_zero r).symm
  | succ room ih =>
    refine readsForms_readWith fun r hr => ?_
    cases hr
    exact ih

/-! ### The nesting stays within the limit -/

/-- A cursor within its limit has not left it. -/
def StaysWithin (c c' : Cursor) : Prop := c.depth ≤ c.limit → c'.depth ≤ c'.limit

instance : IsPreorder Cursor StaysWithin where
  refl _ h := h
  trans _ _ _ h₁ h₂ h := h₂ (h₁ h)

/-- A step that never takes a cursor past its limit, whether it succeeds or fails. -/
abbrev KeepsLimit {α : Type} (x : Reader α) : Prop := Moves StaysWithin x

namespace KeepsLimit

variable {α : Type}

/-- Taking bytes enters no level. -/
theorem take (n : Nat) : KeepsLimit (Cursor.take n) := by
  refine ⟨fun c h => ?_⟩
  unfold Cursor.take
  split <;> exact h

/-- Checking a size moves nothing. -/
theorem checkSize (size width : Nat) : KeepsLimit (Cursor.checkSize size width) := by
  refine ⟨fun c h => ?_⟩
  unfold Cursor.checkSize
  split <;> exact h

/-- A level is entered below the limit only. -/
theorem enter : KeepsLimit enter := by
  refine ⟨fun c h => ?_⟩
  by_cases hfree : c.depth < c.limit
  · rw [enter_of_lt hfree]
    exact hfree
  · rw [enter_of_le (Nat.not_lt.1 hfree)]
    exact h

/-- Leaving a level goes away from the limit. -/
theorem leave : KeepsLimit leave := ⟨fun _ h => Nat.le_trans (Nat.sub_le _ 1) h⟩

/-- All small steps stay within the limit, and so do sequences of them. -/
theorem stepwise : Stepwise fun x _ => KeepsLimit x where
  pure a := .pure a
  bind hx hf := hx.bind hf
  malformed _ := .throw _
  invalidFormatCode _ _ := .throw _
  here := ⟨fun _ h => h⟩
  take := take
  checkSize := checkSize

/-- One level deeper they do so too, since entering checks the limit. -/
theorem nests : Nests (fun x _ => KeepsLimit x) fun x _ => KeepsLimit x where
  outer := stepwise
  inner := stepwise
  nested h := enter.bind fun _ => h.bind fun _ => leave.bind fun _ => .pure _

/-- Reading a value stays within the limit, also where it fails. -/
theorem readWithin (room : Nat) : KeepsLimit (Cursor.readWithin (ω := ω) room) :=
  @Nests.readWithin ω _ nests ⟨fun _ h => h⟩ room

end KeepsLimit

/-- A cursor begins at depth 0, within every limit. -/
theorem depth_le_limit_start (bytes : List UInt8) (limit : Nat) :
    (start bytes limit).depth ≤ (start bytes limit).limit := Nat.zero_le _

/-- A cursor that starts within its limit stays there, also after readings that fail. -/
theorem keepsLimit_read : KeepsLimit (Cursor.read : Reader (Value ω)) :=
  ⟨fun c h => (KeepsLimit.readWithin (c.limit - c.depth)).to_final c h⟩

/-! ### The reader and the grammar -/

/-- What is read is a written form of the value, with the cursor behind it. -/
theorem derives_of_read {v : Value ω} (h : c.depth ≤ c.limit) (hread : c.read = .ok v c') :
    ∃ bytes k, Derives bytes v k ∧ c.Passes bytes c' ∧ c.depth + k ≤ c.limit := by
  have hroom : c.limit = c.depth + (c.limit - c.depth) := by omega
  obtain ⟨bytes, k, hd, hpass, hk⟩ := readsForms_readWithin _ hroom hread
  exact ⟨bytes, k, hd, hpass, by omega⟩

/-- A written form is read as its value where there is room for its levels. -/
theorem read_of_derives {bytes : List UInt8} {v : Value ω} {k : Nat} (hd : Derives bytes v k)
    (hpass : c.Passes bytes c') (hk : c.depth + k ≤ c.limit) : c.read = .ok v c' :=
  (hd.takes hpass (show c.limit = c.depth + (c.limit - c.depth) by omega)).fits (by omega)

/-- A cursor within its limit reads a value exactly where a written form of the value stands that
is not nested too deep, and is then behind it, at the level where it was. -/
theorem read_eq_ok_iff {v : Value ω} (h : c.depth ≤ c.limit) :
    c.read = .ok v c' ↔
      ∃ bytes k, Derives bytes v k ∧ c.Passes bytes c' ∧ c.depth + k ≤ c.limit := by
  constructor
  · exact derives_of_read h
  · rintro ⟨bytes, k, hd, hpass, hk⟩
    exact read_of_derives hd hpass hk

/-- A list with an empty list in it, both with their sizes, needs the two levels that there are. -/
theorem read_empty_list_in_list :
    (start [0xc0, 4, 1, 0xc0, 1, 0, 0x40] 2).depth ≤ 2 ∧
      (start [0xc0, 4, 1, 0xc0, 1, 0, 0x40] 2).read =
        .ok (.list [.list []] : Value Empty) ⟨[0x40], 6, 0, 2⟩ := by
  have inner : Derives (ω := Empty) [0xc0, 1, 0] (.list []) 1 :=
    .list .narrow .nil (by decide) (by decide)
  have outer : Derives (ω := Empty) [0xc0, 4, 1, 0xc0, 1, 0] (.list [.list []]) 2 :=
    .list .narrow (.cons inner .nil) (by decide) (by decide)
  refine ⟨by decide, (read_eq_ok_iff (by decide)).2 ⟨_, 2, outer, ?_, by decide⟩⟩
  exact ⟨rfl, rfl, rfl, rfl⟩

end Cursor

end SelfDescribing.Wire
