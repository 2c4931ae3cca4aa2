import SelfDescribing.Proofs.Envelope.Reading
import SelfDescribing.Proofs.Wire.Stepwise

namespace SelfDescribing

open Steps

/-!
# Truncated input

What was read well is read the same whatever follows it, and is found too short wherever it is cut.

* `TooShort` — answers that find the input too short.
* `Wire.Cursor.Misses` — of an input that a step goes over well, it goes over a part of it the same,
  or finds the part too short.
* `Wire.Cursor.read_place`, `Wire.Cursor.read_place_take` — values with something else behind them,
  and values that are cut.
* `Envelope.recognises_truncation` — the same for payloads.

Two runs of a reader are compared, one on the whole input and one on a part.  As long as the part
suffices they do the same; where it ends, the second run finds it too short.  `Nests` carries this
from the small steps to whole values, and from there it is a matter of header and end of input.
-/

/-- The answer that the input is too short. -/
def TooShort {α : Type} (answer : Except Error α) : Prop :=
  ∃ requested available position, answer = .error (.bufferTooShort requested available position)

/-- Whether the input was too short is seen from the error alone. -/
theorem TooShort.of_error {α β : Type} {e : Error} (h : TooShort (.error e : Except Error α)) :
    TooShort (.error e : Except Error β) := by
  obtain ⟨requested, available, position, he⟩ := h
  cases he
  exact ⟨requested, available, position, rfl⟩

namespace Wire.Cursor

variable {ω α β : Type}

/-- The same place with more bytes at the end of the input. -/
def extend (more : List UInt8) (c : Cursor) : Cursor := { c with rest := c.rest ++ more }

theorem tooShort_tooShort (requested : Nat) (c : Cursor) :
    TooShort (outcome ((tooShort requested : Reader α) c)) := ⟨_, _, _, rfl⟩

/-- Where the first reader succeeds with some more bytes at the end, the second one finds the input
without them too short, or does the same. -/
def Misses (more : List UInt8) {α : Type} (x y : Reader α) : Prop :=
  ∀ c a c', x (c.extend more) = .ok a c' →
    TooShort (outcome (y c)) ∨ ∃ d, c' = d.extend more ∧ y c = .ok a d

namespace Misses

variable {more : List UInt8}

/-- A step that does not look at the bytes. -/
theorem of_eq {x y : Reader α}
    (h : ∀ c, x (c.extend more) = viewed (extend more) (y c)) : Misses more x y := by
  intro c a c' hx
  rw [h] at hx
  cases hy : y c with
  | ok b d =>
    rw [hy] at hx
    cases hx
    exact .inr ⟨d, rfl, rfl⟩
  | error e d =>
    rw [hy] at hx
    cases hx

/-- Two steps in turn miss nothing if each misses nothing. -/
theorem bind {x y : Reader α} {f g : α → Reader β} (hxy : Misses more x y)
    (hfg : ∀ a, Misses more (f a) (g a)) : Misses more (x >>= f) (y >>= g) := by
  intro c b c' h
  obtain ⟨a, c₁, hx, hf⟩ := bind_eq_ok.1 h
  obtain hshort | ⟨d, rfl, hy⟩ := hxy c a c₁ hx
  · -- What is too short for the first part is too short for both.
    left
    cases hy : y c with
    | ok a' d =>
      rw [hy] at hshort
      obtain ⟨_, _, _, ⟨⟩⟩ := hshort
    | error e d =>
      rw [hy] at hshort
      rw [bind_error hy]
      exact hshort.of_error
  · rw [bind_ok hy]
    exact hfg a d b c' hf

/-- Bytes are taken the same, or the part has too few of them. -/
theorem take (n : Nat) : Misses more (take n) (take n) := by
  intro c bytes c' h
  by_cases hn : n ≤ c.rest.length
  · -- The bytes are there without the others.
    have hmore : n ≤ (c.extend more).rest.length := by
      rw [extend, List.length_append]
      omega
    rw [Cursor.take, if_pos (has_iff.2 hmore)] at h
    cases h
    refine .inr ⟨{ c with rest := c.rest.drop n, position := c.position + n }, ?_, ?_⟩
    · show (⟨(c.rest ++ more).drop n, _, _, _⟩ : Cursor) = ⟨c.rest.drop n ++ more, _, _, _⟩
      rw [List.drop_append_of_le_length hn]
      rfl
    · show _ = EStateM.Result.ok _ _
      rw [Cursor.take, if_pos (has_iff.2 hn), extend, List.take_append_of_le_length hn]
  · left
    rw [Cursor.take, if_neg (mt has_iff.1 hn)]
    exact tooShort_tooShort _ _

/-- A size is accepted the same, or there are too few bytes in the part. -/
theorem checkSize (size width : Nat) :
    Misses more (checkSize size width) (checkSize size width) := by
  intro c _ c' h
  unfold Cursor.checkSize at h ⊢
  split at h
  · cases h
  · rename_i hlong
    split
    · exact .inl (tooShort_tooShort _ _)
    · cases h
      exact .inr ⟨c, rfl, rfl⟩

/-- Levels do not depend on the input. -/
theorem enter : Misses more enter enter := by
  refine of_eq fun c => ?_
  unfold Cursor.enter
  show (if c.depth < c.limit then _ else _) = _
  split <;> rfl

theorem stepwise (more : List UInt8) : Stepwise (Misses more) where
  pure _ := of_eq fun _ => rfl
  bind := bind
  malformed _ := of_eq fun _ => rfl
  invalidFormatCode _ _ := of_eq fun _ => rfl
  here := of_eq fun _ => rfl
  take := take
  checkSize := checkSize

theorem nests (more : List UInt8) : Nests (Misses more) (Misses more) where
  outer := stepwise more
  inner := stepwise more
  nested h := enter.bind fun _ => h.bind fun _ =>
    bind (of_eq fun _ => rfl) fun _ => of_eq fun _ => rfl

/-- A value is read the same of the part, or the part is too short. -/
theorem readWithin (more : List UInt8) (room : Nat) :
    Misses more (Cursor.readWithin (ω := ω) room) (Cursor.readWithin room) :=
  (nests more).readWithin (of_eq fun _ => rfl) room

/-- From the start of a cursor a value is read the same of the part, or the part is too short. -/
theorem read (more : List UInt8) : Misses more (Cursor.read (ω := ω)) Cursor.read :=
  fun c => readWithin more (c.limit - c.depth) c

end Misses

/-! ### Places in an input -/

/-- The place at an offset of some input. -/
def place (input : List UInt8) (offset depth limit : Nat) : Cursor :=
  ⟨input.drop offset, offset, depth, limit⟩

variable {input front : List UInt8} {offset depth limit t : Nat} {v : Value ω} {c' : Cursor}

/-- What is passed over is the part of the input between two places in it. -/
theorem passes_place_iff : (place input offset depth limit).Passes front c' ↔
    (input.take (offset + front.length)).drop offset = front ∧
      c' = place input (offset + front.length) depth limit := by
  have hpart : (input.take (offset + front.length)).drop offset =
      (input.drop offset).take front.length := by
    rw [List.drop_take, Nat.add_sub_cancel_left]
  constructor
  · intro h
    have hdrop : input.drop offset = front ++ c'.rest := h.rest
    have hrest : input.drop (offset + front.length) = c'.rest := by
      rw [← List.drop_drop, hdrop, List.drop_left]
    refine ⟨by rw [hpart, hdrop, List.take_left], ?_⟩
    rw [place, hrest]
    exact h.unique ⟨h.rest, rfl, rfl, rfl⟩
  · rintro ⟨hfront, rfl⟩
    refine ⟨?_, rfl, rfl, rfl⟩
    show input.drop offset = front ++ input.drop (offset + front.length)
    rw [← List.drop_drop]
    conv_lhs => rw [← List.take_append_drop front.length (input.drop offset), ← hpart, hfront]

/-- A value that is read ends at a place in the same input, and is read in every input that agrees
up to there. -/
theorem read_place (hdepth : depth ≤ limit)
    (h : (place input offset depth limit).read = .ok v c') :
    c' = place input c'.position depth limit ∧ c'.position ≤ max offset input.length ∧
      ∀ input', input'.take c'.position = input.take c'.position →
        (place input' offset depth limit).read = .ok v (place input' c'.position depth limit) := by
  obtain ⟨front, k, hd, hpass, hk⟩ := derives_of_read hdepth h
  obtain ⟨hfront, rfl⟩ := passes_place_iff.1 hpass
  refine ⟨rfl, ?_, fun input' hagree => ?_⟩
  · have hlength := congrArg List.length hfront
    rw [List.length_drop, List.length_take] at hlength
    show offset + front.length ≤ _
    omega
  · have hsame : (input'.take (offset + front.length)).drop offset = front := by
      rw [show input'.take (offset + front.length) = input.take (offset + front.length) from hagree,
        hfront]
    exact read_of_derives hd (passes_place_iff.2 ⟨hsame, rfl⟩) hk

/-- A value that is read is found too short wherever it is cut. -/
theorem read_place_take (hdepth : depth ≤ limit)
    (h : (place input offset depth limit).read = .ok v c') (hoffset : offset ≤ t)
    (hcut : t < c'.position) :
    TooShort (outcome ((place (input.take t) offset depth limit).read (ω := ω))) := by
  have hinput : t ≤ input.length := by
    have hend := (read_place hdepth h).2.1
    omega
  have hlength : (input.take t).length = t := List.length_take_of_le hinput
  have hextend : (place (input.take t) offset depth limit).extend (input.drop t) =
      place input offset depth limit := by
    have hdrop : (input.take t).drop offset ++ input.drop t = input.drop offset := by
      rw [← List.drop_append_of_le_length (hlength.symm ▸ hoffset), List.take_append_drop]
    rw [extend, place, place, hdrop]
  rw [← hextend] at h
  obtain hshort | ⟨d, rfl, hread⟩ := Misses.read _ _ _ _ h
  · exact hshort
  · -- Within the bytes that are left nothing ends behind them.
    have hend : d.position ≤ max offset (input.take t).length := (read_place hdepth hread).2.1
    have hbehind : t < d.position := hcut
    omega

end Wire.Cursor

/-! ### Payloads -/

open Wire Cursor

variable {ω : Type} [LiveObject ω] {bytes : List UInt8} {limit t : Nat} {e : Envelope ω}

namespace Envelope

/-- A payload that is parsed is a header and the bytes of one value, which tells the envelope. -/
theorem parse_eq_ok_iff_read : parse bytes limit = .ok e ↔
    bytes.take header.length = header ∧ ∃ v c,
      (start (bytes.drop header.length) limit).read = .ok v c ∧ c.atEnd = true ∧
        ofValue v = .ok e := by
  unfold parse
  split
  case isTrue hheader => exact iff_of_false (fun h => nomatch h) fun h => hheader h.1
  case isFalse hheader =>
    rw [ne_eq, not_not] at hheader
    cases (start (bytes.drop header.length) limit).read (ω := ω) with
    | error e c => exact iff_of_false (fun h => nomatch h) fun ⟨_, v, c, h, _⟩ => nomatch h
    | ok v c =>
      dsimp only
      -- A value that leaves bytes behind is refused, although it was read.
      split
      case isTrue hend =>
        refine iff_of_false (fun h => nomatch h) ?_
        rintro ⟨-, _, _, ⟨⟩, hend', -⟩
        rw [hend'] at hend
        cases hend
      case isFalse hend =>
        rw [Bool.not_eq_true, Bool.not_eq_false'] at hend
        constructor
        · exact fun h => ⟨hheader, v, c, rfl, hend, h⟩
        · rintro ⟨-, _, _, ⟨⟩, -, h⟩
          exact h

/-- Behind its header a payload that is parsed ends where its value ends. -/
theorem read_of_parse (h : parse bytes limit = .ok e) : bytes.take header.length = header ∧
    ∃ v, (place (bytes.drop header.length) 0 0 limit).read =
        .ok v (place (bytes.drop header.length) (bytes.length - header.length) 0 limit) ∧
      ofValue v = .ok e := by
  obtain ⟨hheader, v, c, hread, hend, hv⟩ := parse_eq_ok_iff_read.1 h
  have hplace : (place (bytes.drop header.length) 0 0 limit).read = .ok v c := hread
  obtain ⟨hc, hposition, -⟩ := read_place limit.zero_le hplace
  refine ⟨hheader, v, ?_, hv⟩
  have hrest : (bytes.drop header.length).drop c.position = [] := by
    rw [hc] at hend
    exact List.isEmpty_iff.1 hend
  rw [List.drop_eq_nil_iff, List.length_drop] at hrest
  rw [List.length_drop, Nat.zero_max] at hposition
  rw [← Nat.le_antisymm hposition hrest, ← hc]
  exact hplace

/-- A payload whose value is too short is too short. -/
theorem tooShort_parse (hheader : bytes.take header.length = header)
    (h : TooShort (outcome ((place (bytes.drop header.length) 0 0 limit).read (ω := ω)))) :
    TooShort (parse (ω := ω) bytes limit) := by
  have hstart : place (bytes.drop header.length) 0 0 limit =
      start (bytes.drop header.length) limit := rfl
  rw [hstart] at h
  rw [parse, if_neg (not_not.2 hheader)]
  cases hread : (start (bytes.drop header.length) limit).read (ω := ω) with
  | ok v c =>
    rw [hread] at h
    obtain ⟨_, _, _, ⟨⟩⟩ := h
  | error e c =>
    rw [hread] at h
    exact h.of_error

/-- A payload that is cut is not parsed. -/
theorem parse_take (h : parse bytes limit = .ok e) (hcut : t < bytes.length) :
    (t < header.length → parse (ω := ω) (bytes.take t) limit = .error (.malformed .unknownHeader)) ∧
      (header.length ≤ t → TooShort (parse (ω := ω) (bytes.take t) limit)) := by
  obtain ⟨hheader, v, hread, -⟩ := read_of_parse h
  constructor
  · intro hshort
    -- Fewer bytes than the header has cannot begin with it.
    have hlack : (bytes.take t).take header.length ≠ header := by
      intro hcomplete
      have hlength := congrArg List.length hcomplete
      rw [List.length_take, List.length_take] at hlength
      omega
    rw [parse, if_pos hlack]
  · intro hlong
    have htake : (bytes.take t).take header.length = header := by
      rw [List.take_take, Nat.min_eq_left hlong, hheader]
    refine tooShort_parse htake ?_
    rw [List.drop_take]
    refine read_place_take limit.zero_le hread (Nat.zero_le _) ?_
    show t - header.length < bytes.length - header.length
    omega

/-- A payload with something behind it is not parsed. -/
theorem parse_append (h : parse bytes limit = .ok e) {extra : List UInt8} (hextra : extra ≠ []) :
    parse (ω := ω) (bytes ++ extra) limit = .error (.malformed (.trailingBytes extra.length)) := by
  obtain ⟨hheader, v, hread, -⟩ := read_of_parse h
  have hlength : header.length ≤ bytes.length := by
    have hlength := congrArg List.length hheader
    rw [List.length_take] at hlength
    omega
  have htake : (bytes ++ extra).take header.length = header := by
    rw [List.take_append_of_le_length hlength, hheader]
  -- The same value is read, and the rest is what was appended.
  have hbehind : (place (bytes.drop header.length ++ extra) 0 0 limit).read =
      .ok v ⟨extra, bytes.length - header.length, 0, limit⟩ := by
    have hend : (bytes.drop header.length).length = bytes.length - header.length :=
      List.length_drop
    rw [(read_place limit.zero_le hread).2.2 _ ?_]
    · show EStateM.Result.ok v (place _ (bytes.length - header.length) 0 limit) = _
      rw [place, ← hend, List.drop_left]
    · show List.take (bytes.length - header.length) _ = List.take (bytes.length - header.length) _
      rw [← hend, List.take_left, List.take_length]
  have hstart : (start ((bytes ++ extra).drop header.length) limit).read =
      .ok v ⟨extra, bytes.length - header.length, 0, limit⟩ := by
    rw [List.drop_append_of_le_length hlength]
    exact hbehind
  have hleft : (!atEnd ⟨extra, bytes.length - header.length, 0, limit⟩) = true := by
    rw [atEnd, Bool.not_eq_true', List.isEmpty_eq_false_iff]
    exact hextra
  rw [parse, if_neg (not_not.2 htake), hstart]
  dsimp only
  rw [if_pos hleft]
  rfl

/-- What is read at a place of some input is read in every input that agrees up to its end, and is
found too short wherever it is cut before.  So a payload is parsed as a whole only: none of its
beginnings is one, and nothing that begins with it. -/
theorem recognises_truncation (limit : Nat) :
    (∀ (input : List UInt8) (offset depth : Nat) (v : Value ω) (c : Cursor), depth ≤ limit →
      (place input offset depth limit).read = .ok v c →
        (∀ input', input'.take c.position = input.take c.position →
          (place input' offset depth limit).read = .ok v (place input' c.position depth limit)) ∧
        ∀ t, offset ≤ t → t < c.position →
          TooShort (outcome ((place (input.take t) offset depth limit).read (ω := ω)))) ∧
    ∀ (bytes : List UInt8) (e : Envelope ω), parse bytes limit = .ok e →
      (∀ t < bytes.length,
        (t < header.length →
          parse (ω := ω) (bytes.take t) limit = .error (.malformed .unknownHeader)) ∧
        (header.length ≤ t → TooShort (parse (ω := ω) (bytes.take t) limit))) ∧
      ∀ extra ≠ [], parse (ω := ω) (bytes ++ extra) limit =
        .error (.malformed (.trailingBytes extra.length)) :=
  ⟨fun _ _ _ _ _ hdepth h => ⟨(read_place hdepth h).2.2, fun _ => read_place_take hdepth h⟩,
    fun _ _ h => ⟨fun _ => parse_take h, fun _ => parse_append h⟩⟩

/-- A list with an empty list in it, in the middle of some input, and the envelope of nothing, both
cut and with something else behind them. -/
theorem recognises_truncation_blank :
    (place [0xff, 0xc0, 4, 1, 0xc0, 1, 0, 0x40] 1 0 4).read =
      .ok (.list [.list []] : Value Empty) ⟨[0x40], 7, 0, 4⟩ ∧
    (place [0xff, 0xc0, 4, 1, 0xc0, 1, 0, 0x7f] 1 0 4).read =
      .ok (.list [.list []] : Value Empty) ⟨[0x7f], 7, 0, 4⟩ ∧
    TooShort (outcome ((place [0xff, 0xc0, 4, 1, 0xc0] 1 0 4).read (ω := Empty))) ∧
    ∃ bytes, blank.toBytes = .ok bytes ∧ parse bytes 4 = .ok blank ∧
      parse (ω := Empty) (bytes.take 3) 4 = .error (.malformed .unknownHeader) ∧
      TooShort (parse (ω := Empty) (bytes.take 20) 4) ∧
      parse (ω := Empty) (bytes ++ [0x40, 0x40]) 4 = .error (.malformed (.trailingBytes 2)) := by
  have hread : (place [0xff, 0xc0, 4, 1, 0xc0, 1, 0, 0x40] 1 0 4).read =
      .ok (.list [.list []] : Value Empty) ⟨[0x40], 7, 0, 4⟩ := rfl
  obtain ⟨hagree, hcut⟩ := (recognises_truncation 4).1 _ _ _ _ _ (by decide) hread
  have hparse := parse_blank
  obtain ⟨hshort, hextra⟩ := (recognises_truncation 4).2 _ _ hparse
  exact ⟨hread, hagree [0xff, 0xc0, 4, 1, 0xc0, 1, 0, 0x7f] rfl, hcut 5 (by decide) (by decide),
    _, rfl, hparse, (hshort 3 (by decide)).1 (by decide), (hshort 20 (by decide)).2 (by decide),
    hextra _ (by decide)⟩

end Envelope

end SelfDescribing
