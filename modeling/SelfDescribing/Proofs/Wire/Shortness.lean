import SelfDescribing.Proofs.Wire.InUse

namespace SelfDescribing.Wire.Cursor

open Steps

/-!
# What is reported as too short

A step that finds too few bytes says how many it asked for, how many there are, and where.

* `Lies` — a cursor is at a place in some data.
* `Undersized` — a list or map whose size does not even cover its count ends there.
* `Shortage` — what such a report means: where the cursor was left, how many bytes the data has from
  there on, and that these are too few, or that a size in front of them was.
* `Reports` — a step goes on, and what it reports as too short is a shortage.
* `bufferTooShort_used` — reading and taking report shortages, wherever a cursor in use is, and a
  size that does not cover its count is always reported as one.

The property is about a cursor that lies in some data and about the step that fails there, so that
it survives any calls made before.  Only lists and maps need to know what stands in front of the
cursor, since they alone report a count that the size does not cover.
-/

variable {ω α β : Type} {data : List UInt8}

/-! ### Reports -/

/-- A place in some data, with the bytes behind it and in front of it. -/
def Lies (data : List UInt8) (c : Cursor) : Prop :=
  ∃ front, data = front ++ c.rest ∧ c.position = front.length

/-- The code of a list or map stands in front of `position`, then a size smaller than its width. -/
def Undersized (data : List UInt8) (position : Nat) (w : Width) : Prop :=
  ∃ front code size, (code = .list w ∨ code = .map w) ∧ size < w.size ∧
    data.take position = front ++ Code.toByte code :: bigEndian w.size size

/-- The meaning of a report that leaves the cursor at `c`. -/
structure Shortage (data : List UInt8) (c : Cursor) (requested available position : Nat) :
    Prop where
  position_eq : position = c.position
  position_le : position ≤ data.length
  available_eq : available = data.length - position
  cause : available < requested ∨ ∃ w : Width, requested = w.size ∧ Undersized data position w

/-- From `c`, what a step reports as too short is a shortage. -/
def ReportsAt (data : List UInt8) (x : Reader α) (c : Cursor) : Prop :=
  ∀ requested available position c',
    x c = .error (.bufferTooShort requested available position) c' →
    Shortage data c' requested available position

/-- A step goes on, and what it reports as too short is a shortage. -/
structure Reports (data : List UInt8) (x : Reader α) : Prop where
  onward : Onward x
  at_lies : ∀ c, Lies data c → ReportsAt data x c

/-- A cursor that goes on lies in the same data. -/
theorem Lies.advances {c c' : Cursor} (hc : Lies data c) (h : c.Advances c') : Lies data c' := by
  obtain ⟨front, rfl, hfront⟩ := hc
  obtain ⟨bytes, hrest, hposition⟩ := h.exists_bytes
  refine ⟨front ++ bytes, ?_, ?_⟩
  · rw [hrest, List.append_assoc]
  · rw [hposition, hfront, List.length_append]

/-- Too few bytes from a place on are a shortage. -/
theorem Lies.shortage {c : Cursor} (hc : Lies data c) {requested : Nat}
    (hcause : c.remaining < requested ∨
      ∃ w : Width, requested = w.size ∧ Undersized data c.position w) :
    Shortage data c requested c.remaining c.position := by
  obtain ⟨front, rfl, hfront⟩ := hc
  refine ⟨rfl, ?_, ?_, hcause⟩
  · rw [List.length_append]
    omega
  · rw [List.length_append, hfront, remaining]
    omega

/-- A sequence reports what its first part does, or what the second one does from there. -/
theorem ReportsAt.bind {x : Reader α} {f : α → Reader β} {c : Cursor} (hx : ReportsAt data x c)
    (hf : ∀ a c₁, x c = .ok a c₁ → ReportsAt data (f a) c₁) : ReportsAt data (x >>= f) c := by
  intro requested available position c' herror
  cases h : x c with
  | ok a c₁ =>
    rw [bind_ok h] at herror
    exact hf a c₁ h _ _ _ _ herror
  | error e c₁ =>
    rw [bind_error h] at herror
    cases herror
    exact hx _ _ _ _ h

namespace Reports

/-- A step that does nothing reports nothing. -/
theorem pure (a : α) : Reports data (Pure.pure a : Reader α) :=
  ⟨.pure a, fun c _ _ _ _ _ herror => by cases herror⟩

/-- Malformed values are reported by other errors. -/
theorem malformed (fault : Malformed) : Reports data (throw (.malformed fault) : Reader α) :=
  ⟨.throw _, fun c _ _ _ _ _ herror => by cases herror⟩

/-- Asking for the position reports nothing. -/
theorem here : Reports data Cursor.here :=
  ⟨⟨.refl⟩, fun c _ _ _ _ _ herror => by cases herror⟩

/-- The second step begins where the first one ended, which is a place in the same data. -/
theorem bind {x : Reader α} {f : α → Reader β} (hx : Reports data x)
    (hf : ∀ a, Reports data (f a)) : Reports data (x >>= f) := by
  refine ⟨hx.onward.bind fun a => (hf a).onward, fun c hc => ?_⟩
  apply (hx.at_lies c hc).bind
  intro a c₁ hok
  have hadvances := hx.onward.to_final c
  rw [hok] at hadvances
  exact (hf a).at_lies c₁ (hc.advances hadvances)

/-- Bytes that cannot be taken are the one shortage of most steps: it asks for what was wanted and
says what is left. -/
theorem take (n : Nat) : Reports data (Cursor.take n) := by
  refine ⟨Onward.take n, ?_⟩
  intro c hc requested available position c' herror
  unfold Cursor.take at herror
  split at herror
  case isTrue => cases herror
  case isFalse hhas =>
    cases herror
    rw [has_iff] at hhas
    exact hc.shortage (.inl (Nat.not_le.1 hhas))

/-- Entering a level reports no shortage, and leaving it does not fail. -/
theorem nested {x : Reader α} (hx : Reports data x) : Reports data (Cursor.nested x) := by
  refine ⟨hx.onward.nested, ?_⟩
  intro c hc requested available position c' herror
  by_cases hfree : c.depth < c.limit
  · rw [nested_of_free hfree] at herror
    cases h : x { c with depth := c.depth + 1 } with
    | ok a c₁ =>
      rw [h] at herror
      cases herror
    | error e c₁ =>
      rw [h] at herror
      cases herror
      exact hx.at_lies { c with depth := c.depth + 1 } hc _ _ _ _ h
  · rw [nested_of_full (Nat.not_lt.1 hfree)] at herror
    cases herror

/-- A number is short of bytes where its bytes are. -/
theorem readNumber (width : Nat) : Reports data (Cursor.readNumber width) :=
  (take width).bind fun _ => .pure _

/-- A text is short of bytes where its bytes are. -/
theorem readText (length start : Nat) : Reports data (Cursor.readText length start) := by
  apply (take length).bind
  intro bytes
  split
  · exact .pure _
  · exact .malformed _

variable {read : Reader (Value ω)}

/-- By induction on how many elements are left: the loop reports what its reader reports. -/
theorem readElements (hread : Reports data read) (start finish count left : Nat) :
    Reports data (Cursor.readElements read start finish count left) := by
  induction left with
  | zero => exact .pure _
  | succ left ih =>
    rw [readElements_succ]
    apply Reports.here.bind
    intro p
    split
    · exact .malformed _
    · exact hread.bind fun v => ih.bind fun rest => .pure _

end Reports

/-! ### Behind a code -/

section Behind

variable {read : Reader (Value ω)} {c : Cursor} {front : List UInt8} {code : Code}

/-- The code just read stands in front of the cursor. -/
structure Behind (data front : List UInt8) (code : Code) (c : Cursor) : Prop where
  data_eq : data = front ++ code.toByte :: c.rest
  position_eq : c.position = front.length + 1

/-- Behind a code, the cursor lies in the data. -/
theorem Behind.lies (h : Behind data front code c) : Lies data c := by
  refine ⟨front ++ [code.toByte], ?_, ?_⟩
  · rw [h.data_eq, List.append_assoc, List.singleton_append]
  · rw [h.position_eq, List.length_append, List.length_singleton]

/-- A size is found too short if it does not cover its count, or if fewer bytes are left. -/
theorem reportsAt_checkSize {w : Width} (hcode : code = .list w ∨ code = .map w) {size : Nat}
    {c₁ : Cursor} (hc : Behind data front code c) (hpass : c.Passes (bigEndian w.size size) c₁) :
    ReportsAt data (checkSize size w.size) c₁ := by
  intro requested available position c' herror
  have hlies : Lies data c₁ := hc.lies.advances (.of_passes hpass)
  unfold checkSize at herror
  split at herror
  case isFalse => cases herror
  case isTrue hfails =>
    cases herror
    apply hlies.shortage
    -- The check fails for one of two reasons, of which only the second is a shortage of bytes.
    by_cases hsize : size < w.size
    · refine .inr ⟨w, Nat.max_eq_right hsize.le, front, code, size, hcode, hsize, ?_⟩
      have hposition :
          c₁.position = (front ++ code.toByte :: bigEndian w.size size).length := by
        rw [hpass.position, hc.position_eq, List.length_append, List.length_cons]
        omega
      rw [hc.data_eq, hpass.rest, ← List.cons_append, ← List.append_assoc, hposition,
        List.take_left]
    · have hfew : ¬ size ≤ c₁.rest.length := by
        rw [← has_iff]
        simpa [hsize] using hfails
      exact .inl (Nat.lt_of_lt_of_le (Nat.not_le.1 hfew) (Nat.le_max_left _ _))

/-- The one place with a report of its own: a size smaller than its count asks for the width of the
count, whatever is left. -/
theorem reportsAt_readCompound (hread : Reports data read) {w : Width}
    (hcode : code = .list w ∨ code = .map w) (start : Nat) (hc : Behind data front code c) :
    ReportsAt data (readCompound read w start) c := by
  rw [readCompound_eq]
  apply ((Reports.readNumber w.size).at_lies c hc.lies).bind
  intro size c₁ hsize
  obtain ⟨-, hpass⟩ := readNumber_eq_ok_iff.1 hsize
  apply (reportsAt_checkSize hcode hc hpass).bind
  intro _ c₂ hcheck
  obtain ⟨-, rfl⟩ := checkSize_eq_ok hcheck
  -- What follows the size reports shortages from every place.
  refine Reports.at_lies (.bind .here fun p => .bind (.readNumber _) fun count =>
    .bind (.nested (hread.readElements _ _ _ _)) fun items => .bind .here fun q => ?_) c₂
    (hc.lies.advances (.of_passes hpass))
  split
  · exact .malformed _
  · exact .pure _

/-- Behind its code, each kind of value reports the shortages of its steps. -/
theorem reportsAt_readBody (hread : Reports data read) (start : Nat)
    (hc : Behind data front code c) : ReportsAt data (readBody read start code) c := by
  cases code with
  -- Values inside report at places of their own, further on.
  | described =>
    rw [readBody_described]
    have hboth : Reports data (do return (← read, ← read)) :=
      hread.bind fun _ => hread.bind fun _ => .pure _
    exact (hboth.nested.bind fun _ => .pure _).at_lies c hc.lies
  | fixed code =>
    refine Reports.at_lies (.bind (.readNumber _) fun n => ?_) c hc.lies
    split
    · exact .pure _
    · exact .malformed _
  | binary w =>
    exact Reports.at_lies (.bind (.readNumber _) fun _ => .bind (.take _) fun _ => .pure _) c
      hc.lies
  | string w =>
    exact Reports.at_lies (.bind (.readNumber _) fun _ => .bind (.readText _ _) fun _ => .pure _) c
      hc.lies
  | symbol w =>
    exact Reports.at_lies (.bind (.readNumber _) fun _ => .bind (.readText _ _) fun _ => .pure _) c
      hc.lies
  -- Lists and maps have the check of their size behind the code, where the code is known.
  | list w =>
    apply (reportsAt_readCompound hread (.inl rfl) start hc).bind
    intro items c₁ _ requested available position c' herror
    cases herror
  | map w =>
    apply (reportsAt_readCompound hread (.inr rfl) start hc).bind
    intro items c₁ _ requested available position c' herror
    split at herror <;> cases herror

end Behind

namespace Reports

/-- What the reader inside reports is reported. -/
theorem readWith {read : Reader (Value ω)} (hread : Reports data read) :
    Reports data (Cursor.readWith read) := by
  refine ⟨@Nests.readWith ω read read _ _ Onward.nests hread.onward, fun c hc => ?_⟩
  rw [readWith_eq]
  apply (here.at_lies c hc).bind
  intro start c₁ hhere
  cases hhere
  have hbyte : Reports data readByte := (readNumber 1).bind fun _ => .pure _
  apply (hbyte.at_lies c hc).bind
  intro b c₁ hb
  have hpass := readByte_eq_ok_iff.1 hb
  -- What is reported further on may refer to the code, which is the byte just read.
  unfold readCoded
  split
  case h_1 code hcode =>
    obtain ⟨front, hdata, hposition⟩ := hc
    rw [Code.ofByte?_eq_some_iff] at hcode
    have hbehind : Behind data front code c₁ := by
      constructor
      · rw [hdata, hpass.rest, hcode, List.singleton_append]
      · rw [hpass.position, hposition, List.length_singleton]
    exact reportsAt_readBody hread c.position hbehind
  case h_2 =>
    intro _ _ _ _ herror
    cases herror

/-- By induction on the room: every shortage reported is one of the two kinds. -/
theorem readWithin (room : Nat) : Reports data (Cursor.readWithin (ω := ω) room) := by
  induction room with
  | zero => exact readWith ⟨⟨.refl⟩, fun c _ _ _ _ _ herror => by cases herror⟩
  | succ room ih => exact readWith ih

/-- With the room that there is, every shortage reported is one of the two kinds. -/
theorem read : Reports data (Cursor.read : Reader (Value ω)) :=
  ⟨Onward.read, fun c => (readWithin (c.limit - c.depth)).at_lies c⟩

end Reports

/-- A size that does not cover its count is reported as too short, whatever stands behind it. -/
theorem read_of_undersized {c c' : Cursor} {code : Code} {w : Width} {size : Nat}
    (hcode : code = .list w ∨ code = .map w) (hsize : size < w.size)
    (hpass : c.Passes (code.toByte :: bigEndian w.size size) c') :
    Cursor.read (ω := ω) c = .error (.bufferTooShort w.size c'.remaining c'.position) c' := by
  obtain ⟨c₁, hbyte, hnumber⟩ := hpass.uncons
  have hfits : size < 256 ^ w.size := hsize.trans (Nat.lt_pow_self (by decide))
  have hcheck : checkSize size w.size c' =
      .error (.bufferTooShort w.size c'.remaining c'.position) c' := by
    simp [checkSize, hsize, tooShort, Nat.max_eq_right hsize.le]
  have hcompound : ∀ start, readCompound (ω := ω) Cursor.read w start c₁ =
      .error (.bufferTooShort w.size c'.remaining c'.position) c' := by
    intro start
    rw [readCompound_eq, bind_ok (readNumber_eq_ok_iff.2 ⟨hfits, hnumber⟩), bind_error hcheck]
  rw [read_eq_readWith, readWith_of_code hbyte]
  rcases hcode with rfl | rfl
  · rw [readBody, bind_error (hcompound _)]
  · rw [readBody, bind_error (hcompound _)]

/-- After any calls, taking and reading report as too short only that there are fewer bytes from
where the cursor was left to the end of the data than asked for, or that the size in front of the
cursor does not cover the count of its list or map.  The latter is reported however many bytes
follow. -/
theorem bufferTooShort_used (data : List UInt8) (limit : Nat) (calls : List Call) {c : Cursor}
    (hc : (start data limit).used ω calls = c) :
    (∀ n requested available position c',
      take n c = .error (.bufferTooShort requested available position) c' →
      c' = c ∧ position = c.position ∧ available = data.length - position ∧
        requested = n ∧ available < requested) ∧
    (∀ requested available position c',
      Cursor.read (ω := ω) c = .error (.bufferTooShort requested available position) c' →
      Shortage data c' requested available position) ∧
    ∀ code w size c', code = .list w ∨ code = .map w → size < w.size →
      c.Passes (Code.toByte code :: bigEndian w.size size) c' →
      Cursor.read (ω := ω) c =
        .error (.bufferTooShort w.size c'.remaining c'.position) c' := by
  -- After any calls the cursor lies in the data, and this is all that the reports depend on.
  have hlies : Lies data c := by
    rw [← hc]
    exact Lies.advances ⟨[], rfl, rfl⟩ (advances_used ω (start data limit) calls)
  refine ⟨?_, Reports.read.at_lies c hlies, ?_⟩
  · intro n requested available position c' herror
    have hshort := (Reports.take n).at_lies c hlies _ _ _ _ herror
    unfold take at herror
    split at herror
    case isTrue => cases herror
    case isFalse hhas =>
      cases herror
      rw [has_iff, Nat.not_le] at hhas
      exact ⟨rfl, rfl, hshort.available_eq, rfl, hhas⟩
  · intro code w size c' hcode hsize hpass
    exact read_of_undersized hcode hsize hpass

/-- A list that announces no bytes, not even for its count, with three more bytes behind it. -/
def uncounted : List UInt8 := [0x45, 0xc0, 0x00, 0x00, 0x40, 0x40]

/-- Reading it asks for a byte where three are left. -/
theorem bufferTooShort_used_uncounted : ∃ c c' : Cursor,
    (start uncounted 2).used Empty [.take 1] = c ∧
    c.read (ω := Empty) = .error (.bufferTooShort 1 3 3) c' ∧
    Shortage uncounted c' 1 3 3 ∧
    take 9 c = .error (.bufferTooShort 9 5 1) c ∧ 5 < 9 := by
  obtain ⟨htake, hread, hundersized⟩ := bufferTooShort_used (ω := Empty) uncounted 2 [.take 1] rfl
  have herror := hundersized (.list .narrow) .narrow 0 ⟨[0x00, 0x40, 0x40], 3, 0, 2⟩ (.inl rfl)
    (by decide) ⟨rfl, rfl, rfl, rfl⟩
  exact ⟨_, _, rfl, herror, hread _ _ _ _ herror, rfl, (htake 9 9 5 1 _ rfl).2.2.2.2⟩

end SelfDescribing.Wire.Cursor
