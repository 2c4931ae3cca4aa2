import Mathlib.Logic.Relation
import SelfDescribing.Proofs.Wire.Smallest

namespace SelfDescribing

open Wire Steps

/-!
# Values that cannot be written

Lists and maps are written apart and put into the buffer when they are complete; described values
are written into the buffer itself.  So what a failure leaves depends on what stands around it.

* `Value.children` — what stands directly in a value, with `Value.Inside` and `Value.Occurs`, what
  does at any depth, and `Value.induction_children`.
* `Value.Fits` — what a value needs, apart from its children, to be written; `Value.Encodable` says
  it of everything in a value.
* `Value.encode_complete_iff` — a value is written exactly if it is encodable.
* `Wire.Encoder.write_contained` — this, and what is in the buffer after a failure.

Output is kept with the reason for its failure, if any.  Inside a list or map a failure throws the
bytes of the elements away, and outside of any it leaves what was appended.  Whether there is a
failure does not depend on these bytes but for their number, so that `encode_complete_iff` comes
first.
-/

variable {ω : Type}

namespace Value

/-! ### What stands in a value -/

/-- The elements of a list or map, in the order in which they are written. -/
def elements : Value ω → List (Value ω)
  | list items => items
  | map entries => keysAndValues entries
  | _ => []

/-- What stands directly in a value. -/
def children : Value ω → List (Value ω)
  | described descriptor body => [descriptor, body]
  | v => v.elements

/-- A value stands in another one, at any depth. -/
def Inside : Value ω → Value ω → Prop := Relation.TransGen fun x v => x ∈ v.children

/-- A value stands in another one, at any depth, or is it. -/
def Occurs : Value ω → Value ω → Prop := Relation.ReflTransGen fun x v => x ∈ v.children

/-- The keys and values of a map are those of its entries. -/
theorem mem_keysAndValues {entries : List (Value ω × Value ω)} {x : Value ω} :
    x ∈ keysAndValues entries ↔ ∃ entry ∈ entries, x = entry.1 ∨ x = entry.2 := by
  simp [keysAndValues]

/-- A value is bigger than its children, so that recursion on them ends. -/
theorem sizeOf_lt_of_mem_children {x v : Value ω} (h : x ∈ v.children) : sizeOf x < sizeOf v := by
  cases v with
  | list items =>
    have hitem := List.sizeOf_lt_of_mem (show x ∈ items from h)
    rw [list.sizeOf_spec]
    omega
  | map entries =>
    obtain ⟨entry, hentry, hx⟩ := mem_keysAndValues.1 h
    have hsize := List.sizeOf_lt_of_mem hentry
    have hparts : sizeOf entry = 1 + sizeOf entry.1 + sizeOf entry.2 := Prod.mk.sizeOf_spec _ _
    rw [map.sizeOf_spec]
    rcases hx with rfl | rfl <;> omega
  | described descriptor body =>
    rw [described.sizeOf_spec]
    rcases List.mem_pair.1 h with rfl | rfl <;> omega
  | _ => cases h

/-- What holds of a value if it does of its children holds of all values. -/
theorem induction_children {motive : Value ω → Prop}
    (h : ∀ v, (∀ x ∈ v.children, motive x) → motive v) (v : Value ω) : motive v :=
  h v fun x _ => induction_children h x
termination_by sizeOf v
decreasing_by exact sizeOf_lt_of_mem_children ‹_›

/-- What holds of everything in a value holds of the value, and of everything in its children. -/
theorem forall_occurs_iff {P : Value ω → Prop} {v : Value ω} :
    (∀ x, x.Occurs v → P x) ↔ P v ∧ ∀ child ∈ v.children, ∀ x, x.Occurs child → P x := by
  constructor
  · intro h
    exact ⟨h v .refl, fun child hchild x hx => h x (hx.tail hchild)⟩
  · rintro ⟨hv, hchildren⟩ x hx
    rcases hx.cases_tail with rfl | ⟨child, hx, hchild⟩
    · exact hv
    · exact hchildren child hchild x hx

variable [LiveObject ω]

/-! ### What can be written -/

/-- The bytes that a value has behind a length. -/
def content : Value ω → List UInt8
  | binary bytes => bytes
  | string s | symbol s => utf8Bytes s
  | _ => []

/-- What the elements of a list or map are written as, one after the other. -/
def body (items : List (Value ω)) : List UInt8 := items.flatMap fun x => x.encode.bytes

/-- The size or the count of a list or map does not fit in a byte. -/
def NeedsWide (items : List (Value ω)) : Prop := 256 ≤ (body items).length + 1 ∨ 256 ≤ items.length

/-- What a value needs to be written, apart from what stands in it. -/
structure Fits (v : Value ω) : Prop where
  not_live : ∀ object, v ≠ live object
  content_lt : v.content.length < 2 ^ 32
  body_le : NeedsWide v.elements → (body v.elements).length ≤ 2 ^ 32 - 5

/-- Everything in a value is what it needs to be to be written. -/
def Encodable (v : Value ω) : Prop := ∀ x : Value ω, x.Occurs v → x.Fits

/-- A value can be written if it fits and its children can be written. -/
theorem encodable_iff {v : Value ω} :
    v.Encodable ↔ v.Fits ∧ ∀ child ∈ v.children, child.Encodable :=
  forall_occurs_iff

/-- What is in a value that can be written can be written. -/
theorem Encodable.of_occurs {x v : Value ω} (h : v.Encodable) (hx : x.Occurs v) : x.Encodable :=
  fun y hy => h y (Relation.ReflTransGen.trans hy hx)

/-- A value of fixed size fits. -/
theorem fits_of_plain {v : Value ω} (hlive : ∀ object, v ≠ live object) (hcontent : v.content = [])
    (helements : v.elements = []) : v.Fits := by
  refine ⟨hlive, ?_, ?_⟩
  · rw [hcontent]
    decide
  · rw [helements]
    exact fun _ => Nat.zero_le _

/-! ### Texts and binaries -/

/-- Content is limited by the count in front of it, which takes at most four bytes. -/
theorem variableSize_complete_iff {code : Width → Code} {bytes : List UInt8} :
    (variableSize code bytes).failure = none ↔ bytes.length < 2 ^ 32 := by
  unfold variableSize
  split
  · rename_i hshort
    refine iff_of_true rfl (by omega)
  · show (wideLength _ _).failure = none ↔ _
    unfold wideLength
    split
    · exact iff_of_true rfl ‹_›
    · exact iff_of_false nofun ‹_›

/-! ### Elements -/

/-- Elements are written up to the first one that fails. -/
theorem failure_encodeItems (items : List (Value ω)) :
    (encodeItems items).failure = items.findSome? fun x => x.encode.failure := by
  induction items with
  | nil => rw [encodeItems, List.findSome?_nil, Output.nothing]
  | cons first rest ih =>
    rw [encodeItems, Output.andThen, List.findSome?_cons]
    rcases h : first.encode.failure with - | err
    · exact ih
    · exact h

/-- By induction on the items: they are written if each of them is. -/
theorem encodeItems_complete_iff {items : List (Value ω)} :
    (encodeItems items).failure = none ↔ ∀ x ∈ items, x.encode.failure = none := by
  rw [failure_encodeItems, List.findSome?_eq_none_iff]

/-- What is written for some items is the written forms of each, one behind the other. -/
theorem bytes_encodeItems {items : List (Value ω)} (h : (encodeItems items).failure = none) :
    (encodeItems items).bytes = body items := by
  induction items with
  | nil => rw [encodeItems, Output.nothing, body, List.flatMap_nil]
  | cons first rest ih =>
    rw [encodeItems] at h
    obtain ⟨-, hrest, hbytes⟩ := Output.andThen_complete h
    rw [encodeItems, hbytes, ih hrest, body, body, List.flatMap_cons]

/-- Every element has a byte at least, so that the count fits where the size does. -/
theorem length_le_body {items : List (Value ω)} (h : ∀ x ∈ items, x.encode.failure = none) :
    items.length ≤ (body items).length := by
  induction items with
  | nil => exact Nat.zero_le _
  | cons first rest ih =>
    rw [List.forall_mem_cons] at h
    have hfirst := (first.derives_encode h.1).length_pos
    have hrest := ih h.2
    rw [body, List.flatMap_cons, List.length_append, List.length_cons]
    rw [body] at hrest
    omega

/-- Elements that are written are put into a list or map, unless they are too long for one. -/
theorem compound_complete_iff {code : Width → Code} {items : List (Value ω)}
    (h : ∀ x ∈ items, x.encode.failure = none) :
    (compound code items.length (body items)).failure = none ↔
      (NeedsWide items → (body items).length ≤ 2 ^ 32 - 5) := by
  have hcount := length_le_body h
  unfold compound
  split
  case isTrue hshort =>
    refine iff_of_true rfl fun hwide => ?_
    unfold NeedsWide at hwide
    omega
  case isFalse hlong =>
    have hwide : NeedsWide items := by
      unfold NeedsWide
      omega
    show (wideLength _ _).failure = none ↔ _
    unfold wideLength
    split
    case isTrue hsize =>
      -- There are no more elements than bytes, so that the count fits as well.
      refine iff_of_true ?_ fun _ => by omega
      show (if _ then _ else _ : Output).failure = none
      rw [if_pos (by omega)]
      rfl
    case isFalse hsize =>
      refine iff_of_false nofun fun hbody => hsize ?_
      have := hbody hwide
      omega

/-- A list or map needs its elements to be written, and in the wide form a size for them and their
count in four bytes.  The narrow form has a smaller size already. -/
theorem whole_complete_iff {code : Width → Code} {items : List (Value ω)} :
    ((encodeItems items).whole (compound code items.length)).failure = none ↔
      (NeedsWide items → (body items).length ≤ 2 ^ 32 - 5) ∧
        ∀ x ∈ items, x.encode.failure = none := by
  unfold Output.whole
  split
  case h_1 err herr =>
    refine iff_of_false nofun fun h => ?_
    rw [encodeItems_complete_iff.2 h.2] at herr
    cases herr
  case h_2 hitems =>
    rw [bytes_encodeItems hitems]
    rw [encodeItems_complete_iff] at hitems
    rw [compound_complete_iff hitems, and_iff_left hitems]

omit [LiveObject ω] in
/-- The children of a list or map are its elements. -/
theorem children_eq_elements {v : Value ω}
    (hv : (∃ items, v = list items) ∨ ∃ entries, v = map entries) : v.children = v.elements := by
  rcases hv with ⟨items, rfl⟩ | ⟨entries, rfl⟩ <;> rfl

/-- A list or map that is not the empty list is written apart. -/
theorem encode_eq_whole {v : Value ω} (hv : (∃ items, v = list items) ∨ ∃ entries, v = map entries)
    (hsome : v ≠ list []) :
    ∃ code, v.encode = (encodeItems v.elements).whole (compound code v.elements.length) := by
  rcases hv with ⟨items, rfl⟩ | ⟨entries, rfl⟩
  · have hne : items.isEmpty = false := by
      rcases items with - | ⟨first, rest⟩
      · exact absurd rfl hsome
      · rfl
    refine ⟨.list, ?_⟩
    rw [encode, hne, if_neg Bool.false_ne_true]
    rfl
  · refine ⟨.map, ?_⟩
    rw [encode, encodeEntries_eq, ← length_keysAndValues]
    rfl

/-! ### Values -/

/-- A list or map is written if it fits and its elements are written.  The empty list has a code of
its own and is left out here. -/
theorem elements_complete_iff {v : Value ω}
    (hv : (∃ items, v = list items) ∨ ∃ entries, v = map entries) (hsome : v ≠ list []) :
    v.encode.failure = none ↔ v.Fits ∧ ∀ child ∈ v.children, child.encode.failure = none := by
  obtain ⟨code, hencode⟩ := encode_eq_whole hv hsome
  have hfits : v.Fits ↔ (NeedsWide v.elements → (body v.elements).length ≤ 2 ^ 32 - 5) := by
    refine ⟨Fits.body_le, fun hbody => ⟨?_, ?_, hbody⟩⟩
    · rcases hv with ⟨items, rfl⟩ | ⟨entries, rfl⟩ <;> exact nofun
    · rcases hv with ⟨items, rfl⟩ | ⟨entries, rfl⟩ <;> exact Nat.two_pow_pos 32
  rw [hencode, whole_complete_iff, hfits, children_eq_elements hv]

/-- A value with content is written if its content fits. -/
theorem content_complete_iff {v : Value ω} {code : Width → Code}
    (hencode : v.encode = variableSize code v.content) (hlive : ∀ object, v ≠ live object)
    (hchildren : v.children = []) (helements : v.elements = []) :
    v.encode.failure = none ↔ v.Fits ∧ ∀ child ∈ v.children, child.encode.failure = none := by
  rw [hencode, variableSize_complete_iff, hchildren]
  constructor
  · intro hcontent
    refine ⟨⟨hlive, hcontent, ?_⟩, nofun⟩
    rw [helements]
    exact fun _ => Nat.zero_le _
  · rintro ⟨hfits, -⟩
    exact hfits.content_lt

/-- A value of fixed size is always written. -/
theorem plain_complete_iff {v : Value ω} (hencode : v.encode.failure = none)
    (hlive : ∀ object, v ≠ live object) (hcontent : v.content = []) (hchildren : v.children = [])
    (helements : v.elements = []) :
    v.encode.failure = none ↔ v.Fits ∧ ∀ child ∈ v.children, child.encode.failure = none := by
  refine iff_of_true hencode ⟨fits_of_plain hlive hcontent helements, ?_⟩
  rw [hchildren]
  exact nofun

/-- A value is written exactly if what stands directly in it is, and it fits itself. -/
theorem children_complete_iff (v : Value ω) :
    v.encode.failure = none ↔ v.Fits ∧ ∀ child ∈ v.children, child.encode.failure = none := by
  cases v with
  | binary bytes => exact content_complete_iff (by rw [encode, content]) (by simp) rfl rfl
  | string s => exact content_complete_iff (by rw [encode, content]) (by simp) rfl rfl
  | symbol s => exact content_complete_iff (by rw [encode, content]) (by simp) rfl rfl
  | list items =>
    by_cases hempty : items = []
    · subst hempty
      exact plain_complete_iff rfl (by simp) rfl rfl rfl
    · refine elements_complete_iff (.inl ⟨items, rfl⟩) fun h => hempty ?_
      cases h
      rfl
  | map entries => exact elements_complete_iff (.inr ⟨entries, rfl⟩) (by simp)
  | described descriptor body =>
    have hfits : (described descriptor body).Fits := fits_of_plain (by simp) rfl rfl
    rw [and_iff_right hfits, encode]
    show (Output.andThen _ _).failure = none ↔ ∀ child ∈ [descriptor, body], _
    unfold Output.andThen
    rcases hdescriptor : descriptor.encode.failure with - | err <;> simp [hdescriptor]
  | live object =>
    rw [encode]
    exact iff_of_false (by simp [Output.fail]) fun h => h.1.not_live object rfl
  | bool b =>
    refine plain_complete_iff ?_ (by simp) rfl rfl rfl
    cases b <;> rfl
  -- Numbers have shorter forms, all of a fixed size.
  | uint n | int n | ulong n | long n =>
    refine plain_complete_iff ?_ (by simp) rfl rfl rfl
    rw [encode]
    split_ifs <;> rfl
  | _ => exact plain_complete_iff rfl (by simp) rfl rfl rfl

/-- One case for each constructor: a value is written if it fits and its children are written. -/
theorem encode_complete_iff (v : Value ω) : v.encode.failure = none ↔ v.Encodable := by
  induction v using induction_children with
  | h v ih =>
    rw [children_complete_iff, encodable_iff]
    refine and_congr_right fun _ => ?_
    exact forall₂_congr ih

/-- What stands in a value that is written is written. -/
theorem complete_of_occurs {x v : Value ω} (hx : x.Occurs v) (h : v.encode.failure = none) :
    x.encode.failure = none :=
  (encode_complete_iff x).2 (((encode_complete_iff v).1 h).of_occurs hx)

/-- If a value is written, its children are. -/
theorem complete_of_child {x v : Value ω} (h : v.encode.failure = none) (hx : x ∈ v.children) :
    x.encode.failure = none :=
  ((children_complete_iff v).1 h).2 x hx

/-- What cannot be written keeps what it stands in from being written, by way of a child. -/
theorem exists_child_of_inside {x v : Value ω} (hx : x.Inside v) (hfails : ¬ x.Encodable) :
    ∃ child ∈ v.children, child.encode.failure ≠ none := by
  obtain ⟨child, hoccurs, hchild⟩ := Relation.TransGen.tail'_iff.1 hx
  refine ⟨child, hchild, fun hcomplete => hfails ?_⟩
  exact (encode_complete_iff x).1 (complete_of_occurs hoccurs hcomplete)

end Value

/-! ### The buffer -/

namespace Wire.Encoder

open Value

variable [LiveObject ω] {v : Value ω} {e e' : Encoder} {err : Error}

/-- What can be written is appended as a whole. -/
theorem write_of_complete (h : v.encode.failure = none) (e : Encoder) :
    write v e = .ok () (e.writeRaw v.encode.bytes) :=
  write_eq_ok_iff.2 ⟨h, rfl⟩

/-- What cannot be written leaves the bytes behind that were appended in front of the failure. -/
theorem write_of_failure (h : v.encode.failure = some err) (e : Encoder) :
    write v e = .error err (e.writeRaw v.encode.bytes) := by
  simp only [write, h]

/-- Whether writing succeeds or fails, the encoder is the former one with the bytes of the value
behind it. -/
theorem final_write (v : Value ω) (e : Encoder) :
    final (write v e) = e.writeRaw v.encode.bytes := by
  rcases h : v.encode.failure with - | err
  · rw [write_of_complete h, final]
  · rw [write_of_failure h, final]

/-- A value can be written behind anything, or behind nothing. -/
theorem exists_write_iff (v : Value ω) (e : Encoder) :
    (∃ e', write v e = .ok () e') ↔ v.Encodable := by
  rw [← encode_complete_iff]
  constructor
  · rintro ⟨e', hwrite⟩
    exact (write_eq_ok_iff.1 hwrite).1
  · exact fun hcomplete => ⟨_, write_of_complete hcomplete e⟩

/-- Appending twice is appending once. -/
theorem writeRaw_writeRaw (e : Encoder) (front back : List UInt8) :
    (e.writeRaw front).writeRaw back = e.writeRaw (front ++ back) := by
  rw [writeRaw, writeRaw, writeRaw, List.append_assoc]

/-- A list or map is given up with its first element that fails, and nothing of it is written. -/
theorem write_of_failing_element (hv : (∃ items, v = list items) ∨ ∃ entries, v = map entries)
    (h : v.elements.findSome? (fun x => x.encode.failure) = some err) (e : Encoder) :
    write v e = .error err e := by
  have hsome : v ≠ list [] := by
    rintro rfl
    cases h
  obtain ⟨code, hencode⟩ := encode_eq_whole hv hsome
  have hfail : v.encode = .fail err := by
    rw [hencode, Output.whole, failure_encodeItems, h]
  have hfailure : v.encode.failure = some err := by rw [hfail, Output.fail]
  rw [write_of_failure hfailure, hfail, Output.fail, writeRaw, List.append_nil]

/-- A described value is its marker and then its parts, all written into the buffer itself. -/
theorem write_described (descriptor body : Value ω) (e : Encoder) :
    write (described descriptor body) e =
      (write descriptor >>= fun _ => write body) (e.writeRaw [0x00]) := by
  rcases hdescriptor : descriptor.encode.failure with - | err
  · rw [bind_ok (write_of_complete hdescriptor _)]
    simp only [write, encode, Output.after, Output.andThen, hdescriptor, writeRaw_writeRaw,
      Code.toByte, List.append_assoc]
  · rw [bind_error (write_of_failure hdescriptor _)]
    simp only [write, encode, Output.after, Output.andThen, hdescriptor, writeRaw_writeRaw,
      Code.toByte]

/-- Writing succeeds exactly for what is encodable, and keeps what was in the buffer.  A list or map
with something in it, at any depth, that cannot be written leaves the buffer as it was, and fails as
the first of its elements that does.  A described value that fails leaves its marker and what its
descriptor leaves, if that fails, or the whole descriptor and what its body leaves. -/
theorem write_contained (v : Value ω) (e : Encoder) :
    ((∃ e', write v e = .ok () e') ↔ v.Encodable) ∧
    e.buffer <+: (final (write v e)).buffer ∧
    ((∃ items, v = list items) ∨ (∃ entries, v = map entries) →
      ∀ x : Value ω, x.Inside v → ¬ x.Encodable →
      ∃ front first back err e₁, v.elements = front ++ first :: back ∧
        (∀ y ∈ front, y.Encodable) ∧ write first empty = .error err e₁ ∧
        write v e = .error err e) ∧
    ∀ descriptor body err e', v = described descriptor body → write v e = .error err e' →
      write descriptor (e.writeRaw [0x00]) = .error err e' ∨
      write descriptor (e.writeRaw [0x00]) =
          .ok () (e.writeRaw (0x00 :: descriptor.encode.bytes)) ∧
        write body (e.writeRaw (0x00 :: descriptor.encode.bytes)) = .error err e' := by
  refine ⟨exists_write_iff v e, ?_, ?_, ?_⟩
  · rw [final_write]
    exact List.prefix_append _ _
  · intro hv x hx hfails
    -- An element that holds what cannot be written fails, so that there is a first one that does.
    obtain ⟨child, hchild, hfailure⟩ := exists_child_of_inside hx hfails
    rw [children_eq_elements hv] at hchild
    rcases hfirst : v.elements.findSome? (fun x => x.encode.failure) with - | err
    · exact absurd (List.findSome?_eq_none_iff.1 hfirst child hchild) hfailure
    · obtain ⟨front, first, back, helements, hfirstFails, hfront⟩ :=
        List.findSome?_eq_some_iff.1 hfirst
      refine ⟨front, first, back, err, _, helements, ?_, write_of_failure hfirstFails _,
        write_of_failing_element hv hfirst e⟩
      exact fun y hy => (encode_complete_iff y).1 (hfront y hy)
  · rintro descriptor body err e' rfl hwrite
    rw [write_described] at hwrite
    rcases hdescriptor : descriptor.encode.failure with - | err'
    · have hfirst : write descriptor (e.writeRaw [0x00]) =
          .ok () (e.writeRaw (0x00 :: descriptor.encode.bytes)) := by
        rw [write_of_complete hdescriptor, writeRaw_writeRaw, List.singleton_append]
      rw [bind_ok hfirst] at hwrite
      exact .inr ⟨hfirst, hwrite⟩
    · have hfirst := write_of_failure hdescriptor (e.writeRaw [0x00])
      rw [bind_error hfirst] at hwrite
      cases hwrite
      exact .inl hfirst

/-- The described value in the list leaves nothing of itself, and the one around the list its marker
and its descriptor. -/
example (object : ω) (e : Encoder) :
    write (described (symbol "a") (list [described null (live object)])) e =
      .error (.malformed (.liveObject (LiveObject.hostType object).name))
        (e.writeRaw [0x00, 0xa3, 0x01, 0x61]) := rfl

end Wire.Encoder

end SelfDescribing
