import SelfDescribing.Envelope.Basic
import SelfDescribing.Proofs.Value.Parts
import SelfDescribing.Proofs.Wire.Failing

namespace SelfDescribing

open Wire

/-!
# Payloads that are too long

Values without live objects fail to be written only at something that is longer than 32 bits can
say.  Schemas have no live objects.

* `Wire.Output.Overflows` — an output that fails at a length, if at all.
* `Value.Inert` — a value whose output does.
* `Value.PartOf.complete` — what stands in a value that is written is written, so that no live
  object does.
* `Envelope.toBytes_cases` — what becomes of an envelope whose body is inert.

Writing stops at a live object or at a length that does not fit.  A value is inert if what stands in
it is, and so the lemmas follow the structure of schemas from the inside out; of the body no more is
assumed than that it is inert itself.
-/

variable {ω : Type} [LiveObject ω]

/-! ### Outputs -/

namespace Wire

/-- An output that fails, if at all, at a length that does not fit. -/
structure Output.Overflows (o : Output) : Prop where
  of_failure : ∀ {err}, o.failure = some err → ∃ n, err = .malformed (.lengthOverflow n)

namespace Output.Overflows

variable {o first : Output} {next : Unit → Output} {wrap : List UInt8 → Output}

/-- What is written to its end does not fail at all. -/
theorem of_complete (h : o.failure = none) : o.Overflows :=
  ⟨fun herr => nomatch h.symm.trans herr⟩

/-- What stands in front of it does not matter. -/
theorem after (h : o.Overflows) (front : List UInt8) : (Output.after front o).Overflows :=
  ⟨h.of_failure⟩

/-- Two outputs in turn fail with nothing else if neither does. -/
theorem andThen (hfirst : first.Overflows) (hnext : (next ()).Overflows) :
    (first.andThen next).Overflows := by
  unfold Output.andThen
  split
  · exact hfirst
  · exact ⟨hnext.of_failure⟩

/-- An output that is wrapped once it is there fails with nothing else if neither it nor the
wrapping does. -/
theorem whole (h : o.Overflows) (hwrap : (wrap o.bytes).Overflows) :
    (o.whole wrap).Overflows := by
  unfold Output.whole
  split
  · rename_i e he
    refine ⟨fun herr => ?_⟩
    cases herr
    exact h.of_failure he
  · exact hwrap

/-- A length that does not fit into four bytes is an overflow, and what follows is written
otherwise. -/
theorem wideLength {n : Nat} {next : List UInt8 → Output} (h : ∀ bytes, (next bytes).Overflows) :
    (Wire.wideLength n next).Overflows := by
  unfold Wire.wideLength
  split
  · exact h _
  · refine ⟨fun herr => ?_⟩
    cases herr
    exact ⟨n, rfl⟩

/-- Bytes behind their own length fail only for their length. -/
theorem variableSize (code : Width → Code) (bytes : List UInt8) :
    (Wire.variableSize code bytes).Overflows := by
  unfold Wire.variableSize
  split
  · exact of_complete rfl
  · exact (wideLength fun length => of_complete rfl).after _

/-- A list or map behind its size and count fails only for these. -/
theorem compound (code : Width → Code) (count : Nat) (body : List UInt8) :
    (Wire.compound code count body).Overflows := by
  unfold Wire.compound
  split
  · exact of_complete rfl
  · exact (wideLength fun size =>
      (wideLength fun count => of_complete rfl).after size).after _

end Output.Overflows

end Wire

/-! ### Values -/

namespace Value

/-- A value that is written, unless something in it is too long. -/
def Inert (v : Value ω) : Prop := v.encode.Overflows

theorem inert_of_complete {v : Value ω} (h : v.encode.failure = none) : v.Inert := .of_complete h

theorem inert_null : (null : Value ω).Inert := .of_complete rfl

/-- A text fails only for its length. -/
theorem inert_string (s : String) : (string s : Value ω).Inert := .variableSize _ _

/-- A symbol fails only for its length. -/
theorem inert_symbol (s : String) : (symbol s : Value ω).Inert := .variableSize _ _

/-- A truth value is always written. -/
theorem inert_bool (b : Bool) : (bool b : Value ω).Inert := by
  cases b <;> exact .of_complete rfl

/-- A number is always written. -/
theorem inert_ulong (n : UInt64) : (ulong n : Value ω).Inert := by
  rw [Inert, encode]
  split
  · exact .of_complete rfl
  · split <;> exact .of_complete rfl

/-- Items fail with nothing else if none of them does. -/
theorem overflows_encodeItems {items : List (Value ω)} (h : ∀ v ∈ items, v.Inert) :
    (encodeItems items).Overflows := by
  induction items with
  | nil => exact .of_complete rfl
  | cons v rest ih =>
    rw [List.forall_mem_cons] at h
    rw [encodeItems]
    exact .andThen h.1 (ih h.2)

/-- A list fails with nothing else if none of its items does. -/
theorem inert_list {items : List (Value ω)} (h : ∀ v ∈ items, v.Inert) : (list items).Inert := by
  rw [Inert, encode]
  split
  · exact .of_complete rfl
  · exact .whole (overflows_encodeItems h) (.compound _ _ _)

/-- A described value fails with nothing else if its descriptor and body do not. -/
theorem inert_described {descriptor body : Value ω} (hdescriptor : descriptor.Inert)
    (hbody : body.Inert) : (described descriptor body).Inert := by
  have hboth : (descriptor.encode.andThen fun _ => body.encode).Overflows :=
    .andThen hdescriptor hbody
  rw [Inert, encode]
  exact hboth.after _

/-- The items of a list that is written are written. -/
theorem complete_of_list {items : List (Value ω)} (h : (list items).encode.failure = none)
    {v : Value ω} (hv : v ∈ items) : v.encode.failure = none :=
  complete_of_child h hv

/-- A described value is written to its end only if its body is. -/
theorem complete_of_described {descriptor body : Value ω}
    (h : (described descriptor body).encode.failure = none) : body.encode.failure = none :=
  complete_of_child h (List.mem_pair.2 (.inr rfl))

omit [LiveObject ω] in
/-- A part that reading may ask for occurs in the value. -/
theorem PartOf.occurs {v w : Value ω} (h : v.PartOf w) : v.Occurs w := by
  induction h with
  | refl => exact .refl
  | item hmem _ ih => exact ih.tail hmem
  | key hmem _ ih => exact ih.tail (mem_keysAndValues.2 ⟨_, hmem, .inl rfl⟩)
  | value hmem _ ih => exact ih.tail (mem_keysAndValues.2 ⟨_, hmem, .inr rfl⟩)
  | body _ ih => exact ih.tail (List.mem_pair.2 (.inr rfl))

/-- What stands in a value that is written is written. -/
theorem PartOf.complete {v w : Value ω} (h : v.PartOf w) (hw : w.encode.failure = none) :
    v.encode.failure = none :=
  complete_of_occurs h.occurs hw

/-- A value with an object in it is never written to its end. -/
theorem holdsNoObject_of_complete {v : Value ω} (h : v.encode.failure = none) :
    v.HoldsNoObject := by
  intro object hpart
  have hobject := hpart.complete h
  rw [encode] at hobject
  cases hobject

end Value

/-! ### Schemas -/

open Value

/-- Behind a descriptor, which is always written, the body decides. -/
theorem Descriptor.inert_describe (d : Descriptor) {body : Value ω} (h : body.Inert) :
    (d.describe body).Inert := by
  refine inert_described ?_ h
  rw [toValue]
  split
  · exact inert_ulong _
  · exact inert_symbol _

/-- A list under a known descriptor fails with nothing else if its items do not. -/
theorem WellKnown.inert_describe (w : WellKnown) {items : List (Value ω)}
    (h : ∀ v ∈ items, v.Inert) : (w.describe items).Inert :=
  w.descriptor.inert_describe (inert_list h)

theorem inert_optionalText (text : Option String) : (optionalText text : Value ω).Inert := by
  cases text with
  | none => exact inert_null
  | some s => exact inert_string s

/-- A list of texts fails only for lengths. -/
theorem inert_textList (texts : List String) : (textList texts : Value ω).Inert := by
  refine inert_list fun v hv => ?_
  obtain ⟨s, -, rfl⟩ := List.mem_map.1 hv
  exact inert_string s

/-- The entry of a descriptor fails only for lengths. -/
theorem Descriptor.inert_toEntry (d : Descriptor) : (d.toEntry : Value ω).Inert := by
  refine WellKnown.inert_describe _ ?_
  simp only [List.forall_mem_cons]
  refine ⟨inert_symbol _, ?_, fun v hv => nomatch hv⟩
  cases d.code with
  | none => exact inert_null
  | some code => exact inert_ulong code

/-- A field fails only for lengths. -/
theorem Field.inert_toValue (f : Field) : (f.toValue : Value ω).Inert := by
  refine WellKnown.inert_describe _ ?_
  simp only [List.forall_mem_cons]
  exact ⟨inert_string _, inert_string _, inert_bool _, fun v hv => nomatch hv⟩

/-- A notation fails only for lengths. -/
theorem TypeNotation.inert_toValue (type : TypeNotation) : (type.toValue : Value ω).Inert := by
  cases type with
  | composite c =>
    have hfields : (Value.list (c.fields.map Field.toValue) : Value ω).Inert := by
      refine inert_list fun v hv => ?_
      obtain ⟨f, -, rfl⟩ := List.mem_map.1 hv
      exact f.inert_toValue
    refine WellKnown.inert_describe _ ?_
    simp only [List.forall_mem_cons]
    exact ⟨inert_string _, inert_optionalText _, inert_textList _, c.descriptor.inert_toEntry,
      hfields, fun v hv => nomatch hv⟩
  | restricted r =>
    refine WellKnown.inert_describe _ ?_
    simp only [List.forall_mem_cons]
    exact ⟨inert_string _, inert_optionalText _, inert_textList _, inert_string _,
      r.descriptor.inert_toEntry, fun v hv => nomatch hv⟩

/-- A schema fails only for lengths. -/
theorem Schema.inert_toValue (s : Schema) : (s.toValue : Value ω).Inert := by
  refine WellKnown.inert_describe _ ?_
  simp only [List.forall_mem_cons]
  refine ⟨inert_list fun v hv => ?_, fun v hv => nomatch hv⟩
  obtain ⟨type, -, rfl⟩ := List.mem_map.1 hv
  exact type.inert_toValue

/-! ### Envelopes -/

/-- An envelope with an inert body is put into bytes, unless something in it is too long. -/
theorem Envelope.toBytes_cases {e : Envelope ω} (h : e.body.Inert) :
    (∃ bytes, e.toBytes = .ok bytes) ∨
      ∃ n, e.toBytes = .error (.malformed (.lengthOverflow n)) := by
  have hvalue : e.toValue.Inert := by
    refine WellKnown.inert_describe _ ?_
    simp only [List.forall_mem_cons]
    exact ⟨h, e.schema.inert_toValue, fun v hv => nomatch hv⟩
  simp only [Envelope.toBytes]
  cases hfailure : e.toValue.encode.failure with
  | none => exact .inl ⟨_, rfl⟩
  | some err =>
    obtain ⟨n, rfl⟩ := hvalue.of_failure hfailure
    exact .inr ⟨n, rfl⟩

/-- The body of an envelope that is put into bytes is written. -/
theorem Envelope.complete_body {e : Envelope ω} {bytes : List UInt8} (h : e.toBytes = .ok bytes) :
    e.body.encode.failure = none := by
  simp only [Envelope.toBytes] at h
  cases hfailure : e.toValue.encode.failure with
  | none => exact complete_of_list (complete_of_described hfailure) List.mem_cons_self
  | some err =>
    rw [hfailure] at h
    cases h

end SelfDescribing
