import SelfDescribing.Entity.Basic
import SelfDescribing.Proofs.Envelope.Reading

namespace SelfDescribing

/-!
# How deep envelopes nest

The reader counts described values, maps and lists that are not empty, those of the envelope and of
the schema included.

* `Schema.nesting_toValue`, `Envelope.nesting_eq_max` — how deep a schema and a payload nest.
* `Envelope.parse_eq_ok_iff` — the limits within which a payload is parsed as its envelope.

The depth of each part of a schema is computed exactly, bottom up.  Most entries are shallow, so
that the deepest one can be named: the fields of a type if it has any, and its descriptor otherwise.
-/

variable {ω : Type}

/-! ### Nesting -/

/-- A descriptor is a level around the body, and does not nest itself. -/
theorem Descriptor.nesting_describe (d : Descriptor) (body : Value ω) :
    (d.describe body).nesting = body.nesting + 1 := by
  have htag : (d.toValue : Value ω).nesting = 0 := by
    rw [toValue]
    split <;> simp only [Value.nesting]
  rw [describe, Value.nesting, htag, Nat.zero_max]

/-- A list under a known descriptor is two levels around its items. -/
theorem WellKnown.nesting_describe (w : WellKnown) {items : List (Value ω)} (h : items ≠ []) :
    (w.describe items).nesting = Value.itemsNesting items + 2 := by
  rw [describe, Descriptor.nesting_describe, Value.nesting,
    if_neg (by simpa only [List.isEmpty_iff] using h)]

/-- Items that all nest alike nest so together. -/
theorem Value.itemsNesting_map {α : Type} {make : α → Value ω} {k : Nat} {xs : List α}
    (h : ∀ x ∈ xs, (make x).nesting = k) (hne : xs ≠ []) :
    Value.itemsNesting (xs.map make) = k := by
  induction xs with
  | nil => exact absurd rfl hne
  | cons x xs ih =>
    rw [List.map_cons, itemsNesting, h x List.mem_cons_self]
    cases xs with
    | nil => rw [List.map_nil, itemsNesting, Nat.max_zero]
    | cons y ys =>
      rw [ih (fun z hz => h z (List.mem_cons_of_mem _ hz)) (List.cons_ne_nil _ _), Nat.max_self]

theorem nesting_optionalText (text : Option String) :
    (optionalText text : Value ω).nesting = 0 := by
  cases text <;> simp only [optionalText, Value.nesting]

/-- A list of texts nests one level, or none where null stands for it. -/
theorem nesting_textList_le (texts : List String) : (textList texts : Value ω).nesting ≤ 1 := by
  cases texts with
  | nil => simp [textList, Value.nesting]
  | cons text texts =>
    have hitems : Value.itemsNesting ((text :: texts).map (.string : String → Value ω)) = 0 :=
      Value.itemsNesting_map (fun x _ => by simp only [Value.nesting]) (List.cons_ne_nil _ _)
    rw [textList, Value.nesting, hitems]
    split <;> omega

/-- The entry of a descriptor nests two levels. -/
theorem Descriptor.nesting_toEntry (d : Descriptor) : (d.toEntry : Value ω).nesting = 2 := by
  have hcode : (Value.ofOption (d.code.map .ulong) : Value ω).nesting = 0 := by
    cases d.code <;> simp only [Option.map, Value.ofOption, Value.nesting]
  rw [toEntry, WellKnown.nesting_describe _ (List.cons_ne_nil _ _)]
  simp only [Value.itemsNesting, Value.nesting, hcode, Nat.max_self]

/-- A field nests two levels: its texts and flag stand in a described list. -/
theorem Field.nesting_toValue (f : Field) : (f.toValue : Value ω).nesting = 2 := by
  rw [toValue, WellKnown.nesting_describe _ (List.cons_ne_nil _ _)]
  simp only [Value.itemsNesting, Value.nesting, Nat.max_self]

/-- Whether a schema lists fields for a type. -/
def TypeNotation.listsFields : TypeNotation → Bool
  | .composite c => !c.fields.isEmpty
  | .restricted _ => false

/-- A notation nests five levels if it lists fields, and otherwise four. -/
theorem TypeNotation.nesting_toValue (type : TypeNotation) :
    (type.toValue : Value ω).nesting = if type.listsFields then 5 else 4 := by
  cases type with
  | composite c =>
    have hprovides := nesting_textList_le (ω := ω) c.provides
    -- The fields are the deepest entry, and their list has a level only if there are any.
    have hfields : (Value.list (c.fields.map Field.toValue) : Value ω).nesting =
        if c.fields.isEmpty then 0 else 3 := by
      rw [Value.nesting, List.isEmpty_map]
      split
      · rfl
      · rename_i hne
        rw [Value.itemsNesting_map (fun f _ => Field.nesting_toValue f)
          (by simpa only [List.isEmpty_iff] using hne)]
    rw [toValue, WellKnown.nesting_describe _ (List.cons_ne_nil _ _)]
    simp only [Value.itemsNesting, nesting_optionalText, Descriptor.nesting_toEntry, hfields,
      listsFields]
    rw [show (Value.string c.name : Value ω).nesting = 0 by simp only [Value.nesting]]
    -- Without fields, the descriptor is the deepest entry.
    by_cases hempty : c.fields.isEmpty = true
    · simp only [hempty, if_true, Bool.not_true, Bool.false_eq_true, if_false]
      omega
    · simp only [hempty, if_true, Bool.not_false, Bool.false_eq_true, if_false]
      omega
  | restricted r =>
    have hprovides := nesting_textList_le (ω := ω) r.provides
    rw [toValue, WellKnown.nesting_describe _ (List.cons_ne_nil _ _)]
    simp only [Value.itemsNesting, nesting_optionalText, Descriptor.nesting_toEntry, listsFields,
      Bool.false_eq_true, if_false]
    rw [show (Value.string r.name : Value ω).nesting = 0 by simp only [Value.nesting],
      show (Value.string r.source : Value ω).nesting = 0 by simp only [Value.nesting]]
    omega

/-- Whether a schema lists fields for some type. -/
def Schema.listsFields (s : Schema) : Bool := s.types.any (·.listsFields)

/-- Notations nest together as the one does that lists fields, if there is one. -/
theorem TypeNotation.itemsNesting_toValue {types : List TypeNotation} (h : types ≠ []) :
    Value.itemsNesting (types.map (TypeNotation.toValue (ω := ω))) =
      if types.any (·.listsFields) then 5 else 4 := by
  induction types with
  | nil => exact absurd rfl h
  | cons type types ih =>
    rw [List.map_cons, Value.itemsNesting, TypeNotation.nesting_toValue, List.any_cons]
    cases types with
    | nil => cases type.listsFields <;> rfl
    | cons t ts =>
      rw [ih (List.cons_ne_nil _ _)]
      cases type.listsFields <;> cases (t :: ts).any (·.listsFields) <;> rfl

/-- A schema nests eight levels if it lists a field, seven if it lists types without fields, and two
if it is empty. -/
theorem Schema.nesting_toValue (s : Schema) : (s.toValue : Value ω).nesting =
    if s.types = [] then 2 else if s.listsFields then 8 else 7 := by
  rw [toValue, WellKnown.nesting_describe _ (List.cons_ne_nil _ _), Value.itemsNesting,
    Value.itemsNesting, Value.nesting, List.isEmpty_map]
  by_cases h : s.types = []
  · simp only [h, List.isEmpty_nil, if_true, Nat.max_self, Nat.zero_add]
  · rw [if_neg (by simpa only [List.isEmpty_iff] using h), if_neg h,
      TypeNotation.itemsNesting_toValue h, listsFields]
    cases s.types.any (·.listsFields) <;> rfl

/-- A payload nests two levels deeper than its body and its schema, whichever is deeper. -/
theorem Envelope.nesting_eq_max (e : Envelope ω) :
    e.toValue.nesting = max e.body.nesting (e.schema.toValue : Value ω).nesting + 2 := by
  rw [toValue, WellKnown.nesting_describe _ (List.cons_ne_nil _ _)]
  simp only [Value.itemsNesting, Nat.max_zero]

/-! ### Limits -/

variable [LiveObject ω]

/-- The payload of an envelope is parsed as this envelope exactly if its records list distinct
fields and the limit is two above what its body and its schema nest, and exceeds all smaller limits.
A schema nests at one of three depths. -/
theorem Envelope.parse_eq_ok_iff {e : Envelope ω} {bytes : List UInt8}
    (hbytes : e.toBytes = .ok bytes) (limit : Nat) :
    (Envelope.parse bytes limit = .ok e ↔ e.schema.Distinct ∧
      max e.body.nesting (e.schema.toValue : Value ω).nesting + 2 ≤ limit) ∧
    (limit < max e.body.nesting (e.schema.toValue : Value ω).nesting + 2 →
      Envelope.parse (ω := ω) bytes limit = .error (.depthExceeded limit)) ∧
    (e.schema.toValue : Value ω).nesting =
      if e.schema.types = [] then 2 else if e.schema.listsFields then 8 else 7 := by
  rw [← nesting_eq_max]
  have hexceeds : limit < e.toValue.nesting →
      Envelope.parse (ω := ω) bytes limit = .error (.depthExceeded limit) :=
    parse_eq_depthExceeded hbytes
  refine ⟨⟨fun hparse => ⟨distinct_of_parse hparse, ?_⟩, fun h => ?_⟩, hexceeds,
    e.schema.nesting_toValue⟩
  · by_contra hdeep
    cases hparse.symm.trans (hexceeds (Nat.lt_of_not_le hdeep))
  · exact parse_toBytes hbytes h.1 h.2

/-- An envelope that tells of a record and of a restricted type. -/
def Envelope.ofPoints : Envelope Entity :=
  ⟨.described (.symbol "point") (.list [.list [], .double 0]),
    ⟨[.composite ⟨"Point", some "a point", ["Shape"], ⟨"point", some 7⟩, [⟨"x", "double", true⟩]⟩,
      .restricted ⟨"Shape", none, [], "list", ⟨"shape", none⟩⟩]⟩⟩

theorem Envelope.distinct_ofPoints : Envelope.ofPoints.schema.Distinct := by
  refine List.forall_mem_cons.2 ⟨?_, List.forall_mem_singleton.2 trivial⟩
  exact List.nodup_singleton "x"

/-- An envelope of points is read within ten levels and not within nine. -/
theorem Envelope.parse_ofPoints : ∃ bytes, Envelope.ofPoints.toBytes = .ok bytes ∧
    Envelope.parse bytes 10 = .ok Envelope.ofPoints ∧
    Envelope.parse (ω := Entity) bytes 9 = .error (.depthExceeded 9) := by
  have hcomplete : Envelope.ofPoints.toValue.encode.failure = none :=
    Option.isNone_iff_eq_none.1 (by decide +kernel)
  have hbytes := toBytes_eq_ok_iff.2 ⟨hcomplete, rfl⟩
  have hnesting : max ofPoints.body.nesting
      (ofPoints.schema.toValue : Value Entity).nesting + 2 = 10 := by decide +kernel
  exact ⟨_, hbytes, (parse_eq_ok_iff hbytes 10).1.2 ⟨distinct_ofPoints, hnesting.le⟩,
    (parse_eq_ok_iff hbytes 9).2.1 (by rw [hnesting]; decide)⟩

end SelfDescribing
