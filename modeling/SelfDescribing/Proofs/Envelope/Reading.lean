import SelfDescribing.Envelope.Basic
import SelfDescribing.Proofs.Steps
import SelfDescribing.Proofs.Wire.Writing

namespace SelfDescribing

open Steps

/-!
# Payloads are parsed

A schema whose records list distinct fields is read back from its value, and an envelope from its
bytes, where its nesting is within the limit.

* `Schema.Distinct` — the records of a schema list distinct fields.
* `Schema.ofValue_toValue`, `Envelope.parse_toBytes` — reading them back.
-/

variable {ω : Type} [LiveObject ω]

/-- Reading the items of a list gives back what they were made from. -/
theorem mapM_map_ok {α β : Type} {read : β → Except Error α} {make : α → β} {xs : List α}
    (h : ∀ x ∈ xs, read (make x) = .ok x) : (xs.map make).mapM read = .ok xs := by
  induction xs with
  | nil => rfl
  | cons x xs ih =>
    rw [List.map_cons, List.mapM_cons, h x List.mem_cons_self,
      ih fun y hy => h y (List.mem_cons_of_mem _ hy)]
    rfl

/-- Items that are described as a known kind are read as such. -/
theorem WellKnown.undescribe_describe (w : WellKnown) (items : List (Value ω)) :
    w.undescribe (w.describe items) = .ok items := by
  simp only [undescribe, describe, Descriptor.describe, Value.toDescribed, bind, Except.bind]
  rw [Descriptor.admits_toValue]
  rfl

omit [LiveObject ω] in
/-- A list of texts comes back. -/
theorem Value.toTexts_textList (texts : List String) :
    (textList texts : Value ω).toTexts = .ok texts := by
  show (texts.map .string).mapM Value.toText = .ok texts
  exact mapM_map_ok fun _ _ => rfl

omit [LiveObject ω] in
theorem Value.toOptionalText_optionalText (text : Option String) :
    (optionalText text : Value ω).toOptionalText = .ok text := by cases text <;> rfl

/-- A descriptor comes back from its entry in a schema. -/
theorem Descriptor.ofEntry_toEntry (d : Descriptor) :
    Descriptor.ofEntry (d.toEntry : Value ω) = .ok d := by
  obtain ⟨name, code⟩ := d
  rw [toEntry, ofEntry, WellKnown.undescribe_describe]
  cases code <;> rfl

/-- A field comes back. -/
theorem Field.ofValue_toValue (f : Field) : Field.ofValue (f.toValue : Value ω) = .ok f := by
  rw [Field.toValue, Field.ofValue, WellKnown.undescribe_describe]
  rfl

/-- A record that lists distinct fields. -/
def TypeNotation.Distinct : TypeNotation → Prop
  | .composite c => c.fieldNames.Nodup
  | .restricted _ => True

/-- All records list distinct fields. -/
def Schema.Distinct (s : Schema) : Prop := ∀ type ∈ s.types, type.Distinct

/-- A composite comes back if its fields have distinct names. -/
theorem CompositeType.ofBody_items {c : CompositeType} (h : c.fieldNames.Nodup) :
    CompositeType.ofBody (.list [.string c.name, optionalText c.label, textList c.provides,
      c.descriptor.toEntry, .list (c.fields.map Field.toValue)] : Value ω) = .ok c := by
  have hfields : (c.fields.map Field.toValue).mapM (Field.ofValue (ω := ω)) = .ok c.fields :=
    mapM_map_ok fun f _ => Field.ofValue_toValue f
  have hrepeat : firstRepeat? (c.fields.map (·.name)) = none := firstRepeat?_eq_none_iff.2 h
  simp only [CompositeType.ofBody, Value.toItems, Value.toText, bind, Except.bind,
    Value.toOptionalText_optionalText, Value.toTexts_textList, Descriptor.ofEntry_toEntry, hfields,
    hrepeat]
  rfl

/-- A restricted type comes back. -/
theorem RestrictedType.ofBody_items (r : RestrictedType) :
    RestrictedType.ofBody (.list [.string r.name, optionalText r.label, textList r.provides,
      .string r.source, r.descriptor.toEntry] : Value ω) = .ok r := by
  simp only [RestrictedType.ofBody, Value.toItems, Value.toText, bind, Except.bind,
    Value.toOptionalText_optionalText, Value.toTexts_textList, Descriptor.ofEntry_toEntry]
  rfl

/-- A notation comes back if it can be read at all. -/
theorem TypeNotation.ofValue_toValue {type : TypeNotation} (h : type.Distinct) :
    TypeNotation.ofValue (type.toValue : Value ω) = .ok type := by
  cases type with
  | composite c =>
    simp only [TypeNotation.toValue, WellKnown.describe, Descriptor.describe,
      TypeNotation.ofValue, Value.toDescribed, bind, Except.bind]
    rw [if_pos (Descriptor.admits_toValue _), CompositeType.ofBody_items h]
    rfl
  | restricted r =>
    have hother : WellKnown.compositeType.descriptor.admits
        (WellKnown.restrictedType.descriptor.toValue : Value ω) = false := rfl
    simp only [TypeNotation.toValue, WellKnown.describe, Descriptor.describe,
      TypeNotation.ofValue, Value.toDescribed, bind, Except.bind]
    rw [if_neg (by rw [hother]; exact Bool.false_ne_true), if_pos (Descriptor.admits_toValue _),
      RestrictedType.ofBody_items]
    rfl

/-- A schema comes back if all of its notations do. -/
theorem Schema.ofValue_toValue {s : Schema} (h : s.Distinct) :
    Schema.ofValue (s.toValue : Value ω) = .ok s := by
  rw [Schema.toValue, Schema.ofValue, WellKnown.undescribe_describe]
  have htypes : (s.types.map TypeNotation.toValue).mapM (TypeNotation.ofValue (ω := ω)) =
      .ok s.types := mapM_map_ok fun type htype => TypeNotation.ofValue_toValue (h type htype)
  simp only [nextItem, Value.toItems, bind, Except.bind, htypes]
  rfl

/-- An envelope comes back if its schema does. -/
theorem Envelope.ofValue_toValue {e : Envelope ω} (h : e.schema.Distinct) :
    Envelope.ofValue e.toValue = .ok e := by
  rw [Envelope.toValue, Envelope.ofValue, WellKnown.undescribe_describe]
  simp only [bind, Except.bind, Schema.ofValue_toValue h]
  rfl

/-! ### What cannot be read is malformed -/

/-- A step without a state that fails on malformed data only. -/
structure Malforms {α : Type} (x : Except Error α) : Prop where
  of_error : ∀ {err}, x = .error err → ∃ fault, err = .malformed fault

namespace Malforms

variable {α β : Type}

theorem ok (a : α) : Malforms (.ok a : Except Error α) := ⟨fun h => nomatch h⟩

/-- Refusing a value as malformed is all that such a step may fail with. -/
theorem malformed (fault : Malformed) : Malforms (.error (.malformed fault) : Except Error α) :=
  ⟨fun h => ⟨fault, (Except.error.inj h).symm⟩⟩

/-- What holds of steps passes to two steps in turn. -/
theorem bind {x : Except Error α} {f : α → Except Error β} (hx : Malforms x)
    (hf : ∀ a, Malforms (f a)) : Malforms (x >>= f) := by
  cases x with
  | ok a => exact hf a
  | error e =>
    refine ⟨fun h => ?_⟩
    cases h
    exact hx.of_error rfl

/-- What holds of steps passes to a list of steps. -/
theorem mapM {f : α → Except Error β} (hf : ∀ a, Malforms (f a)) (xs : List α) :
    Malforms (xs.mapM f) := by
  induction xs with
  | nil =>
    rw [List.mapM_nil]
    exact ok _
  | cons x xs ih =>
    rw [List.mapM_cons]
    exact (hf x).bind fun _ => ih.bind fun _ => ok _

omit [LiveObject ω] in
/-- A value without items is malformed. -/
theorem toItems (what : String) (v : Value ω) : Malforms (v.toItems what) := by
  cases v with
  | list => exact ok _
  | _ => exact malformed _

omit [LiveObject ω] in
/-- A value that is not described is malformed. -/
theorem toDescribed (what : String) (v : Value ω) : Malforms (v.toDescribed what) := by
  cases v with
  | described => exact ok _
  | _ => exact malformed _

omit [LiveObject ω] in
/-- A value that is no text is malformed. -/
theorem toText (v : Value ω) : Malforms v.toText := by
  cases v with
  | string => exact ok _
  | _ => exact malformed _

omit [LiveObject ω] in
/-- A value that is neither a text nor null is malformed. -/
theorem toOptionalText (v : Value ω) : Malforms v.toOptionalText := by
  cases v with
  | null | string => exact ok _
  | _ => exact malformed _

omit [LiveObject ω] in
theorem toTexts (v : Value ω) : Malforms v.toTexts :=
  (toItems _ v).bind (mapM toText)

omit [LiveObject ω] in
/-- A list that has ended is malformed. -/
theorem nextItem (items : List (Value ω)) : Malforms (nextItem items) := by
  cases items with
  | nil => exact malformed _
  | cons => exact ok _

/-- A value of another kind than the one that is looked for is malformed. -/
theorem undescribe (w : WellKnown) (v : Value ω) : Malforms (w.undescribe v) := by
  refine (toDescribed _ v).bind fun x => ?_
  dsimp only
  split
  · exact malformed _
  · exact toItems _ _

/-- What is no descriptor is malformed. -/
theorem descriptor (v : Value ω) : Malforms (Descriptor.ofEntry v) := by
  refine (undescribe _ v).bind fun items => (nextItem items).bind fun x => ?_
  dsimp only
  split
  · refine (ok _).bind fun name => ?_
    split
    · exact ok _
    · exact ok _
    · exact ok _
    · exact malformed _
  · exact malformed _

/-- What is no field is malformed. -/
theorem field (v : Value ω) : Malforms (Field.ofValue v) := by
  refine (undescribe _ v).bind fun items => ?_
  split
  · refine (toText _).bind fun _ => (toText _).bind fun _ => ?_
    split
    · exact ok _
    · exact malformed _
  · exact malformed _

/-- What is no composite is malformed, repeated names of fields included. -/
theorem composite (v : Value ω) : Malforms (CompositeType.ofBody v) := by
  refine (toItems _ v).bind fun items => ?_
  split
  · refine (toText _).bind fun _ => (toOptionalText _).bind fun _ => (toTexts _).bind fun _ =>
      (descriptor _).bind fun _ => (toItems _ _).bind fun fields =>
        (mapM field fields).bind fun _ => ?_
    split
    · exact malformed _
    · exact ok _
  · exact malformed _

/-- What is no restricted type is malformed. -/
theorem restricted (v : Value ω) : Malforms (RestrictedType.ofBody v) := by
  refine (toItems _ v).bind fun items => ?_
  split
  · exact (toText _).bind fun _ => (toOptionalText _).bind fun _ => (toTexts _).bind fun _ =>
      (toText _).bind fun _ => (descriptor _).bind fun _ => ok _
  · exact malformed _

/-- What is no notation is malformed. -/
theorem type (v : Value ω) : Malforms (TypeNotation.ofValue v) := by
  refine (toDescribed _ v).bind fun x => ?_
  dsimp only
  split
  · exact (composite _).bind fun _ => ok _
  · split
    · exact (restricted _).bind fun _ => ok _
    · exact malformed _

/-- What is no schema is malformed. -/
theorem schema (v : Value ω) : Malforms (Schema.ofValue v) :=
  (undescribe _ v).bind fun items => (nextItem items).bind fun x =>
    (toItems _ x.1).bind fun types => (mapM type types).bind fun _ => ok _

/-- What is no envelope is malformed. -/
theorem envelope (v : Value ω) : Malforms (Envelope.ofValue v) := by
  refine (undescribe _ v).bind fun items => ?_
  split
  · exact (schema _).bind fun _ => ok _
  · exact malformed _

end Malforms

/-! ### What is read lists distinct fields -/

/-- The fields of a composite that was read have distinct names. -/
theorem CompositeType.nodup_of_ofBody {body : Value ω} {c : CompositeType}
    (h : CompositeType.ofBody body = .ok c) : c.fieldNames.Nodup := by
  obtain ⟨items, -, h⟩ := except_bind_eq_ok.1 h
  split at h
  · obtain ⟨name, -, h⟩ := except_bind_eq_ok.1 h
    obtain ⟨label, -, h⟩ := except_bind_eq_ok.1 h
    obtain ⟨provides, -, h⟩ := except_bind_eq_ok.1 h
    obtain ⟨descriptor, -, h⟩ := except_bind_eq_ok.1 h
    obtain ⟨items, -, h⟩ := except_bind_eq_ok.1 h
    obtain ⟨fields, -, h⟩ := except_bind_eq_ok.1 h
    split at h
    · cases h
    · rename_i hrepeat
      cases h
      exact firstRepeat?_eq_none_iff.1 hrepeat
  · cases h

/-- A notation that was read can be read again. -/
theorem TypeNotation.distinct_of_ofValue {v : Value ω} {type : TypeNotation}
    (h : TypeNotation.ofValue v = .ok type) : type.Distinct := by
  obtain ⟨⟨descriptor, body⟩, -, h⟩ := except_bind_eq_ok.1 h
  dsimp only at h
  split at h
  · obtain ⟨c, hc, h⟩ := except_bind_eq_ok.1 h
    cases h
    exact CompositeType.nodup_of_ofBody hc
  · split at h
    · obtain ⟨r, -, h⟩ := except_bind_eq_ok.1 h
      cases h
      exact trivial
    · cases h

/-- No type of a schema that was read repeats a field name. -/
theorem Schema.distinct_of_ofValue {v : Value ω} {s : Schema} (h : Schema.ofValue v = .ok s) :
    s.Distinct := by
  obtain ⟨items, -, h⟩ := except_bind_eq_ok.1 h
  obtain ⟨⟨value, rest⟩, -, h⟩ := except_bind_eq_ok.1 h
  obtain ⟨values, -, h⟩ := except_bind_eq_ok.1 h
  obtain ⟨types, htypes, h⟩ := except_bind_eq_ok.1 h
  cases h
  intro type htype
  obtain ⟨v, -, hv⟩ := exists_of_forall₂ (forall₂_of_except_mapM htypes).flip htype
  exact TypeNotation.distinct_of_ofValue hv

/-- The schema of a payload lists distinct fields. -/
theorem Envelope.distinct_of_parse {bytes : List UInt8} {limit : Nat} {e : Envelope ω}
    (h : Envelope.parse bytes limit = .ok e) : e.schema.Distinct := by
  unfold Envelope.parse at h
  split at h
  · cases h
  · split at h
    · cases h
    · split at h
      · cases h
      · obtain ⟨items, -, h⟩ := except_bind_eq_ok.1 h
        split at h
        · obtain ⟨schema, hschema, h⟩ := except_bind_eq_ok.1 h
          cases h
          exact Schema.distinct_of_ofValue hschema
        · cases h

/-! ### What is read is what was told -/

/-- Nothing but the composite itself is read of its body. -/
theorem CompositeType.eq_of_ofBody_items {c c' : CompositeType}
    (h : CompositeType.ofBody (.list [.string c.name, optionalText c.label, textList c.provides,
      c.descriptor.toEntry, .list (c.fields.map Field.toValue)] : Value ω) = .ok c') : c' = c := by
  have hfields : (c.fields.map Field.toValue).mapM (Field.ofValue (ω := ω)) = .ok c.fields :=
    mapM_map_ok fun f _ => Field.ofValue_toValue f
  simp only [CompositeType.ofBody, Value.toItems, Value.toText, bind, Except.bind,
    Value.toOptionalText_optionalText, Value.toTexts_textList, Descriptor.ofEntry_toEntry,
    hfields] at h
  split at h
  · cases h
  · cases h
    rfl

/-- Nothing but the notation itself is read of its value. -/
theorem TypeNotation.eq_of_ofValue_toValue {type type' : TypeNotation}
    (h : TypeNotation.ofValue (type.toValue : Value ω) = .ok type') : type' = type := by
  cases type with
  | composite c =>
    simp only [TypeNotation.toValue, WellKnown.describe, Descriptor.describe,
      TypeNotation.ofValue, Value.toDescribed, bind, Except.bind] at h
    rw [if_pos (Descriptor.admits_toValue _)] at h
    obtain ⟨c', hc', h⟩ := except_bind_eq_ok.1 h
    cases h
    rw [CompositeType.eq_of_ofBody_items hc']
  | restricted r =>
    have hdistinct : (TypeNotation.restricted r).Distinct := trivial
    rw [TypeNotation.ofValue_toValue hdistinct] at h
    cases h
    rfl

/-- Nothing but the schema itself is read of its value. -/
theorem Schema.eq_of_ofValue_toValue {s s' : Schema}
    (h : Schema.ofValue (s.toValue : Value ω) = .ok s') : s' = s := by
  rw [Schema.toValue, Schema.ofValue, WellKnown.undescribe_describe] at h
  obtain ⟨_, ⟨⟩, h⟩ := except_bind_eq_ok.1 h
  obtain ⟨_, ⟨⟩, h⟩ := except_bind_eq_ok.1 h
  obtain ⟨_, ⟨⟩, h⟩ := except_bind_eq_ok.1 h
  obtain ⟨types, htypes, h⟩ := except_bind_eq_ok.1 h
  cases h
  have hsame := forall₂_of_except_mapM htypes
  rw [List.forall₂_map_left_iff] at hsame
  have heq : List.Forall₂ (· = ·) s.types types :=
    hsame.imp fun type type' htype => (TypeNotation.eq_of_ofValue_toValue htype).symm
  rw [List.forall₂_eq_eq_eq] at heq
  rw [← heq]

/-- Nothing but the envelope itself is read of its value. -/
theorem Envelope.eq_of_ofValue_toValue {e e' : Envelope ω}
    (h : Envelope.ofValue e.toValue = .ok e') : e' = e := by
  rw [Envelope.toValue, Envelope.ofValue, WellKnown.undescribe_describe] at h
  obtain ⟨_, ⟨⟩, h⟩ := except_bind_eq_ok.1 h
  obtain ⟨schema, hschema, h⟩ := except_bind_eq_ok.1 h
  cases h
  rw [Schema.eq_of_ofValue_toValue hschema]

/-! ### Bytes -/

/-- A payload is the header and all bytes of the envelope's value, if this can be written to its
end. -/
theorem Envelope.toBytes_eq_ok_iff {e : Envelope ω} {bytes : List UInt8} :
    e.toBytes = .ok bytes ↔
      e.toValue.encode.failure = none ∧ bytes = header ++ e.toValue.encode.bytes := by
  simp only [Envelope.toBytes]
  cases h : e.toValue.encode.failure with
  | none =>
    constructor
    · intro hok
      cases hok
      exact ⟨rfl, rfl⟩
    · rintro ⟨-, rfl⟩
      rfl
  | some err =>
    constructor
    · intro hok
      cases hok
    · intro hok
      cases hok.1

/-- Behind its header a payload is the written form of one value, which the reader takes where it
nests within the limit. -/
theorem Envelope.read_toBytes {e : Envelope ω} {bytes : List UInt8} (limit : Nat)
    (hbytes : e.toBytes = .ok bytes) : bytes.take header.length = header ∧
      ∃ c, c.atEnd = true ∧
        (e.toValue.nesting ≤ limit → (Wire.Cursor.start (bytes.drop header.length) limit).read =
          .ok e.toValue c) ∧
        (limit < e.toValue.nesting → ∃ c',
          (Wire.Cursor.start (bytes.drop header.length) limit).read (ω := ω) =
            .error (.depthExceeded limit) c') := by
  obtain ⟨hcomplete, rfl⟩ := Envelope.toBytes_eq_ok_iff.1 hbytes
  have hpass : (Wire.Cursor.start e.toValue.encode.bytes limit).Passes e.toValue.encode.bytes
      ⟨[], 0 + e.toValue.encode.bytes.length, 0, limit⟩ :=
    ⟨(List.append_nil _).symm, rfl, rfl, rfl⟩
  have hdrop : (header ++ e.toValue.encode.bytes).drop header.length = e.toValue.encode.bytes :=
    List.drop_left
  obtain ⟨fits, exceeds⟩ :=
    (e.toValue.derives_encode hcomplete).takes hpass (Nat.zero_add limit).symm
  rw [hdrop]
  exact ⟨List.take_left, _, rfl, fits, exceeds⟩

/-- Parsing a payload finds the value that it was made from. -/
theorem Envelope.parse_eq_ofValue {e : Envelope ω} {bytes : List UInt8} {limit : Nat}
    (hbytes : e.toBytes = .ok bytes) (hnesting : e.toValue.nesting ≤ limit) :
    Envelope.parse (ω := ω) bytes limit = Envelope.ofValue e.toValue := by
  obtain ⟨hheader, c, hend, fits, -⟩ := Envelope.read_toBytes limit hbytes
  simp only [Envelope.parse, hheader, fits hnesting, hend, ne_eq, not_true_eq_false,
    if_false, Bool.not_true, Bool.false_eq_true]

/-- A payload that nests too deep is not parsed. -/
theorem Envelope.parse_eq_depthExceeded {e : Envelope ω} {bytes : List UInt8} {limit : Nat}
    (hbytes : e.toBytes = .ok bytes) (hnesting : limit < e.toValue.nesting) :
    Envelope.parse (ω := ω) bytes limit = .error (.depthExceeded limit) := by
  obtain ⟨hheader, c, -, -, exceeds⟩ := Envelope.read_toBytes limit hbytes
  obtain ⟨c', hread⟩ := exceeds hnesting
  simp only [Envelope.parse, hheader, hread, ne_eq, not_true_eq_false, if_false]

/-- A payload that can be parsed at all is parsed as the envelope that it was made from. -/
theorem Envelope.eq_of_parse_toBytes {e e' : Envelope ω} {bytes : List UInt8} {limit : Nat}
    (hbytes : e.toBytes = .ok bytes) (hparse : Envelope.parse bytes limit = .ok e') : e' = e := by
  have hnesting : e.toValue.nesting ≤ limit := by
    by_contra hdeep
    rw [Envelope.parse_eq_depthExceeded hbytes (Nat.lt_of_not_le hdeep)] at hparse
    cases hparse
  rw [Envelope.parse_eq_ofValue hbytes hnesting] at hparse
  exact Envelope.eq_of_ofValue_toValue hparse

/-- A payload is parsed as the envelope that it was made from. -/
theorem Envelope.parse_toBytes {e : Envelope ω} {bytes : List UInt8} {limit : Nat}
    (hbytes : e.toBytes = .ok bytes) (hdistinct : e.schema.Distinct)
    (hnesting : e.toValue.nesting ≤ limit) : Envelope.parse bytes limit = .ok e :=
  (Envelope.parse_eq_ofValue hbytes hnesting).trans (Envelope.ofValue_toValue hdistinct)

/-- The envelope of nothing. -/
def Envelope.blank : Envelope Empty := ⟨.null, ⟨[]⟩⟩

/-- The envelope of nothing nests four levels deep. -/
theorem Envelope.parse_blank :
    Envelope.parse (header ++ Envelope.blank.toValue.encode.bytes) 4 = .ok Envelope.blank :=
  Envelope.parse_toBytes rfl (fun _ htype => nomatch htype) (by decide)

end SelfDescribing
