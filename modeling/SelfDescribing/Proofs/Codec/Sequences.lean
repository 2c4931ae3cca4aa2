import SelfDescribing.Entity.Record
import SelfDescribing.Proofs.Codec.Restoring

namespace SelfDescribing

/-!
# Reading in sequence

The codecs of shapes and of records put reading together from requests for parts of a body, one
after the other, and look at no error.  What such requests do, and a sequence does if its steps do,
reading does.

* `Exchange.Sequential` — what exchanges without requests do, and sequences do if their steps do.
* `Exchange.Sequential.readAny`, `Exchange.Sequential.readProperty` — values and properties.
* `Exchange.Sequential.readShape`, `Exchange.Sequential.readOld`, `Exchange.Sequential.readRecord` —
  the bodies of objects, of older shapes and of records.
-/

/-- A property of exchanges that make no requests, and of sequences if their steps have it. -/
structure Exchange.Sequential {ρ α : Type} (P : ∀ {β : Type}, Exchange ρ α β → Prop) : Prop where
  done : ∀ {β : Type} (result : Except Error β), P (.done result)
  bind : ∀ {β γ : Type} {x : Exchange ρ α β} {f : β → Exchange ρ α γ}, P x → (∀ b, P (f b)) →
    P (x >>= f)

namespace Exchange.Sequential

section Lists

variable {ρ α β δ : Type} {P : ∀ {β : Type}, Exchange ρ α β → Prop}

theorem pure (h : Sequential P) (b : β) : P (Pure.pure b : Exchange ρ α β) := h.done (.ok b)

theorem throw (h : Sequential P) (e : Error) : P (MonadExcept.throw e : Exchange ρ α β) :=
  h.done (.error e)

/-- What holds of exchanges and passes to sequences passes to a list of exchanges. -/
theorem mapM (h : Sequential P) {f : δ → Exchange ρ α β} {xs : List δ} (hf : ∀ x ∈ xs, P (f x)) :
    P (xs.mapM f) := by
  induction xs with
  | nil =>
    rw [List.mapM_nil]
    exact h.pure []
  | cons x xs ih =>
    rw [List.forall_mem_cons] at hf
    rw [List.mapM_cons]
    exact h.bind hf.1 fun _ => h.bind (ih hf.2) fun _ => h.pure _

end Lists

variable {ω : Type} {P : ∀ {β : Type}, Reading ω β → Prop}

/-! ### Values -/

mutual

/-- What holds of reading each part of a value as an object holds of reading the value. -/
theorem readAny (h : Sequential P) (S : Schema) : ∀ (v : Value ω),
    (∀ part, part.PartOf v → P (readObject part)) → P (SelfDescribing.readAny S v)
  | .list items, hparts => by
    rw [SelfDescribing.readAny]
    have hitems := readItems h S items fun v hv part hpart => hparts part (.item hv hpart)
    exact h.bind hitems fun _ => h.pure _
  | .map entries, hparts => by
    rw [SelfDescribing.readAny]
    have hentries := readEntries h S entries fun entry he =>
      ⟨fun part hpart => hparts part (.key he hpart), fun part hpart =>
        hparts part (.value he hpart)⟩
    exact h.bind hentries fun _ => h.pure _
  | .described descriptor body, hparts => by
    rw [SelfDescribing.readAny]
    split
    · exact h.bind (hparts _ .refl) fun _ => h.pure _
    · exact h.pure _
  | .null, _ | .bool _, _ | .ubyte _, _ | .ushort _, _ | .uint _, _ | .ulong _, _ | .byte _, _
  | .short _, _ | .int _, _ | .long _, _ | .float _, _ | .double _, _ | .char _, _
  | .timestamp _, _ | .binary _, _ | .string _, _ | .symbol _, _ | .live _, _ => h.pure _

theorem readItems (h : Sequential P) (S : Schema) : ∀ (items : List (Value ω)),
    (∀ v ∈ items, ∀ part, part.PartOf v → P (readObject part)) →
      P (SelfDescribing.readItems S items)
  | [], _ => h.pure _
  | v :: rest, hparts => by
    rw [List.forall_mem_cons] at hparts
    rw [SelfDescribing.readItems]
    exact h.bind (readAny h S v hparts.1) fun _ =>
      h.bind (readItems h S rest hparts.2) fun _ => h.pure _

theorem readEntries (h : Sequential P) (S : Schema) : ∀ (entries : List (Value ω × Value ω)),
    (∀ entry ∈ entries, (∀ part, part.PartOf entry.1 → P (readObject part)) ∧
      ∀ part, part.PartOf entry.2 → P (readObject part)) → P (SelfDescribing.readEntries S entries)
  | [], _ => h.pure _
  | (k, v) :: rest, hparts => by
    rw [List.forall_mem_cons] at hparts
    rw [SelfDescribing.readEntries]
    exact h.bind (readAny h S k hparts.1.1) fun _ => h.bind (readAny h S v hparts.1.2) fun _ =>
      h.bind (readEntries h S rest hparts.2) fun _ => h.pure _

end

/-- What holds of requests and passes to sequences holds of reading the value as a declared type. -/
theorem readTyped (h : Sequential P) (S : Schema) (property : String) {type : FieldType} :
    ∀ {v : Value ω}, (∀ part, part.PartOf v → P (readObject part)) →
      P (SelfDescribing.readTyped S property type v) := by
  induction type with
  | any =>
    -- Without a declared type the value is read as what it is.
    intro v hparts
    rw [readTyped_any]
    exact h.readAny S v hparts
  | named name =>
    intro v hparts
    by_cases hv : v = .null
    · rw [hv, readTyped_null]
      exact h.pure _
    · rw [readTyped_named S property name hv]
      exact h.bind (hparts v .refl) fun _ => h.pure _
  | primitive p =>
    intro v hparts
    by_cases hv : v = .null
    · rw [hv, readTyped_null]
      exact h.pure _
    · rw [readTyped_primitive S property p hv]
      split
      · exact h.pure _
      · exact h.throw _
  | list element ih =>
    intro v hparts
    cases v with
    | list items =>
      -- The induction is on the type, so that items are values of a smaller type.
      rw [readTyped_list]
      have hitems : ∀ v ∈ items, P (SelfDescribing.readTyped S property element v) :=
        fun v hv => ih fun part hpart => hparts part (.item hv hpart)
      exact h.bind (h.mapM hitems) fun _ => h.pure _
    | null =>
      rw [readTyped_null]
      exact h.pure _
    | _ => exact h.throw _

/-- What holds of requests and passes to sequences holds of reading the value of a property. -/
theorem readProperty (h : Sequential P) (p : PropertyCodec ω) (S : Schema) {v : Value ω}
    (hparts : ∀ part, part.PartOf v → P (readObject part)) : P (p.read S v) := by
  rw [PropertyCodec.read]
  split
  · exact h.throw _
  · exact h.readTyped S p.name hparts

/-- Null is read as a property without a request. -/
theorem readProperty_null (h : Sequential P) (p : PropertyCodec ω) (S : Schema) :
    P (p.read S .null) := by
  rw [PropertyCodec.read, readTyped_null]
  split
  · exact h.throw _
  · exact h.pure _

/-! ### Bodies -/

/-- What holds of requests and passes to sequences holds of what a default codec does at a body. -/
theorem readShape (h : Sequential P) (c : ObjectCodec ω) (S : Schema) {body : Value ω}
    (hparts : ∀ part, part.PartOf body → P (readObject part)) : P (c.read S body) := by
  cases body with
  | list items =>
    have hargs : P ((c.properties.zip items).mapM fun x => x.1.read S x.2) :=
      h.mapM fun x hx => h.readProperty x.1 S fun part hpart =>
        hparts part (.item (List.of_mem_zip hx).2 hpart)
    show P (c.construct S items)
    rw [ObjectCodec.construct]
    cases c.constructor with
    | none => exact h.throw _
    | some k =>
      dsimp only
      split
      · exact h.bind (h.throw _) fun _ => h.bind hargs fun args => h.done _
      · exact h.bind hargs fun args => h.done _
  | _ => exact h.throw _

/-- What holds of requests and passes to sequences holds of reading old fields, which may be taken
away before. -/
theorem readSources (h : Sequential P) (S : Schema) (sources : List (Option (OldField ω))) :
    ∀ {items : List (Value ω)},
      (∀ v ∈ items, v = .null ∨ ∀ part, part.PartOf v → P (readObject part)) →
        P (EvolutionCodec.readSources S sources items) := by
  induction sources with
  | nil =>
    intro items hparts
    exact h.pure _
  | cons source rest ih =>
    intro items hparts
    cases source with
    | none =>
      rw [EvolutionCodec.readSources]
      exact h.bind (ih hparts) fun _ => h.pure _
    | some f =>
      -- An item that is missing or was taken is null.
      have hitem : P (f.codec.read S (items.getD f.index .null)) := by
        rw [List.getD_eq_getElem?_getD]
        cases hfound : items[f.index]? with
        | none => exact h.readProperty_null f.codec S
        | some v =>
          obtain rfl | hv := hparts v (List.mem_of_getElem? hfound)
          · exact h.readProperty_null f.codec S
          · exact h.readProperty f.codec S hv
      have hrest : ∀ v ∈ items.set f.index .null,
          v = .null ∨ ∀ part, part.PartOf v → P (readObject part) :=
        fun v hv => (List.mem_or_eq_of_mem_set hv).elim (hparts v) .inl
      rw [EvolutionCodec.readSources]
      exact h.bind hitem fun _ => h.bind (ih hrest) fun _ => h.pure _

/-- What holds of requests and passes to sequences holds of what the codec of an older shape does at
a body. -/
theorem readOld (h : Sequential P) (c : EvolutionCodec ω) (S : Schema) {body : Value ω}
    (hparts : ∀ part, part.PartOf body → P (readObject part)) : P (c.read S body) := by
  cases body with
  | list items =>
    have hargs : P (EvolutionCodec.readSources S c.sources items) :=
      h.readSources S c.sources fun v hv => .inr fun part hpart => hparts part (.item hv hpart)
    rw [EvolutionCodec.read]
    dsimp only
    split
    · exact h.bind (h.throw _) fun _ => h.bind hargs fun args => h.done _
    · exact h.bind hargs fun args => h.done _
  | _ => exact h.throw _

/-- What holds of requests and passes to sequences holds of what a codec for records does at a body.
-/
theorem readRecord {P : ∀ {β : Type}, Reading Entity β → Prop} (h : Sequential P) (c : RecordCodec)
    (S : Schema) {body : Value Entity} (hparts : ∀ part, part.PartOf body → P (readObject part)) :
    P (c.read S body) := by
  cases hsingle : c.single with
  | true =>
    rw [RecordCodec.read, if_pos hsingle]
    exact h.bind (h.readAny S body hparts) fun _ => h.pure _
  | false =>
    rw [RecordCodec.read, hsingle]
    cases body with
    | list items =>
      have hfields : P ((c.keys.zip items).mapM fun x => do
          return (x.1, ← SelfDescribing.readAny S x.2)) := by
        refine h.mapM fun x hx => h.bind (h.readAny S x.2 fun part hpart => ?_) fun _ => h.pure _
        exact hparts part (.item (List.of_mem_zip hx).2 hpart)
      simp only [Bool.false_eq_true, if_false]
      split
      · exact h.bind (h.throw _) fun _ => h.bind hfields fun _ => h.pure _
      · exact h.bind hfields fun _ => h.pure _
    | _ => exact h.throw _

end Exchange.Sequential

end SelfDescribing
