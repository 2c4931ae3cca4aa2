import SelfDescribing.Proofs.Codec.Answering
import SelfDescribing.Proofs.Codec.Evolving
import SelfDescribing.Proofs.Codec.Sequences

namespace SelfDescribing

open Exchange

/-!
# Reading asks for parts

A codec has only parts of a body read, and of the schema it looks only at whether the tags in the
body are listed.

* `Schema.ListsAlike` — schemas that list the same of the tags in a value.
* `ReadsParts` — what reading asks for; `ObjectCodec.readsParts`, `EvolutionCodec.readsParts` and
  `RecordCodec.readsParts` say that the codecs of shapes and of records read in this way.

A codec that reads only parts reads alike in two schemas that list the same tags, and it depends on
its factory only through how the parts are read.  Both are used for values that are carried from one
payload to another.
-/

variable {ω β : Type}

/-! ### Schemas -/

/-- Two schemas list the same of the tags in a value. -/
def Schema.ListsAlike (S S' : Schema) (v : Value ω) : Prop :=
  ∀ descriptor body, (Value.described descriptor body).PartOf v →
    (S'.findByDescriptor? descriptor).isSome = (S.findByDescriptor? descriptor).isSome

variable {S S' : Schema}

/-- Schemas that list the tags in a value alike list those in a part of it alike. -/
theorem Schema.ListsAlike.part {v w : Value ω} (h : S.ListsAlike S' w) (hv : v.PartOf w) :
    S.ListsAlike S' v :=
  fun descriptor body hpart => h descriptor body (hpart.trans hv)

/-- There are no tags in a null. -/
theorem Schema.listsAlike_null : S.ListsAlike S' (.null : Value ω) := by
  intro descriptor body hpart
  cases hpart

/-! ### Values of any type -/

mutual

/-- Reading any value looks at a schema for nothing but which tags it lists. -/
theorem readAny_congr : ∀ (v : Value ω), S.ListsAlike S' v → readAny S' v = readAny S v
  | .list items, h => by
    have hitems := readItems_congr items fun v hv => h.part (.item hv .refl)
    rw [readAny, readAny, hitems]
  | .map entries, h => by
    have hentries := readEntries_congr entries fun entry he =>
      ⟨h.part (.key he .refl), h.part (.value he .refl)⟩
    rw [readAny, readAny, hentries]
  | .described descriptor body, h => by
    have hlisted := h descriptor body .refl
    rw [readAny, readAny, hlisted]
  | .null, _ | .bool _, _ | .ubyte _, _ | .ushort _, _ | .uint _, _ | .ulong _, _ | .byte _, _
  | .short _, _ | .int _, _ | .long _, _ | .float _, _ | .double _, _ | .char _, _
  | .timestamp _, _ | .binary _, _ | .string _, _ | .symbol _, _ | .live _, _ => rfl

theorem readItems_congr : ∀ (items : List (Value ω)), (∀ v ∈ items, S.ListsAlike S' v) →
    readItems S' items = readItems S items
  | [], _ => rfl
  | v :: rest, h => by
    rw [List.forall_mem_cons] at h
    rw [readItems, readItems, readAny_congr v h.1, readItems_congr rest h.2]

theorem readEntries_congr : ∀ (entries : List (Value ω × Value ω)),
    (∀ entry ∈ entries, S.ListsAlike S' entry.1 ∧ S.ListsAlike S' entry.2) →
    readEntries S' entries = readEntries S entries
  | [], _ => rfl
  | (k, v) :: rest, h => by
    rw [List.forall_mem_cons] at h
    rw [readEntries, readEntries, readAny_congr k h.1.1, readAny_congr v h.1.2,
      readEntries_congr rest h.2]

end

/-! ### Values of a declared type -/

/-- Reading a value of a declared type asks for parts of it. -/
theorem readTyped_congr (property : String) {type : FieldType} :
    ∀ {v : Value ω}, S.ListsAlike S' v →
      readTyped S' property type v = readTyped S property type v := by
  induction type with
  | any =>
    intro v h
    rw [readTyped_any, readTyped_any, readAny_congr v h]
  | named name =>
    -- A named type asks for the value as a whole, without a look at the schema.
    intro v h
    cases v <;> rfl
  | primitive p =>
    intro v h
    cases v <;> rfl
  | list element ih =>
    intro v h
    cases v with
    | list items =>
      have hitems : items.mapM (readTyped S' property element) =
          items.mapM (readTyped S property element) := by
        refine mapM_eq_of_forall₂ (List.forall₂_same.2 fun v hv => ?_)
        exact ih (h.part (.item hv .refl))
      rw [readTyped_list, readTyped_list, hitems]
    | _ => rfl

/-! ### Properties -/

/-- What exchanges may ask for passes to exchanges that are put together from them. -/
theorem sequential_asksOnly {ρ α : Type} (P : ρ → Prop) :
    Sequential fun {β} (x : Exchange ρ α β) => x.AsksOnly P :=
  ⟨.done, fun hx hf => hx.bind hf⟩

namespace PropertyCodec

/-- Reading a property asks for parts of its value. -/
theorem read_congr (p : PropertyCodec ω) {v : Value ω} (h : S.ListsAlike S' v) :
    p.read S' v = p.read S v := by
  rw [read, read, readTyped_congr p.name h]

/-- Reading a property asks for parts of the value. -/
theorem asksOnly_read (p : PropertyCodec ω) (S : Schema) {v w : Value ω} (h : v.PartOf w) :
    (p.read S v).AsksOnly (·.PartOf w) :=
  (sequential_asksOnly _).readProperty p S fun _ hpart => .request (hpart.trans h)

end PropertyCodec

/-! ### Codecs -/

/-- Reading that looks only at whether the tags in a body are listed, and asks only for parts of the
body. -/
structure ReadsParts (read : Schema → Value ω → Reading ω β) : Prop where
  congr : ∀ {S S' body}, S.ListsAlike S' body → read S' body = read S body
  asksOnly : ∀ S body, (read S body).AsksOnly (·.PartOf body)

/-- A default codec asks for parts of the body. -/
theorem ObjectCodec.readsParts (c : ObjectCodec ω) : ReadsParts c.read := by
  constructor
  · intro S S' body h
    cases body with
    | list items =>
      have hargs : ((c.properties.zip items).mapM fun x => x.1.read S' x.2) =
          (c.properties.zip items).mapM fun x => x.1.read S x.2 := by
        refine mapM_eq_of_forall₂ (List.forall₂_same.2 fun x hx => ?_)
        exact x.1.read_congr (h.part (.item (List.of_mem_zip hx).2 .refl))
      show c.construct S' items = c.construct S items
      rw [construct, construct]
      simp only [hargs]
    | _ => rfl
  · exact fun S body => (sequential_asksOnly _).readShape c S fun _ hpart => .request hpart

namespace EvolutionCodec

/-- Items from which one was taken are those that were there, and a null. -/
theorem mem_taken {items : List (Value ω)} {i : Nat} {v : Value ω} (h : v ∈ items.set i .null) :
    v = .null ∨ v ∈ items := by
  obtain h | h := List.mem_or_eq_of_mem_set h
  · exact .inr h
  · exact .inl h

/-- What stands at a position is an item or, behind the last one, a null. -/
theorem getD_cases (items : List (Value ω)) (i : Nat) :
    items.getD i .null = .null ∨ items.getD i .null ∈ items := by
  rw [List.getD_eq_getElem?_getD]
  cases h : items[i]? with
  | none => exact .inl rfl
  | some v => exact .inr (List.mem_of_getElem? h)

/-- Reading old fields looks at a schema for nothing but which tags it lists. -/
theorem readSources_congr (sources : List (Option (OldField ω))) :
    ∀ {items : List (Value ω)}, (∀ v ∈ items, S.ListsAlike S' v) →
      readSources S' sources items = readSources S sources items := by
  induction sources with
  | nil =>
    intro items h
    rfl
  | cons source rest ih =>
    intro items h
    cases source with
    | none => rw [readSources, readSources, ih h]
    | some f =>
      -- An item out of range is read as null, about which all schemas agree.
      have hitem : S.ListsAlike S' (items.getD f.index .null) := by
        obtain hnull | hmem := getD_cases items f.index
        · rw [hnull]
          exact Schema.listsAlike_null
        · exact h _ hmem
      -- The same holds of an item that was taken away before.
      have hrest : ∀ v ∈ items.set f.index .null, S.ListsAlike S' v := by
        intro v hv
        obtain rfl | hv := mem_taken hv
        · exact Schema.listsAlike_null
        · exact h v hv
      rw [readSources, readSources, f.codec.read_congr hitem, ih hrest]

/-- A codec of an older shape asks for parts of the body. -/
theorem readsParts (c : EvolutionCodec ω) : ReadsParts c.read := by
  constructor
  · intro S S' body h
    cases body with
    | list items =>
      have hargs : readSources S' c.sources items = readSources S c.sources items :=
        readSources_congr c.sources fun v hv => h.part (.item hv .refl)
      rw [read, read, hargs]
    | _ => rfl
  · exact fun S body => (sequential_asksOnly _).readOld c S fun _ hpart => .request hpart

end EvolutionCodec

/-- A codec for records asks for parts of the body. -/
theorem RecordCodec.readsParts (c : RecordCodec) : ReadsParts c.read := by
  constructor
  · intro S S' body h
    cases hsingle : c.single with
    | true =>
      rw [RecordCodec.read, RecordCodec.read, if_pos hsingle, if_pos hsingle, readAny_congr body h]
    | false =>
      rw [RecordCodec.read, RecordCodec.read, hsingle]
      cases body with
      | list items =>
        have hfields : ((c.keys.zip items).mapM fun x => do
              return (x.1, ← readAny S' x.2)) = (c.keys.zip items).mapM fun x => do
              return (x.1, ← readAny S x.2) := by
          refine mapM_eq_of_forall₂ (List.forall₂_same.2 fun x hx => ?_)
          rw [readAny_congr x.2 (h.part (.item (List.of_mem_zip hx).2 .refl))]
        simp only [Bool.false_eq_true, if_false, hfields]
      | _ => rfl
  · exact fun S body => (sequential_asksOnly _).readRecord c S fun _ hpart => .request hpart

end SelfDescribing
