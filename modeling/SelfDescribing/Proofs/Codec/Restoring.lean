import SelfDescribing.Codec.Basic
import SelfDescribing.Proofs.Codec.Exchange
import SelfDescribing.Proofs.Value.Parts

namespace SelfDescribing

open Exchange Steps

/-!
# Reading undoes writing

Values and bodies that are written can be read back, if that is so for the objects inside them.

* `Restores` — the described values that objects were written as are in the schema and are read
  back as these objects.
* `Returns` — a value comes back exactly if its objects stand outside its described values, which
  are left as they are found.
* `readAny_writeAny`, `readTyped_writeTyped`, `PropertyCodec.read_write` — reading back values and
  properties.
* `ObjectCodec.Rebuilds`, `BoundCodec.Undoes`, `Codec.UndoesIn` — what has to hold of a shape and of
  a custom codec for their objects to be read back.
* `Codec.read_write` — reading back objects.

Reading back is proved relative to the objects inside: `Restores` is the hypothesis that they come
back, and the lemmas here carry it through lists, maps and declared types, by recursion on the value
or the type.  `Proofs/Factory/Restoring` discharges it by induction on the room.
-/

variable {ω : Type}

/-- A described value whose descriptor a schema lists. -/
def Schema.Lists (schema : Schema) (v : Value ω) : Prop :=
  ∃ descriptor body, v = .described descriptor body ∧
    (schema.findByDescriptor? descriptor).isSome = true

/-- What objects are written as is listed in the schema, and reading it gives nothing but these
objects. -/
def Restores (schema : Schema) (written : WriteRequest ω → Except Error (Value ω) → Prop)
    (answers : Value ω → Except Error ω → Prop) : Prop :=
  ∀ q v, written q (.ok v) → schema.Lists v ∧ ∀ a, answers v a → a = .ok q.object

mutual

/-- Whether there are no described values in a value, outside its live objects. -/
def Value.isPlain : Value ω → Bool
  | .described .. => false
  | .list items => itemsPlain items
  | .map entries => entriesPlain entries
  | _ => true

/-- Whether there are no described values in the items of a list. -/
def itemsPlain : List (Value ω) → Bool
  | [] => true
  | v :: rest => v.isPlain && itemsPlain rest

/-- Whether there are no described values in the entries of a map. -/
def entriesPlain : List (Value ω × Value ω) → Bool
  | [] => true
  | (k, v) :: rest => k.isPlain && v.isPlain && entriesPlain rest

end

/-- Plain items are plain one by one. -/
theorem forall_isPlain {items : List (Value ω)} (h : itemsPlain items = true) :
    ∀ v ∈ items, v.isPlain = true := by
  induction items with
  | nil =>
    intro v hv
    cases hv
  | cons first rest ih =>
    rw [itemsPlain, Bool.and_eq_true] at h
    exact List.forall_mem_cons.2 ⟨h.1, ih h.2⟩

/-- The keys and values of plain entries are plain. -/
theorem forall_entries_isPlain {entries : List (Value ω × Value ω)}
    (h : entriesPlain entries = true) :
    ∀ entry ∈ entries, entry.1.isPlain = true ∧ entry.2.isPlain = true := by
  induction entries with
  | nil =>
    intro entry he
    cases he
  | cons first rest ih =>
    rw [entriesPlain, Bool.and_eq_true, Bool.and_eq_true] at h
    exact List.forall_mem_cons.2 ⟨h.1, ih h.2⟩

/-- A part of a plain value is plain. -/
theorem Value.PartOf.isPlain {v w : Value ω} (h : v.PartOf w) (hw : w.isPlain = true) :
    v.isPlain = true := by
  induction h with
  | refl => exact hw
  | item hmem _ ih => exact ih (forall_isPlain hw _ hmem)
  | key hmem _ ih => exact ih (forall_entries_isPlain hw _ hmem).1
  | value hmem _ ih => exact ih (forall_entries_isPlain hw _ hmem).2
  | body => cases hw

/-- There is no described value in a plain one of which something would have to hold. -/
theorem Value.eachDescribed_of_isPlain {P : Value ω → Value ω → Prop} {v : Value ω}
    (h : v.isPlain = true) : v.EachDescribed P :=
  fun _ _ hpart => nomatch hpart.isPlain h

/-- A schema lists none of the described values in a value. -/
def Schema.ListsNone (schema : Schema) (v : Value ω) : Prop :=
  v.EachDescribed fun descriptor _ => schema.findByDescriptor? descriptor = none

/-! ### What comes back -/

/-- What is read of a value, after it was written: the value itself if its live objects stand
outside its described values, and, where all objects in it were written, only then. -/
structure Returns (v written read : Value ω) : Prop where
  whole : v.ObjectsOutside → read = v
  outside : written.HoldsNoObject → read = v → v.ObjectsOutside

namespace Returns

variable {v w u : Value ω}

/-- A value comes back that has no object in its described values. -/
theorem same (h : v.ObjectsOutside) : Returns v w v := ⟨fun _ => rfl, fun _ _ => h⟩

/-- A described value is read as it was written. -/
theorem described {descriptor body : Value ω} (h : body.HoldsNoObject → w = body) :
    Returns (.described descriptor body) (.described descriptor w) (.described descriptor w) := by
  constructor
  · intro houtside
    rw [h (Value.eachDescribed_described.1 houtside).1]
  · rintro hw ⟨⟩
    exact hw.objectsOutside

/-- A list comes back item by item. -/
theorem list_cons {vs ws us : List (Value ω)} (h : Returns v w u)
    (hrest : Returns (.list vs) (.list ws) (.list us)) :
    Returns (.list (v :: vs)) (.list (w :: ws)) (.list (u :: us)) := by
  constructor
  · intro houtside
    obtain ⟨hfirst, htail⟩ := List.forall_mem_cons.1 (Value.eachDescribed_list.1 houtside)
    cases hrest.whole (Value.eachDescribed_list.2 htail)
    rw [h.whole hfirst]
  · rintro hw ⟨⟩
    have htail : (Value.list ws).HoldsNoObject := by
      rintro object (_ | ⟨hmem, hpart⟩)
      exact hw object (.item (List.mem_cons_of_mem _ hmem) hpart)
    refine Value.eachDescribed_list.2 (List.forall_mem_cons.2 ⟨?_, ?_⟩)
    · exact h.outside (hw.part (.item List.mem_cons_self .refl)) rfl
    · exact Value.eachDescribed_list.1 (hrest.outside htail rfl)

/-- A map comes back entry by entry. -/
theorem map_cons {k kw ku : Value ω} {vs ws us : List (Value ω × Value ω)} (hkey : Returns k kw ku)
    (h : Returns v w u) (hrest : Returns (.map vs) (.map ws) (.map us)) :
    Returns (.map ((k, v) :: vs)) (.map ((kw, w) :: ws)) (.map ((ku, u) :: us)) := by
  constructor
  · intro houtside
    obtain ⟨hfirst, htail⟩ := List.forall_mem_cons.1 (Value.eachDescribed_map.1 houtside)
    cases hrest.whole (Value.eachDescribed_map.2 htail)
    rw [hkey.whole hfirst.1, h.whole hfirst.2]
  · rintro hw ⟨⟩
    have htail : (Value.map ws).HoldsNoObject := by
      rintro object (_ | _ | ⟨hmem, hpart⟩ | ⟨hmem, hpart⟩)
      · exact hw object (.key (List.mem_cons_of_mem _ hmem) hpart)
      · exact hw object (.value (List.mem_cons_of_mem _ hmem) hpart)
    refine Value.eachDescribed_map.2 (List.forall_mem_cons.2 ⟨⟨?_, ?_⟩, ?_⟩)
    · exact hkey.outside (hw.part (.key List.mem_cons_self .refl)) rfl
    · exact h.outside (hw.part (.value List.mem_cons_self .refl)) rfl
    · exact Value.eachDescribed_map.1 (hrest.outside htail rfl)

theorem list_nil : Returns (.list []) w (.list [] : Value ω) :=
  .same (Value.eachDescribed_of_isPlain rfl)

theorem map_nil : Returns (.map []) w (.map [] : Value ω) :=
  .same (Value.eachDescribed_of_isPlain rfl)

/-- Items that come back one by one come back as a list. -/
theorem exists_items {P : Value ω → Value ω → Prop} {vs ws : List (Value ω)}
    (h : List.Forall₂ (fun v w => ∃ u, P w u ∧ Returns v w u) vs ws) :
    ∃ us, List.Forall₂ P ws us ∧ Returns (.list vs) (.list ws) (.list us) := by
  induction h with
  | nil => exact ⟨[], .nil, list_nil⟩
  | cons hfirst _ ih =>
    obtain ⟨u, hu, hreturns⟩ := hfirst
    obtain ⟨us, hus, hrest⟩ := ih
    exact ⟨u :: us, .cons hu hus, hreturns.list_cons hrest⟩

end Returns

section Values

variable {schema : Schema} {written : WriteRequest ω → Except Error (Value ω) → Prop}
  {answers : Value ω → Except Error ω → Prop}

mutual

/-- A value without live objects is written as it is. -/
theorem writeAny_data : ∀ (v : Value ω), v.HoldsNoObject → writeAny v = pure v
  | .live object, h => absurd .refl (h object)
  | .list items, h => by
    rw [writeAny, writeItems_data items fun v hv => h.part (.item hv .refl)]
    rfl
  | .map entries, h => by
    rw [writeAny, writeEntries_data entries fun entry he =>
      ⟨h.part (.key he .refl), h.part (.value he .refl)⟩]
    rfl
  | .described descriptor body, h => by
    rw [writeAny, writeAny_data body (h.part (.body .refl))]
    rfl
  | .null, _ | .bool _, _ | .ubyte _, _ | .ushort _, _ | .uint _, _ | .ulong _, _ | .byte _, _
  | .short _, _ | .int _, _ | .long _, _ | .float _, _ | .double _, _ | .char _, _
  | .timestamp _, _ | .binary _, _ | .string _, _ | .symbol _, _ => rfl

theorem writeItems_data : ∀ (items : List (Value ω)), (∀ v ∈ items, v.HoldsNoObject) →
    writeItems items = pure items
  | [], _ => rfl
  | v :: rest, h => by
    rw [List.forall_mem_cons] at h
    rw [writeItems, writeAny_data v h.1, writeItems_data rest h.2]
    rfl

theorem writeEntries_data : ∀ (entries : List (Value ω × Value ω)),
    (∀ entry ∈ entries, entry.1.HoldsNoObject ∧ entry.2.HoldsNoObject) →
    writeEntries entries = pure entries
  | [], _ => rfl
  | (k, v) :: rest, h => by
    rw [List.forall_mem_cons] at h
    rw [writeEntries, writeAny_data k h.1.1, writeAny_data v h.1.2, writeEntries_data rest h.2]
    rfl

end

/-- A written object is read back where values of type `*` are read. -/
theorem Restores.readAny (h : Restores schema written answers) {q : WriteRequest ω} {v : Value ω}
    (hv : written q (.ok v)) :
    Gives answers (SelfDescribing.readAny schema v) (.live q.object) := by
  obtain ⟨⟨descriptor, body, rfl, hlisted⟩, hread⟩ := h q v hv
  rw [SelfDescribing.readAny, if_pos hlisted]
  exact (Gives.request hread).bind (.pure _)

mutual

/-- Values of type `*` are read back, but for the objects inside described values. -/
theorem readAny_writeAny (h : Restores schema written answers) : ∀ (v : Value ω) {w : Value ω},
    schema.ListsNone v → (writeAny v).Ends written (.ok w) →
    ∃ u, Gives answers (readAny schema w) u ∧ Returns v w u
  | .live object, w, _, hw => by
    rw [writeAny, writeObject, Ends.request_iff] at hw
    exact ⟨.live object, h.readAny hw, .same (Value.eachDescribed_of_isPlain rfl)⟩
  | .list items, w, hnone, hw => by
    rw [writeAny, Ends.bind_ok_iff] at hw
    obtain ⟨ws, hws, hw⟩ := hw
    cases Ends.pure_iff.1 hw
    obtain ⟨us, hread, hreturns⟩ :=
      readItems_writeItems h items (Value.eachDescribed_list.1 hnone) hws
    rw [readAny]
    exact ⟨.list us, hread.bind (.pure _), hreturns⟩
  | .map entries, w, hnone, hw => by
    rw [writeAny, Ends.bind_ok_iff] at hw
    obtain ⟨ws, hws, hw⟩ := hw
    cases Ends.pure_iff.1 hw
    obtain ⟨us, hread, hreturns⟩ :=
      readEntries_writeEntries h entries (Value.eachDescribed_map.1 hnone) hws
    rw [readAny]
    exact ⟨.map us, hread.bind (.pure _), hreturns⟩
  | .described descriptor body, w, hnone, hw => by
    rw [writeAny, Ends.bind_ok_iff] at hw
    obtain ⟨inner, hinner, hw⟩ := hw
    cases Ends.pure_iff.1 hw
    -- The schema does not list it, so that the reader leaves it with what was written inside.
    refine ⟨.described descriptor inner, ?_, .described fun hdata => ?_⟩
    · rw [readAny, (Value.eachDescribed_described.1 hnone).1]
      exact .pure _
    · rw [writeAny_data body hdata, Ends.pure_iff] at hinner
      cases hinner
      rfl
  | .null, w, _, hw | .bool _, w, _, hw | .ubyte _, w, _, hw | .ushort _, w, _, hw
  | .uint _, w, _, hw | .ulong _, w, _, hw | .byte _, w, _, hw | .short _, w, _, hw
  | .int _, w, _, hw | .long _, w, _, hw | .float _, w, _, hw | .double _, w, _, hw
  | .char _, w, _, hw | .timestamp _, w, _, hw | .binary _, w, _, hw | .string _, w, _, hw
  | .symbol _, w, _, hw => by
    cases Ends.pure_iff.1 hw
    exact ⟨_, .pure _, .same (Value.eachDescribed_of_isPlain rfl)⟩

theorem readItems_writeItems (h : Restores schema written answers) :
    ∀ (items : List (Value ω)) {ws : List (Value ω)}, (∀ v ∈ items, schema.ListsNone v) →
      (writeItems items).Ends written (.ok ws) →
      ∃ us, Gives answers (readItems schema ws) us ∧ Returns (.list items) (.list ws) (.list us)
  | [], ws, _, hw => by
    cases Ends.pure_iff.1 hw
    exact ⟨[], .pure _, .list_nil⟩
  | v :: rest, ws, hnone, hw => by
    rw [writeItems, Ends.bind_ok_iff] at hw
    obtain ⟨w, hv, hw⟩ := hw
    rw [Ends.bind_ok_iff] at hw
    obtain ⟨ws, hrest, hw⟩ := hw
    cases Ends.pure_iff.1 hw
    rw [List.forall_mem_cons] at hnone
    obtain ⟨u, hu, hfirst⟩ := readAny_writeAny h v hnone.1 hv
    obtain ⟨us, hus, hreturns⟩ := readItems_writeItems h rest hnone.2 hrest
    rw [readItems]
    exact ⟨u :: us, hu.bind (hus.bind (.pure _)), hfirst.list_cons hreturns⟩

theorem readEntries_writeEntries (h : Restores schema written answers) :
    ∀ (entries : List (Value ω × Value ω)) {ws : List (Value ω × Value ω)},
      (∀ entry ∈ entries, schema.ListsNone entry.1 ∧ schema.ListsNone entry.2) →
      (writeEntries entries).Ends written (.ok ws) →
      ∃ us, Gives answers (readEntries schema ws) us ∧ Returns (.map entries) (.map ws) (.map us)
  | [], ws, _, hw => by
    cases Ends.pure_iff.1 hw
    exact ⟨[], .pure _, .map_nil⟩
  | (k, v) :: rest, ws, hnone, hw => by
    -- Key, value and rest were written in this order, and are read in it.
    rw [writeEntries, Ends.bind_ok_iff] at hw
    obtain ⟨kw, hk, hw⟩ := hw
    rw [Ends.bind_ok_iff] at hw
    obtain ⟨vw, hv, hw⟩ := hw
    rw [Ends.bind_ok_iff] at hw
    obtain ⟨ws, hrest, hw⟩ := hw
    cases Ends.pure_iff.1 hw
    rw [List.forall_mem_cons] at hnone
    obtain ⟨ku, hku, hkey⟩ := readAny_writeAny h k hnone.1.1 hk
    obtain ⟨u, hu, hvalue⟩ := readAny_writeAny h v hnone.1.2 hv
    obtain ⟨us, hus, hreturns⟩ := readEntries_writeEntries h rest hnone.2 hrest
    rw [readEntries]
    exact ⟨(ku, u) :: us, hku.bind (hu.bind (hus.bind (.pure _))), hkey.map_cons hvalue hreturns⟩

end

/-- Only null is written as null. -/
theorem eq_null_of_writeAny (h : Restores schema written answers) {v : Value ω}
    (hw : (writeAny v).Ends written (.ok .null)) : v = .null := by
  cases v with
  | null => rfl
  | live object =>
    rw [writeAny, writeObject, Ends.request_iff] at hw
    obtain ⟨⟨descriptor, body, he, -⟩, -⟩ := h _ _ hw
    cases he
  | list items | map entries | described descriptor body =>
    rw [writeAny, Ends.bind_ok_iff] at hw
    obtain ⟨ws, -, hw⟩ := hw
    cases Ends.pure_iff.1 hw
  | _ => cases Ends.pure_iff.1 hw

theorem readTyped_null (schema : Schema) (property : String) (type : FieldType) :
    readTyped (ω := ω) schema property type .null = pure .null := by cases type <;> rfl

/-- As the type of all values is written what any value is. -/
theorem writeTyped_any (owner property : String) (v : Value ω) :
    writeTyped owner property .any v = writeAny v := by cases v <;> rfl

/-- As the type of all values is read what any value is. -/
theorem readTyped_any (schema : Schema) (property : String) (v : Value ω) :
    readTyped schema property .any v = readAny schema v := by
  cases v with
  | null => rfl
  | _ =>
    rw [readTyped]
    intro h
    cases h

/-- A primitive value that is not null is written if it is of the declared type. -/
theorem writeTyped_primitive (owner property : String) (p : Primitive) {v : Value ω}
    (hv : v ≠ .null) : writeTyped owner property (.primitive p) v =
      if v.primitive? = some p then return v
      else throw (.propertyMismatch owner property (.getterReturned v.kind p.name)) := by
  rw [writeTyped]
  exact hv

/-- A primitive value that is not null is read if it is of the declared type. -/
theorem readTyped_primitive (schema : Schema) (property : String) (p : Primitive) {v : Value ω}
    (hv : v ≠ .null) : readTyped schema property (.primitive p) v =
      if v.primitive? = some p then return v
      else throw (.malformed (.propertyKind property p.name v.kind)) := by
  rw [readTyped]
  exact hv

/-- A value of a registered type is read as an object, whatever the name of the type is. -/
theorem readTyped_named (schema : Schema) (property name : String) {v : Value ω} (hv : v ≠ .null) :
    readTyped schema property (.named name) v = do return .live (← readObject v) := by
  rw [readTyped]
  exact hv

/-- A list is read item by item, as the element type. -/
theorem readTyped_list (schema : Schema) (property : String) (element : FieldType)
    (items : List (Value ω)) : readTyped schema property (.list element) (.list items) = do
      return .list (← items.mapM (readTyped schema property element)) := by
  rw [readTyped]

/-- What is neither null nor a list is refused where a list is declared. -/
theorem readTyped_not_list (schema : Schema) (property : String) (element : FieldType)
    {v : Value ω} (hv : v ≠ .null) (hlist : ∀ items, v ≠ .list items) :
    readTyped schema property (.list element) v =
      throw (.malformed (.propertyKind property "a list" v.kind)) := by
  rw [readTyped]
  · exact hv
  · exact hlist

/-- Values of a declared type are read back, but for the objects inside described values, and only
null is written as null. -/
theorem readTyped_writeTyped (h : Restores schema written answers) {owner property : String} :
    ∀ {type : FieldType} {v w : Value ω}, schema.ListsNone v →
      (writeTyped owner property type v).Ends written (.ok w) →
      (∃ u, Gives answers (readTyped schema property type w) u ∧ Returns v w u) ∧
        (w = .null → v = .null) := by
  -- By the declared type: only the elements of a list need the induction.
  intro type
  induction type with
  | any =>
    intro v w hnone hw
    rw [writeTyped_any] at hw
    rw [readTyped_any]
    refine ⟨readAny_writeAny h v hnone hw, ?_⟩
    rintro rfl
    exact eq_null_of_writeAny h hw
  | named name =>
    intro v w _ hw
    cases v with
    | null =>
      cases Ends.pure_iff.1 hw
      exact ⟨⟨.null, .pure _, .same (Value.eachDescribed_of_isPlain rfl)⟩, id⟩
    | live object =>
      obtain ⟨⟨descriptor, body, rfl, -⟩, hread⟩ := h _ _ (Ends.request_iff.1 hw)
      refine ⟨⟨.live object, (Gives.request hread).bind (.pure _),
        .same (Value.eachDescribed_of_isPlain rfl)⟩, ?_⟩
      intro he
      cases he
    | _ => cases Ends.throw_iff.1 hw
  | list element ih =>
    intro v w hnone hw
    cases v with
    | null =>
      cases Ends.pure_iff.1 hw
      exact ⟨⟨.null, .pure _, .same (Value.eachDescribed_of_isPlain rfl)⟩, id⟩
    | list items =>
      rw [writeTyped, Ends.bind_ok_iff] at hw
      obtain ⟨ws, hws, hw⟩ := hw
      cases Ends.pure_iff.1 hw
      have hitems := (List.forall₂_and_left _ _).2
        ⟨Value.eachDescribed_list.1 hnone, Ends.mapM_ok hws⟩
      obtain ⟨us, hus, hreturns⟩ :=
        Returns.exists_items (hitems.imp fun v w hvw => (ih hvw.1 hvw.2).1)
      refine ⟨⟨.list us, (Gives.mapM hus).bind (.pure _), hreturns⟩, ?_⟩
      intro he
      cases he
    | _ => cases Ends.throw_iff.1 hw
  | primitive p =>
    intro v w _ hw
    by_cases hv : v = .null
    · subst hv
      cases Ends.pure_iff.1 hw
      exact ⟨⟨.null, .pure _, .same (Value.eachDescribed_of_isPlain rfl)⟩, id⟩
    · rw [writeTyped_primitive owner property p hv] at hw
      split at hw
      · rename_i hkind
        cases Ends.pure_iff.1 hw
        rw [readTyped_primitive schema property p hv, if_pos hkind]
        have hplain : v.isPlain = true := by
          cases v with
          | list | map | described => cases hkind
          | _ => rfl
        exact ⟨⟨v, .pure _, .same (Value.eachDescribed_of_isPlain hplain)⟩, id⟩
      · cases Ends.throw_iff.1 hw

end Values

/-! ### Properties -/

/-- A live object has a value as a property. -/
def PropertyCodec.Holds (p : PropertyCodec ω) (object : ω) (v : Value ω) : Prop :=
  ∃ getter, p.getter = some getter ∧ getter object = .ok v

/-- An object has one value as a property. -/
theorem PropertyCodec.Holds.unique {p : PropertyCodec ω} {object : ω} {v v' : Value ω}
    (h : p.Holds object v) (h' : p.Holds object v') : v' = v := by
  obtain ⟨getter, hgetter, hv⟩ := h
  obtain ⟨getter', hgetter', hv'⟩ := h'
  cases hgetter.symm.trans hgetter'
  cases hv.symm.trans hv'
  rfl

/-- A value that a property may have: without described values, and null only where that is
allowed. -/
def PropertyCodec.Fits (p : PropertyCodec ω) (v : Value ω) : Prop :=
  v.isPlain = true ∧ (v = .null → p.nullable = true)

/-- A value that a property may have under a schema: its live objects stand outside its described
values, which the schema does not list, and it is null only where that is allowed. -/
def PropertyCodec.FitsIn (p : PropertyCodec ω) (schema : Schema) (v : Value ω) : Prop :=
  v.ObjectsOutside ∧ schema.ListsNone v ∧ (v = .null → p.nullable = true)

/-- What fits a property fits it whatever a schema tells. -/
theorem PropertyCodec.Fits.fitsIn {p : PropertyCodec ω} {v : Value ω} (h : p.Fits v)
    (schema : Schema) : p.FitsIn schema v :=
  ⟨Value.eachDescribed_of_isPlain h.1, Value.eachDescribed_of_isPlain h.1, h.2⟩

section Objects

variable {schema : Schema} {written : WriteRequest ω → Except Error (Value ω) → Prop}
  {answers : Value ω → Except Error ω → Prop} {owner : String} {object : ω}

/-- A property is read back with the value that its getter gave, but for the objects inside
described values. -/
theorem PropertyCodec.read_write (h : Restores schema written answers) {p : PropertyCodec ω}
    (hfits : ∀ v, p.Holds object v → schema.ListsNone v ∧ (v = .null → p.nullable = true))
    {w : Value ω} (hw : (p.write owner object).Ends written (.ok w)) :
    ∃ v u, p.Holds object v ∧ Gives answers (p.read schema w) u ∧ Returns v w u := by
  unfold PropertyCodec.write at hw
  split at hw
  · cases Ends.throw_iff.1 hw
  · rename_i getter hgetter
    rw [Ends.bind_ok_iff] at hw
    obtain ⟨v, hv, hw⟩ := hw
    have hholds : p.Holds object v := ⟨getter, hgetter, (Ends.done_iff.1 hv).symm⟩
    obtain ⟨hnone, hnull⟩ := hfits v hholds
    obtain ⟨⟨u, hread, hreturns⟩, heq⟩ := readTyped_writeTyped h hnone hw
    -- A null that is read was a null that the getter gave, which is then allowed.
    have hallowed : ¬ (w.isNull && !p.nullable) = true := by
      cases w with
      | null => simp [hnull (heq rfl)]
      | _ => simp [Value.isNull]
    refine ⟨v, u, hholds, ?_, hreturns⟩
    rw [PropertyCodec.read, if_neg hallowed]
    exact hread

/-! ### Objects -/

/-- The constructor of a shape makes an object from what the getters give for it. -/
def ObjectCodec.Rebuilds (c : ObjectCodec ω) (object : ω) : Prop :=
  ∀ values, List.Forall₂ (fun p v => p.Holds object v) c.properties values →
    ∃ constructor, c.constructor = some constructor ∧ constructor.build values = .ok object

/-- A custom codec reads the body that it writes for an object as this object, wherever the
objects inside it are read back. -/
def BoundCodec.Undoes (b : BoundCodec ω) (object : ω) : Prop :=
  ∀ schema written answers body, Restores schema written answers →
    (b.codec.write b.typeName object).Ends written (.ok body) →
    Gives answers (b.codec.read schema body) object

/-- What the writer of an object must promise for the object to be read back. -/
def Codec.Undoes (object : ω) : Codec ω → Prop
  | .object c => c.Rebuilds object ∧ ∀ p ∈ c.properties, ∀ v, p.Holds object v → p.Fits v
  | .custom b => b.Undoes object
  | .evolution _ => True

/-- A custom codec reads the body that it writes for an object as this object, wherever the
objects inside it are read back under a schema. -/
def BoundCodec.UndoesIn (b : BoundCodec ω) (schema : Schema) (object : ω) : Prop :=
  ∀ written answers body, Restores schema written answers →
    (b.codec.write b.typeName object).Ends written (.ok body) →
    Gives answers (b.codec.read schema body) object

/-- What the writer of an object must promise for the object to be read back under a schema. -/
def Codec.UndoesIn (schema : Schema) (object : ω) : Codec ω → Prop
  | .object c => c.Rebuilds object ∧ ∀ p ∈ c.properties, ∀ v, p.Holds object v → p.FitsIn schema v
  | .custom b => b.UndoesIn schema object
  | .evolution _ => True

/-- A codec that undoes its writing does so whatever a schema tells. -/
theorem Codec.Undoes.undoesIn {c : Codec ω} (h : c.Undoes object) (schema : Schema) :
    c.UndoesIn schema object := by
  cases c with
  | object c => exact ⟨h.1, fun p hp v hv => (h.2 p hp v hv).fitsIn schema⟩
  | custom b => exact h schema
  | evolution c => trivial

/-- All properties of an object are read back with the values that their getters gave, but for the
objects inside described values. -/
theorem read_write_all (h : Restores schema written answers) {properties : List (PropertyCodec ω)}
    (hfits : ∀ p ∈ properties, ∀ v, p.Holds object v →
      schema.ListsNone v ∧ (v = .null → p.nullable = true)) {ws : List (Value ω)}
    (hws : List.Forall₂ (fun p w => (p.write owner object).Ends written (.ok w)) properties ws) :
    ∃ values us, List.Forall₂ (fun p v => p.Holds object v) properties values ∧
      List.Forall₂ (fun (p, w) u => Gives answers (p.read schema w) u) (properties.zip ws) us ∧
      List.Forall₂ (fun v u => v.ObjectsOutside → u = v) values us ∧
      ((∀ w ∈ ws, w.HoldsNoObject) →
        List.Forall₂ (fun v u => u = v ↔ v.ObjectsOutside) values us) := by
  induction hws with
  | nil => exact ⟨[], [], .nil, .nil, .nil, fun _ => .nil⟩
  | cons hw _ ih =>
    rw [List.forall_mem_cons] at hfits
    obtain ⟨v, u, hv, hread, hreturns⟩ := PropertyCodec.read_write h hfits.1 hw
    obtain ⟨values, us, hholds, hreads, hwhole, hdata⟩ := ih hfits.2
    refine ⟨v :: values, u :: us, .cons hv hholds, .cons hread hreads,
      .cons hreturns.whole hwhole, fun hnone => ?_⟩
    rw [List.forall_mem_cons] at hnone
    exact .cons ⟨hreturns.outside hnone.1, hreturns.whole⟩ (hdata hnone.2)

/-- The body of an object of a shape is read as what its constructor makes of the values that the
getters gave, but for the objects inside described values. -/
theorem ObjectCodec.ends_read (h : Restores schema written answers) {c : ObjectCodec ω}
    (hfits : ∀ p ∈ c.properties, ∀ v, p.Holds object v →
      schema.ListsNone v ∧ (v = .null → p.nullable = true))
    {w : Value ω} (hw : (c.write owner object).Ends written (.ok w)) :
    ∃ ws values us, w = c.composite.descriptor.describe (.list ws) ∧
      List.Forall₂ (fun p v => p.Holds object v) c.properties values ∧
      List.Forall₂ (fun v u => v.ObjectsOutside → u = v) values us ∧
      ((∀ w ∈ ws, w.HoldsNoObject) →
        List.Forall₂ (fun v u => u = v ↔ v.ObjectsOutside) values us) ∧
      ∀ k, c.constructor = some k → ∀ result,
        (c.read schema (.list ws)).Ends answers result → result = k.build us := by
  rw [ObjectCodec.write, Ends.bind_ok_iff] at hw
  obtain ⟨ws, hws, hw⟩ := hw
  cases Ends.pure_iff.1 hw
  obtain ⟨values, us, hholds, hreads, hwhole, hdata⟩ :=
    read_write_all h hfits (Ends.mapM_ok hws)
  refine ⟨ws, values, us, rfl, hholds, hwhole, hdata, fun k hk result hresult => ?_⟩
  have hlength : ws.length = c.properties.length := (Ends.mapM_ok hws).length_eq.symm
  rw [ObjectCodec.read, ObjectCodec.construct, hk] at hresult
  simp only [hlength, ne_eq, not_true_eq_false, if_false] at hresult
  exact Ends.done_iff.1 ((Gives.mapM hreads).ends_bind hresult)

theorem ObjectCodec.read_write (h : Restores schema written answers) {c : ObjectCodec ω}
    (hbuilds : c.Rebuilds object)
    (hfits : ∀ p ∈ c.properties, ∀ v, p.Holds object v → p.FitsIn schema v)
    {v : Value ω} (hw : (c.write owner object).Ends written (.ok v)) :
    ∃ body, v = c.composite.descriptor.describe body ∧
      Gives answers (c.read schema body) object := by
  obtain ⟨ws, values, us, rfl, hholds, hwhole, -, hread⟩ :=
    ObjectCodec.ends_read h (fun p hp v hv => (hfits p hp v hv).2) hw
  -- All values are whole, so that they are what the constructor gets.
  have houtside : ∀ v ∈ values, v.ObjectsOutside := by
    intro v hv
    obtain ⟨p, hp, hpv⟩ := exists_of_forall₂ hholds.flip hv
    exact (hfits p hp v hpv).1
  have heq : List.Forall₂ (fun v u => u = v) values us :=
    ((List.forall₂_and_left _ _).2 ⟨houtside, hwhole⟩).imp fun v u huv => huv.2 huv.1
  obtain rfl : us = values := List.forall₂_eq_eq_eq ▸ heq.flip
  obtain ⟨k, hk, hbuild⟩ := hbuilds us hholds
  exact ⟨.list ws, rfl, fun result hresult => (hread k hk result hresult).trans hbuild⟩

/-- What a custom codec writes is what it tells as the body, with its tag. -/
theorem Codec.ends_write_custom [LiveObject ω] {b : BoundCodec ω} {v : Value ω}
    (hw : ((Codec.custom b).write owner object).Ends written (.ok v)) :
    ∃ body, (b.codec.write owner object).Ends written (.ok body) ∧
      v = b.type.descriptor.describe body := by
  rw [Codec.write, BoundCodec.write] at hw
  split at hw
  · obtain ⟨_, hthrow, _⟩ := Ends.bind_ok_iff.1 hw
    cases Ends.throw_iff.1 hthrow
  · obtain ⟨body, hbody, hw⟩ := Ends.bind_ok_iff.1 hw
    exact ⟨body, hbody, Except.ok.inj (Ends.pure_iff.1 hw)⟩

/-- An object is read back from the body that it was written as. -/
theorem Codec.read_write [LiveObject ω] (h : Restores schema written answers) {c : Codec ω}
    (hundoes : c.UndoesIn schema object) {v : Value ω}
    (hw : (c.write c.typeName object).Ends written (.ok v)) :
    ∃ body, v = c.descriptor.describe body ∧ Gives answers (c.read schema body) object := by
  cases c with
  | object c => exact ObjectCodec.read_write h hundoes.1 hundoes.2 hw
  | custom b =>
    obtain ⟨body, hbody, rfl⟩ := Codec.ends_write_custom hw
    exact ⟨body, rfl, hundoes _ _ _ h hbody⟩
  | evolution c => cases Ends.throw_iff.1 hw

end Objects

end SelfDescribing
