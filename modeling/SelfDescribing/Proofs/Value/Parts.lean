import SelfDescribing.Wire.Encode

namespace SelfDescribing

/-!
# Parts of values

`Value.PartOf` — a value that stands in another one: among its items, keys, values or bodies,
however deep, but not in a descriptor.

* `Value.EachDescribed` — all described values in a value have a property.
* `Value.HoldsNoObject` — no live object stands in a value.
* `Value.ObjectsOutside` — the live objects in a value stand outside its described values.
-/

variable {ω : Type}

/-- A value that stands in another one, or is it. -/
inductive Value.PartOf (v : Value ω) : Value ω → Prop
  | refl : PartOf v v
  | item {item items} : item ∈ items → PartOf v item → PartOf v (.list items)
  | key {entry entries} : entry ∈ entries → PartOf v entry.1 → PartOf v (.map entries)
  | value {entry entries} : entry ∈ entries → PartOf v entry.2 → PartOf v (.map entries)
  | body {descriptor body} : PartOf v body → PartOf v (.described descriptor body)

namespace Value

/-- A part of a part is a part. -/
theorem PartOf.trans {u v w : Value ω} (huv : u.PartOf v) (hvw : v.PartOf w) : u.PartOf w := by
  induction hvw with
  | refl => exact huv
  | item hmem _ ih => exact .item hmem ih
  | key hmem _ ih => exact .key hmem ih
  | value hmem _ ih => exact .value hmem ih
  | body _ ih => exact .body ih

/-- No item nests deeper than the list of items does. -/
theorem nesting_le_itemsNesting {items : List (Value ω)} {v : Value ω} (h : v ∈ items) :
    v.nesting ≤ itemsNesting items := by
  induction items with
  | nil => cases h
  | cons first rest ih =>
    rw [itemsNesting]
    obtain rfl | h := List.mem_cons.1 h
    · omega
    · have := ih h
      omega

/-- Neither the key nor the value of an entry nests deeper than the entries do. -/
theorem nesting_le_entriesNesting {entries : List (Value ω × Value ω)}
    {entry : Value ω × Value ω} (h : entry ∈ entries) :
    entry.1.nesting ≤ entriesNesting entries ∧ entry.2.nesting ≤ entriesNesting entries := by
  induction entries with
  | nil => cases h
  | cons first rest ih =>
    rw [entriesNesting]
    obtain rfl | h := List.mem_cons.1 h
    · omega
    · have := ih h
      omega

/-- A part nests no deeper than the whole. -/
theorem PartOf.nesting_le {v w : Value ω} (h : v.PartOf w) : v.nesting ≤ w.nesting := by
  induction h with
  | refl => exact Nat.le_refl _
  | @item item items hmem _ ih =>
    -- An item is in a list that is not empty, which therefore has a level.
    have hitem := nesting_le_itemsNesting hmem
    have hempty : items.isEmpty = false := by
      cases items with
      | nil => cases hmem
      | cons => rfl
    simp only [nesting, hempty, Bool.false_eq_true, if_false]
    omega
  | key hmem _ ih =>
    have hentry := (nesting_le_entriesNesting hmem).1
    rw [nesting]
    omega
  | value hmem _ ih =>
    have hentry := (nesting_le_entriesNesting hmem).2
    rw [nesting]
    omega
  -- Only the body counts here; the descriptor may be nested deeper still.
  | body _ ih =>
    rw [nesting]
    omega

/-! ### Described values in a value -/

/-- Every described value in a value has a descriptor and a body that are related. -/
def EachDescribed (P : Value ω → Value ω → Prop) (v : Value ω) : Prop :=
  ∀ descriptor body, (described descriptor body).PartOf v → P descriptor body

section EachDescribed

variable {P : Value ω → Value ω → Prop}

/-- What holds of the described values in a value holds of those in a part of it. -/
theorem EachDescribed.part {v w : Value ω} (h : w.EachDescribed P) (hv : v.PartOf w) :
    v.EachDescribed P :=
  fun descriptor body hpart => h descriptor body (hpart.trans hv)

/-- The described values in a list are those in its items. -/
theorem eachDescribed_list {items : List (Value ω)} :
    (list items).EachDescribed P ↔ ∀ v ∈ items, v.EachDescribed P := by
  constructor
  · exact fun h v hv => h.part (.item hv .refl)
  · rintro h descriptor body (_ | ⟨hv, hpart⟩)
    exact h _ hv descriptor body hpart

/-- The described values in a map are those in its keys and values. -/
theorem eachDescribed_map {entries : List (Value ω × Value ω)} :
    (map entries).EachDescribed P ↔
      ∀ entry ∈ entries, entry.1.EachDescribed P ∧ entry.2.EachDescribed P := by
  constructor
  · exact fun h entry he => ⟨h.part (.key he .refl), h.part (.value he .refl)⟩
  · rintro h descriptor body (_ | _ | ⟨he, hpart⟩ | ⟨he, hpart⟩)
    · exact (h _ he).1 descriptor body hpart
    · exact (h _ he).2 descriptor body hpart

/-- The described values in a described value are this one and those in its body. -/
theorem eachDescribed_described {descriptor body : Value ω} :
    (described descriptor body).EachDescribed P ↔ P descriptor body ∧ body.EachDescribed P := by
  constructor
  · exact fun h => ⟨h descriptor body .refl, h.part (.body .refl)⟩
  · rintro h _ _ (_ | _ | _ | _ | hpart)
    · exact h.1
    · exact h.2 _ _ hpart

end EachDescribed

/-! ### Where live objects stand -/

/-- No live object stands in a value. -/
def HoldsNoObject (v : Value ω) : Prop := ∀ object, ¬ (live object).PartOf v

/-- No live object stands in the body of a described value in a value. -/
def ObjectsOutside (v : Value ω) : Prop := v.EachDescribed fun _ body => body.HoldsNoObject

/-- No object is in a part of a value that holds none. -/
theorem HoldsNoObject.part {v w : Value ω} (h : w.HoldsNoObject) (hv : v.PartOf w) :
    v.HoldsNoObject :=
  fun object hpart => h object (hpart.trans hv)

/-- A value without objects has none in its described values either. -/
theorem HoldsNoObject.objectsOutside {v : Value ω} (h : v.HoldsNoObject) : v.ObjectsOutside :=
  fun _ _ hpart => (h.part hpart).part (.body .refl)

end Value

end SelfDescribing
