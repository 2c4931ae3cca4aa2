import SelfDescribing.Proofs.Codec.Evolving
import SelfDescribing.Proofs.Codec.Restoring

namespace SelfDescribing

open Steps Exchange

/-!
# What constructors are handed

Whatever a body holds, the arguments that a codec reads off it have the types that are declared for
them, but for the types of live objects, which reading does not look at.

* `Value.Conforms` — a value is of a declared type, given which objects fit a registered type.
* `FieldType.places` — the parts of a value that are read as objects of registered types.
* `Codec.arguments` — reading a body up to its constructor, which `Codec.read_eq` tells apart.
* `Codec.accepts_of_arguments` — the arguments conform, if the objects that are read fit.

Reading checks primitive values and lists by their declared types, but takes any object for an
object.  So what conforms is said relative to a predicate on objects, which `Proofs/Factory/Handing`
then provides for a whole payload.  The induction is on the declared type for single values and on
the list of parameters for bodies.
-/

variable {ω : Type}

/-- A value is of a type: not null, a primitive value of the very primitive, a list whose items are
null or of the element type, or a live object that fits the type that is named. -/
def Value.Conforms (fits : String → ω → Prop) : FieldType → Value ω → Prop
  | .any, v => v ≠ .null
  | .named name, v => ∃ object, v = .live object ∧ fits name object
  | .list element, v => ∃ items, v = .list items ∧
      ∀ item ∈ items, item = .null ∨ Conforms fits element item
  | .primitive p, v => v.primitive? = some p

/-- Null conforms to no type; whether it is allowed is said of properties. -/
theorem Value.Conforms.ne_null {fits : String → ω → Prop} {type : FieldType} {v : Value ω}
    (h : v.Conforms fits type) : v ≠ .null := by
  rintro rfl
  cases type with
  | any => exact h rfl
  | named name =>
    obtain ⟨_, he, -⟩ := h
    cases he
  | list element =>
    obtain ⟨_, he, -⟩ := h
    cases he
  | primitive p => cases h

/-- Conforming only gets easier where objects fit more names. -/
theorem Value.Conforms.mono {fits fits' : String → ω → Prop}
    (hfits : ∀ name object, fits name object → fits' name object) {type : FieldType} {v : Value ω}
    (h : v.Conforms fits type) : v.Conforms fits' type := by
  induction type generalizing v with
  | any => exact h
  | named name =>
    obtain ⟨object, rfl, hobject⟩ := h
    exact ⟨object, rfl, hfits name object hobject⟩
  | list element ih =>
    obtain ⟨items, rfl, hitems⟩ := h
    exact ⟨items, rfl, fun item hitem => (hitems item hitem).imp_right ih⟩
  | primitive p => exact h

/-- The parts of a value that are read as objects, each with the registered type that is declared
for it. -/
def FieldType.places : FieldType → Value ω → List (String × Value ω)
  | _, .null => []
  | .named name, v => [(name, v)]
  | .list element, .list items => items.flatMap element.places
  | _, _ => []

theorem FieldType.places_null (type : FieldType) : type.places (.null : Value ω) = [] := by
  cases type <;> rfl

/-- An argument for a property is of the declared type, or null where the property may be. -/
def PropertyCodec.Accepts (p : PropertyCodec ω) (fits : String → ω → Prop) (v : Value ω) : Prop :=
  v = .null ∧ p.nullable = true ∨ v.Conforms fits p.type

/-- Only a property that may be null accepts null. -/
theorem PropertyCodec.Accepts.nullable {p : PropertyCodec ω} {fits : String → ω → Prop}
    (h : p.Accepts fits .null) : p.nullable = true := by
  obtain ⟨-, hnullable⟩ | hconforms := h
  · exact hnullable
  · exact absurd rfl hconforms.ne_null

theorem PropertyCodec.Accepts.mono {p : PropertyCodec ω} {fits fits' : String → ω → Prop}
    (hfits : ∀ name object, fits name object → fits' name object) {v : Value ω}
    (h : p.Accepts fits v) : p.Accepts fits' v := h.imp_right (.mono hfits)

section Values

variable {schema : Schema} {answers : Value ω → Except Error ω → Prop}
  {fits : String → ω → Prop}

/-- Only null is read as null. -/
theorem ne_null_of_readAny {v w : Value ω} (h : (readAny schema v).Ends answers (.ok w))
    (hv : v ≠ .null) : w ≠ .null := by
  cases v with
  | null => exact absurd rfl hv
  | described descriptor body =>
    rw [readAny] at h
    split at h
    -- A listed tag gives an object, and an unlisted one stays.
    · obtain ⟨object, -, h⟩ := Ends.bind_ok_iff.1 h
      cases Ends.pure_iff.1 h
      exact fun he => nomatch he
    · cases Ends.pure_iff.1 h
      exact fun he => nomatch he
  | list items =>
    obtain ⟨_, -, h⟩ := Ends.bind_ok_iff.1 h
    cases Ends.pure_iff.1 h
    exact fun he => nomatch he
  | map entries =>
    obtain ⟨_, -, h⟩ := Ends.bind_ok_iff.1 h
    cases Ends.pure_iff.1 h
    exact fun he => nomatch he
  | _ =>
    cases Ends.pure_iff.1 h
    exact hv

/-- A value that is read as one of a type is of this type, if the objects read at its places fit. -/
theorem conforms_of_readTyped {property : String} {type : FieldType} {v w : Value ω}
    (h : (readTyped schema property type v).Ends answers (.ok w)) (hv : v ≠ .null)
    (hfits : ∀ x ∈ type.places v, ∀ object, answers x.2 (.ok object) → fits x.1 object) :
    w.Conforms fits type := by
  induction type generalizing v w with
  | any =>
    rw [readTyped_any] at h
    exact ne_null_of_readAny h hv
  | named name =>
    rw [readTyped_named schema property name hv] at h
    obtain ⟨object, hobject, h⟩ := Ends.bind_ok_iff.1 h
    cases Ends.pure_iff.1 h
    have hplace : (name, v) ∈ (FieldType.named name).places v := by
      rw [FieldType.places]
      · exact List.mem_cons_self
      · exact hv
    exact ⟨object, rfl, hfits _ hplace object (Ends.request_iff.1 hobject)⟩
  | primitive p =>
    rw [readTyped_primitive schema property p hv] at h
    split at h
    · cases Ends.pure_iff.1 h
      assumption
    · cases Ends.throw_iff.1 h
  | list element ih =>
    by_cases hlist : ∃ items, v = .list items
    · obtain ⟨items, rfl⟩ := hlist
      rw [readTyped_list] at h
      obtain ⟨ws, hws, h⟩ := Ends.bind_ok_iff.1 h
      cases Ends.pure_iff.1 h
      refine ⟨ws, rfl, fun w hw => ?_⟩
      obtain ⟨item, hitem, hread⟩ := exists_of_forall₂ (Ends.mapM_ok hws).flip hw
      -- An item may be null whatever the element type is.
      by_cases hnull : item = .null
      · rw [hnull, readTyped_null] at hread
        exact .inl (Except.ok.inj (Ends.pure_iff.1 hread))
      · exact .inr (ih hread hnull fun x hx => hfits x (List.mem_flatMap.2 ⟨item, hitem, hx⟩))
    · rw [readTyped_not_list schema property element hv fun items he => hlist ⟨items, he⟩] at h
      cases Ends.throw_iff.1 h

/-- The argument for a property conforms, and is null only if the property may be. -/
theorem PropertyCodec.accepts_of_read {p : PropertyCodec ω} {v w : Value ω}
    (h : (p.read schema v).Ends answers (.ok w))
    (hfits : ∀ x ∈ p.type.places v, ∀ object, answers x.2 (.ok object) → fits x.1 object) :
    p.Accepts fits w := by
  rw [PropertyCodec.read] at h
  by_cases hnull : v = .null
  · rw [hnull] at h
    cases hnullable : p.nullable with
    | false =>
      rw [hnullable] at h
      cases Ends.throw_iff.1 h
    | true =>
      rw [hnullable, readTyped_null] at h
      exact .inl ⟨Except.ok.inj (Ends.pure_iff.1 h), hnullable⟩
  · split at h
    · cases Ends.throw_iff.1 h
    · exact .inr (conforms_of_readTyped h hnull hfits)

end Values

/-! ### Default codecs -/

namespace ObjectCodec

/-- Read the items of an object's body as the arguments of its constructor. -/
def arguments (c : ObjectCodec ω) (schema : Schema) : Value ω → Reading ω (List (Value ω))
  | .list items => do
    if items.length ≠ c.properties.length then
      throw (.malformed (.fieldCount c.typeName c.properties.length items.length))
    (c.properties.zip items).mapM fun (p, v) => p.read schema v
  | v => throw (.malformed (.notFieldList c.typeName v.kind))

/-- The parts of a body that are read as objects of registered types. -/
def places (c : ObjectCodec ω) : Value ω → List (String × Value ω)
  | .list items => (c.properties.zip items).flatMap fun (p, v) => p.type.places v
  | _ => []

/-- Reading is reading the arguments and calling the constructor. -/
theorem read_eq {c : ObjectCodec ω} {k : Constructor ω} (hk : c.constructor = some k)
    (schema : Schema) (body : Value ω) :
    c.read schema body = c.arguments schema body >>= fun args => .done (k.build args) := by
  cases body with
  | list items =>
    rw [read, construct, arguments, hk]
    dsimp only
    split <;> rfl
  | _ => rfl

/-- The arguments that a default codec reads are accepted by its properties, if the objects fit that
are read at declared places. -/
theorem accepts_of_arguments {c : ObjectCodec ω} {schema : Schema} {body : Value ω}
    {answers : Value ω → Except Error ω → Prop} {fits : String → ω → Prop} {args : List (Value ω)}
    (h : (c.arguments schema body).Ends answers (.ok args))
    (hfits : ∀ x ∈ c.places body, ∀ object, answers x.2 (.ok object) → fits x.1 object) :
    List.Forall₂ (fun p v => p.Accepts fits v) c.properties args := by
  cases body with
  | list items =>
    rw [arguments] at h
    split at h
    · obtain ⟨_, hthrow, -⟩ := Ends.bind_ok_iff.1 h
      cases Ends.throw_iff.1 hthrow
    · rename_i hlength
      -- Each argument is read off an item that is paired with its property.
      have hread := (List.forall₂_and_left _ _).2 ⟨fun x hx => hx, Ends.mapM_ok h⟩
      rw [← List.map_fst_zip (Nat.le_of_eq (Decidable.not_not.1 hlength).symm),
        List.forall₂_map_left_iff]
      refine hread.imp fun x w hx => PropertyCodec.accepts_of_read hx.2 fun y hy => ?_
      exact hfits y (List.mem_flatMap.2 ⟨x, hx.1, hy⟩)
  | _ => cases Ends.throw_iff.1 h

end ObjectCodec

/-! ### Evolution codecs -/

namespace EvolutionCodec

/-- A codec that was made for an older shape of some live type. -/
def Made (c : EvolutionCodec ω) : Prop :=
  ∃ old live r, make old live r = .ok c

/-- Read the arguments of the live constructor from an old body. -/
def arguments (c : EvolutionCodec ω) (schema : Schema) : Value ω → Reading ω (List (Value ω))
  | .list items => do
    if items.length ≠ c.composite.fields.length then
      throw (.malformed (.oldFieldCount c.typeName c.composite.fields.length items.length))
    readSources schema c.sources items
  | v => throw (.malformed (.notFieldList c.typeName v.kind))

/-- What is declared for an argument: the old field that feeds it, or the parameter that none
feeds. -/
def declaredFor (p : Param) : Option (OldField ω) → PropertyCodec ω
  | some f => f.codec
  | none => ⟨p.name, p.type, p.nullable, none⟩

/-- What is declared for the arguments. -/
def declared (c : EvolutionCodec ω) : List (PropertyCodec ω) :=
  List.zipWith declaredFor c.constructor.params c.sources

/-- The parts of an old body that are read as objects of registered types. -/
def places (c : EvolutionCodec ω) : Value ω → List (String × Value ω)
  | .list items => (c.sources.filterMap id).flatMap fun f =>
      f.codec.type.places (items.getD f.index .null)
  | _ => []

/-- Reading is reading the arguments and calling the constructor. -/
theorem read_eq (c : EvolutionCodec ω) (schema : Schema) (body : Value ω) :
    c.read schema body =
      c.arguments schema body >>= fun args => .done (c.constructor.build args) := by
  cases body with
  | list items =>
    rw [read, arguments]
    split <;> rfl
  | _ => rfl

/-- Parameters that nothing feeds may be null. -/
theorem Made.nullable {c : EvolutionCodec ω} (h : c.Made) :
    List.Forall₂ (fun p source => source = none → p.nullable = true) c.constructor.params
      c.sources := by
  obtain ⟨old, live, r, hmake⟩ := h
  unfold make at hmake
  split at hmake
  · cases hmake
  · obtain ⟨sources, hsources, hmake⟩ := except_bind_eq_ok.1 hmake
    cases hmake
    refine (forall₂_of_except_mapM hsources).imp fun p source hsource hnone => ?_
    rw [hnone, sourceFor] at hsource
    split at hsource
    · split at hsource <;> cases hsource
    · split at hsource
      · assumption
      · cases hsource

/-- What is left where items are taken out is null, or what was there. -/
theorem getD_set_cases (items : List (Value ω)) (i j : Nat) :
    (items.set i .null).getD j .null = .null ∨
      (items.set i .null).getD j .null = items.getD j .null := by
  rw [List.getD_eq_getElem?_getD, List.getElem?_set]
  split
  · split <;> exact .inl rfl
  · exact .inr (List.getD_eq_getElem?_getD ..).symm

/-- What is read of old fields is accepted by the parameters, if the objects fit that are read at
the places of these fields. -/
theorem accepts_of_readSources {schema : Schema} {answers : Value ω → Except Error ω → Prop}
    {fits : String → ω → Prop} {params : List Param} {sources : List (Option (OldField ω))}
    (hnullable : List.Forall₂ (fun p source => source = none → p.nullable = true) params sources)
    {items args : List (Value ω)} (h : (readSources schema sources items).Ends answers (.ok args))
    (hfits : ∀ f, some f ∈ sources → ∀ x ∈ f.codec.type.places (items.getD f.index .null),
      ∀ object, answers x.2 (.ok object) → fits x.1 object) :
    List.Forall₂ (fun p v => p.Accepts fits v) (List.zipWith declaredFor params sources) args := by
  induction hnullable generalizing items args with
  | nil =>
    cases Ends.pure_iff.1 h
    exact .nil
  | @cons p source params sources hp _ ih =>
    cases source with
    | none =>
      obtain ⟨rest, hrest, h⟩ := Ends.bind_ok_iff.1 h
      cases Ends.pure_iff.1 h
      exact .cons (.inl ⟨rfl, hp rfl⟩)
        (ih hrest fun f hf => hfits f (List.mem_cons_of_mem _ hf))
    | some f =>
      obtain ⟨v, hv, h⟩ := Ends.bind_ok_iff.1 h
      obtain ⟨rest, hrest, h⟩ := Ends.bind_ok_iff.1 h
      cases Ends.pure_iff.1 h
      refine .cons (PropertyCodec.accepts_of_read hv (hfits f List.mem_cons_self))
        (ih hrest fun g hg x hx => ?_)
      -- The item was taken out, so that a later field finds null or the item that was there.
      obtain hnull | hsame := getD_set_cases items f.index g.index
      · rw [hnull, FieldType.places_null] at hx
        cases hx
      · rw [hsame] at hx
        exact hfits g (List.mem_cons_of_mem _ hg) x hx

/-- The arguments that the codec of an older shape reads are accepted by the parameters they are
handed to. -/
theorem accepts_of_arguments {c : EvolutionCodec ω} (hmade : c.Made) {schema : Schema}
    {body : Value ω} {answers : Value ω → Except Error ω → Prop} {fits : String → ω → Prop}
    {args : List (Value ω)} (h : (c.arguments schema body).Ends answers (.ok args))
    (hfits : ∀ x ∈ c.places body, ∀ object, answers x.2 (.ok object) → fits x.1 object) :
    List.Forall₂ (fun p v => p.Accepts fits v) c.declared args := by
  cases body with
  | list items =>
    rw [arguments] at h
    split at h
    · obtain ⟨_, hthrow, -⟩ := Ends.bind_ok_iff.1 h
      cases Ends.throw_iff.1 hthrow
    · refine accepts_of_readSources hmade.nullable h fun f hf x hx => hfits x ?_
      exact List.mem_flatMap.2 ⟨f, List.mem_filterMap.2 ⟨_, hf, rfl⟩, hx⟩
  | _ => cases Ends.throw_iff.1 h

end EvolutionCodec

/-! ### Codecs -/

namespace Codec

/-- The constructor that a codec calls; what a hand-written codec does is its own. -/
def constructor? : Codec ω → Option (Constructor ω)
  | object c => c.constructor
  | custom _ => none
  | evolution c => some c.constructor

/-- Read the arguments of the constructor from a body. -/
def arguments (c : Codec ω) (schema : Schema) (body : Value ω) : Reading ω (List (Value ω)) :=
  match c with
  | object c => c.arguments schema body
  | custom _ => return []
  | evolution c => c.arguments schema body

/-- What is declared for the arguments. -/
def declared : Codec ω → List (PropertyCodec ω)
  | object c => c.properties
  | custom _ => []
  | evolution c => c.declared

/-- The parts of a body that are read as objects of registered types. -/
def places (c : Codec ω) (body : Value ω) : List (String × Value ω) :=
  match c with
  | object c => c.places body
  | custom _ => []
  | evolution c => c.places body

/-- Reading is reading the arguments and calling the constructor. -/
theorem read_eq {c : Codec ω} {k : Constructor ω} (hk : c.constructor? = some k) (schema : Schema)
    (body : Value ω) :
    c.read schema body = c.arguments schema body >>= fun args => .done (k.build args) := by
  cases c with
  | object c => exact ObjectCodec.read_eq hk schema body
  | custom b => cases hk
  | evolution c =>
    cases hk
    exact c.read_eq schema body

/-- The arguments conform to what is declared for them, if the objects that are read at the places
of the body fit. -/
theorem accepts_of_arguments {c : Codec ω} (hmade : ∀ x, c = .evolution x → x.Made)
    {schema : Schema} {body : Value ω} {answers : Value ω → Except Error ω → Prop}
    {fits : String → ω → Prop} {args : List (Value ω)}
    (h : (c.arguments schema body).Ends answers (.ok args))
    (hfits : ∀ x ∈ c.places body, ∀ object, answers x.2 (.ok object) → fits x.1 object) :
    List.Forall₂ (fun p v => p.Accepts fits v) c.declared args := by
  cases c with
  | object c => exact ObjectCodec.accepts_of_arguments h hfits
  | custom b =>
    cases Ends.pure_iff.1 h
    exact .nil
  | evolution c => exact EvolutionCodec.accepts_of_arguments (hmade c rfl) h hfits

end Codec

end SelfDescribing
