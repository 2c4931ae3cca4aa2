import Mathlib.Order.Defs.Unbundled
import SelfDescribing.Proofs.Registry.Walking

namespace SelfDescribing

/-!
# Subtypes and assignable types

Which types are subtypes, and which values can be passed where, said without the search that finds
it out.

* `Registry.Declares` — a registered type declares a supertype.
* `Registry.isSubtype_iff` — subtypes are reached through declared supertypes.
* `Registry.Fits`, `Registry.isTypeAssignable_iff` — which types can be passed for which.
* `Registry.preorder_isAssignable` — subtyping is reachability, and assignability a preorder.

The search is a walk with a list of names that wait, and `mem_walk_iff` of `Proofs/Registry/Walking`
turns it into reachability.  What is left is a relation on names, with reflexivity and transitivity
from the closure, and the rules for null, lists and `*` around it.
-/

namespace Registry

variable {ω : Type} {r r' : Registry ω}

/-! ### Subtypes -/

/-- A registered type declares a supertype. -/
def Declares (r : Registry ω) (name supertype : String) : Prop :=
  ∃ s, r.shape? name = some s ∧ supertype ∈ s.supertypes

/-- The supertypes of a name are those that its shape declares. -/
theorem mem_supertypes_iff {name supertype : String} :
    supertype ∈ r.supertypes name ↔ r.Declares name supertype := by
  unfold supertypes Declares
  cases r.shape? name <;> simp

/-- A type is a subtype of those that are reached through declared supertypes. -/
theorem isSubtype_iff {sub sup : String} :
    r.isSubtype sub sup = true ↔ Relation.ReflTransGen r.Declares sub sup := by
  have hnext : ∀ name, name ∉ r.names → r.supertypes name = [] := fun name h => by
    rw [supertypes, shape?_of_notMem_names h]
  have hsteps : (fun a b => b ∈ r.supertypes a) = r.Declares :=
    funext fun a => funext fun b => propext mem_supertypes_iff
  rw [isSubtype, decide_eq_true_iff, ancestors, mem_walk_iff hnext, hsteps]

/-- Registries with the same declared supertypes have the same subtypes. -/
theorem isSubtype_congr (h : ∀ name, r'.supertypes name = r.supertypes name) :
    r'.isSubtype = r.isSubtype := by
  have hsteps : r'.Declares = r.Declares := by
    funext a b
    rw [← mem_supertypes_iff, ← mem_supertypes_iff, h]
  funext sub sup
  rw [Bool.eq_iff_iff, isSubtype_iff, isSubtype_iff, hsteps]

/-! ### Assignable types -/

/-- Values of one type can be passed where another is expected: any value for `*`, lists by their
elements, and registered types for what they reach. -/
inductive Fits (r : Registry ω) : (source target : FieldType) → Prop
  | any (t : FieldType) : r.Fits t .any
  | primitive (p : Primitive) : r.Fits (.primitive p) (.primitive p)
  | list {a b : FieldType} : r.Fits a b → r.Fits (.list a) (.list b)
  | named {a b : String} : Relation.ReflTransGen r.Declares a b → r.Fits (.named a) (.named b)

namespace Fits

theorem refl : ∀ t : FieldType, r.Fits t t
  | .primitive p => .primitive p
  | .list element => .list (refl element)
  | .any => .any .any
  | .named _ => .named .refl

/-- What fits a type fits whatever that one fits. -/
theorem trans {s t u : FieldType} (h₁ : r.Fits s t) (h₂ : r.Fits t u) : r.Fits s u := by
  induction h₁ generalizing u with
  | any t =>
    cases h₂
    exact .any t
  | primitive p => exact h₂
  | list _ ih =>
    cases h₂ with
    | any => exact .any _
    | list h₂ => exact .list (ih h₂)
  | named h₁ =>
    cases h₂ with
    | any => exact .any _
    | named h₂ => exact .named (h₁.trans h₂)

/-- More fits where there are more subtypes. -/
theorem mono {s t : FieldType} (h : r.Fits s t)
    (hsubtypes : ∀ a b, Relation.ReflTransGen r.Declares a b →
      Relation.ReflTransGen r'.Declares a b) : r'.Fits s t := by
  induction h with
  | any t => exact .any t
  | primitive p => exact .primitive p
  | list _ ih => exact .list ih
  | named h => exact .named (hsubtypes _ _ h)

end Fits

/-- Lists fit exactly if their elements do. -/
theorem fits_list_iff {a b : FieldType} : r.Fits (.list a) (.list b) ↔ r.Fits a b := by
  constructor
  · intro h
    cases h
    assumption
  · exact .list

/-- Registered types fit exactly along declared supertypes. -/
theorem fits_named_iff {a b : String} :
    r.Fits (.named a) (.named b) ↔ Relation.ReflTransGen r.Declares a b := by
  constructor
  · intro h
    cases h
    assumption
  · exact .named

/-- What the registry answers for two types is whether the one fits the other. -/
theorem isTypeAssignable_iff {source target : FieldType} :
    r.isTypeAssignable source target = true ↔ r.Fits source target := by
  fun_induction isTypeAssignable r source target with
  | case1 source => exact iff_of_true rfl (.any source)
  | case2 a b ih => rw [ih, fits_list_iff]
  | case3 a b => rw [isSubtype_iff, fits_named_iff]
  | case4 a b hany hlist hnamed =>
    -- What is left fits only if it is one primitive twice.
    rw [decide_eq_true_iff]
    constructor
    · rintro rfl
      exact .refl a
    · intro h
      cases h with
      | any => exact absurd rfl (hany ·)
      | primitive => rfl
      | list => exact (hlist _ _ rfl rfl).elim
      | named => exact (hnamed _ _ rfl rfl).elim

/-- A source that may be null needs a target that may be; apart from this the types decide. -/
theorem isAssignable_iff {source target : FieldType} {sourceNullable targetNullable : Bool} :
    r.isAssignable source sourceNullable target targetNullable = true ↔
      sourceNullable ≤ targetNullable ∧ r.Fits source target := by
  have hnullable :
      (!sourceNullable || targetNullable) = true ↔ sourceNullable ≤ targetNullable := by
    cases sourceNullable <;> cases targetNullable <;> decide
  rw [isAssignable, Bool.and_eq_true, hnullable, isTypeAssignable_iff]

/-- Registries with the same subtypes have the same values passed where. -/
theorem isAssignable_congr (h : r'.isSubtype = r.isSubtype) :
    r'.isAssignable = r.isAssignable := by
  have hsubtypes : ∀ a b, Relation.ReflTransGen r'.Declares a b ↔
      Relation.ReflTransGen r.Declares a b := by
    intro a b
    rw [← isSubtype_iff, ← isSubtype_iff, h]
  funext source sourceNullable target targetNullable
  rw [Bool.eq_iff_iff, isAssignable_iff, isAssignable_iff]
  exact and_congr_right fun _ =>
    ⟨fun hfits => hfits.mono fun a b => (hsubtypes a b).1,
      fun hfits => hfits.mono fun a b => (hsubtypes a b).2⟩

/-- Subtypes are what is reached through declared supertypes of registered types, whatever cycles
and unregistered names there are.  Which values can be passed where is a preorder of the types with
their nullability, in which nothing is above `*` but `*` itself. -/
theorem preorder_isAssignable (r : Registry ω) :
    (∀ sub sup, r.isSubtype sub sup = true ↔ Relation.ReflTransGen r.Declares sub sup) ∧
    (∀ source sourceNullable target targetNullable,
      r.isAssignable source sourceNullable target targetNullable = true ↔
        sourceNullable ≤ targetNullable ∧ r.Fits source target) ∧
    IsPreorder (FieldType × Bool)
      (fun source target => r.isAssignable source.1 source.2 target.1 target.2 = true) ∧
    ∀ sourceNullable target targetNullable,
      r.isAssignable .any sourceNullable target targetNullable = true ↔
        target = .any ∧ sourceNullable ≤ targetNullable := by
  refine ⟨fun _ _ => isSubtype_iff, fun _ _ _ _ => isAssignable_iff, ?_, fun n t m => ?_⟩
  · simp only [isAssignable_iff]
    exact {
      refl := fun t => ⟨Bool.le_refl t.2, .refl t.1⟩
      trans := fun s t u hst htu => ⟨Bool.le_trans hst.1 htu.1, hst.2.trans htu.2⟩ }
  · rw [isAssignable_iff, and_comm]
    refine and_congr_left fun _ => ⟨fun h => ?_, fun h => h ▸ .refl _⟩
    cases h
    rfl

end Registry

end SelfDescribing
