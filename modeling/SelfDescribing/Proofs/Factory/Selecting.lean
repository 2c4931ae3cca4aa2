import SelfDescribing.Proofs.Factory.FieldOrder

namespace SelfDescribing

open Steps

/-!
# Which codec reads a type without a custom codec

A payload says by itself of which kind a type is, under which descriptor its values stand, and which
fields they have.

* `Caches.Keyed` — the codecs that are kept for older shapes are kept by what they were made from.
* `Setting.readerFor_of_live` — the choice, once the default codec of the type is there.
* `Setting.made_of_evolutionCodec` — the codec of an older shape was made from the same fields.
* `Factory.readerFor_selects` — the default codec reads its own descriptor with its own fields, or
  with none that are told.

The choice is made by three tests, on the kind of notation, on the descriptor and on the fields.
The tests are turned into an equivalence for each outcome.  Caches may hold a codec under the key of
another shape only if fingerprints collide.
-/

variable {ω : Type}

/-! ### Codecs that are kept -/

/-- Every codec that is kept for an older shape was made from it, and has its key. -/
def Caches.Keyed (c : Caches ω) : Prop :=
  ∀ key x, c.evolution.find? key = some x → Setting.evolutionKey x.composite = key ∧
    ∃ live r, EvolutionCodec.make x.composite live r = .ok x

/-- The codec of an older shape remembers which shape it was made from. -/
theorem EvolutionCodec.composite_of_make {old : CompositeType} {live : ObjectCodec ω}
    {r : Registry ω} {x : EvolutionCodec ω} (h : make old live r = .ok x) : x.composite = old := by
  obtain ⟨k, -, rfl⟩ := make_eq_ok h
  rfl

/-- What is added to the caches is kept by what it was made from. -/
theorem Caches.Keyed.extends {s : Setting ω} {c c' : Caches ω} (hc : c.Keyed)
    (h : s.Extends c c') : c'.Keyed := by
  intro key x hx
  obtain hold | ⟨old, live, rfl, -, hmake⟩ := h.evolution_new hx
  · exact hc key x hold
  · obtain rfl := EvolutionCodec.composite_of_make hmake
    exact ⟨rfl, live, s.registry, hmake⟩

/-- Forgetting codecs moves none to another key. -/
theorem Caches.Keyed.forget {c : Caches ω} (hc : c.Keyed) (names : List String) :
    (Factory.Caches.forget c names).Keyed := by
  intro key x hx
  rw [Factory.Caches.forget, Table.find?_filterKeys] at hx
  split at hx
  · exact hc key x hx
  · cases hx

/-- By induction on the operations: every factory that comes up keeps its codecs by what they were
made from. -/
theorem Factory.Reachable.keyed [LiveObject ω] {f : Factory ω} (h : f.Reachable) :
    f.caches.Keyed := by
  apply h.caches_induction
  · intro key x hx
    cases hx
  · intro s c c' _ _ hextends hkeyed
    exact hkeyed.extends hextends
  · intro c names hkeyed
    exact hkeyed.forget names

namespace Setting

variable {s : Setting ω} {schema : Schema} {type : TypeNotation} {c c₁ : Caches ω}

/-- The codec of an older shape was made from one of its name and its fields, where the shapes that
may be kept are told apart. -/
theorem made_of_evolutionCodec {known : CompositeType → Prop} (hapart : TellsApart known)
    (hc : c.Keyed) (hkept : ∀ key x, c.evolution.find? key = some x → known x.composite)
    {old : CompositeType} (hold : known old) {x : EvolutionCodec ω}
    (h : s.evolutionCodec old c = .ok x c₁) :
    x.composite.name = old.name ∧ x.composite.fields = old.fields ∧
      ∃ live r, EvolutionCodec.make x.composite live r = .ok x := by
  obtain ⟨y, hy, he⟩ | ⟨-, ⟨e, c₂, -, he⟩ | ⟨live, c₂, -, ⟨e, -, he⟩ | ⟨y, hmake, he⟩⟩⟩ :=
    s.evolutionCodec_cases old c
  · -- A kept codec has the key of the shape, and so its name and, told apart, its fields.
    cases he.symm.trans h
    obtain ⟨hkey, hmade⟩ := hc _ _ hy
    exact ⟨congrArg Prod.fst hkey, hapart _ _ (hkept _ _ hy) hold hkey, hmade⟩
  · cases he.symm.trans h
  · cases he.symm.trans h
  · cases he.symm.trans h
    obtain rfl := EvolutionCodec.composite_of_make hmake
    exact ⟨rfl, rfl, live, s.registry, hmake⟩

/-! ### The choice -/

/-- The codec of a type whose values stand under another descriptor or have other fields. -/
def otherReader (s : Setting ω) (type : TypeNotation) (live : ObjectCodec ω) :
    Building ω (Codec ω) :=
  match type with
  | .restricted r => throw (.malformed (.restrictedWithoutCodec r.name))
  | .composite old =>
    if s.config.evolution then return .evolution (← s.evolutionCodec old)
    else throw (.incompatible old.name (firstDifference old.fields live.composite.fields)
      .evolutionDisabled)

/-- The check of the fields passes a notation that tells none. -/
theorem sameFields_iff {live : ObjectCodec ω} : sameFields type live = true ↔
    ∀ old, type = .composite old → old.fields = live.composite.fields := by
  rcases type with old | r
  · rw [sameFields, TypeNotation.composite?, decide_eq_true_eq]
    constructor
    · rintro h _ ⟨⟩
      exact h
    · exact fun h => h old rfl
  · refine iff_of_true rfl ?_
    intro old h
    cases h

/-- The other codec is one of an older shape, made or kept for what is told. -/
theorem otherReader_eq_ok {live : ObjectCodec ω} {codec : Codec ω}
    (h : s.otherReader type live c = .ok codec c₁) : ∃ old x, type = .composite old ∧
      s.evolutionCodec old c = .ok x c₁ ∧ codec = .evolution x := by
  rcases type with old | r
  · rw [otherReader] at h
    split at h
    · obtain ⟨x, c₂, hx, h⟩ := bind_eq_ok.1 h
      cases h
      exact ⟨old, x, rfl, hx, rfl⟩
    · cases h
  · cases h

variable [LiveObject ω] {descriptor : Value ω}

variable (hfind : schema.findByDescriptor? descriptor = some type)
  (hcustom : s.customs.codec? type.name = none)

include hfind hcustom

/-- A listed type without a custom codec is read by its default codec or by another one. -/
theorem readerFor_eq_bind : s.readerFor schema descriptor = (do
    let live ← s.liveCodec type.name
    if live.composite.descriptor.admits descriptor && sameFields type live then return .object live
    else s.otherReader type live) := by
  unfold readerFor
  simp only [hfind, hcustom]
  refine congrArg _ (funext fun live => ?_)
  split
  · rfl
  · rcases type with old | r
    · rcases hevolution : s.config.evolution with - | -
      · simp only [TypeNotation.composite?, otherReader, hevolution]
        rfl
      · simp only [TypeNotation.composite?, otherReader, hevolution]
        rfl
    · rfl

/-- Without a default codec there is no reader, and the error is the one of building it. -/
theorem readerFor_of_missing {e : Error} (h : s.liveCodec type.name c = .error e c₁) :
    s.readerFor schema descriptor c = .error e c₁ := by
  rw [readerFor_eq_bind hfind hcustom, bind_error h]

/-- With the default codec there, descriptor and fields decide between it and the other reader. -/
theorem readerFor_of_live {live : ObjectCodec ω} (h : s.liveCodec type.name c = .ok live c₁) :
    s.readerFor schema descriptor c =
      if live.composite.descriptor.admits descriptor && sameFields type live then
        .ok (.object live) c₁
      else s.otherReader type live c₁ := by
  rw [readerFor_eq_bind hfind hcustom, bind_ok h]
  split <;> rfl

/-- The default codec is chosen for its own descriptor, if no other fields are told. -/
theorem readerFor_eq_object_iff {live : ObjectCodec ω} :
    s.readerFor schema descriptor c = .ok (.object live) c₁ ↔
      s.liveCodec type.name c = .ok live c₁ ∧
        live.composite.descriptor.admits descriptor = true ∧
        ∀ old, type = .composite old → old.fields = live.composite.fields := by
  rw [← sameFields_iff, ← Bool.and_eq_true_iff]
  rcases hlive : s.liveCodec type.name c with ⟨found, c₂⟩ | ⟨e, c₂⟩
  · rw [readerFor_of_live hfind hcustom hlive]
    by_cases hsame : (found.composite.descriptor.admits descriptor && sameFields type found) = true
    · rw [if_pos hsame]
      constructor
      · rintro ⟨⟩
        exact ⟨rfl, hsame⟩
      · rintro ⟨⟨⟩, -⟩
        rfl
    · rw [if_neg hsame]
      constructor
      -- The other reader is never a default codec.
      · intro h
        obtain ⟨old, x, -, -, hcodec⟩ := otherReader_eq_ok h
        cases hcodec
      · rintro ⟨⟨⟩, h⟩
        exact absurd h hsame
  · rw [readerFor_of_missing hfind hcustom hlive]
    constructor
    · intro h
      cases h
    · rintro ⟨h, -⟩
      cases h

end Setting

namespace Factory

variable [LiveObject ω]

/-- A listed type without a custom codec is read by its default codec exactly where this admits the
descriptor and no other fields are told: a composite that tells the live fields, or a restricted
type, which tells none.  A restricted type under another descriptor is refused.  A composite that
tells other fields is refused, or read by a codec that was made from a composite of its name and
fields, if the shapes in the schema and those that codecs are kept for are told apart. -/
theorem readerFor_selects {f : Factory ω} (hf : f.Reachable) {schema : Schema}
    {descriptor : Value ω} {type : TypeNotation}
    (hfind : schema.findByDescriptor? descriptor = some type)
    (hcustom : f.customs.codec? type.name = none) :
    (∀ live c, f.toSetting.readerFor schema descriptor f.caches = .ok (.object live) c ↔
      f.toSetting.liveCodec type.name f.caches = .ok live c ∧
        live.composite.descriptor.admits descriptor = true ∧
        ∀ old, type = .composite old → old.fields = live.composite.fields) ∧
    (∀ r live c, type = .restricted r →
      f.toSetting.liveCodec type.name f.caches = .ok live c →
      f.toSetting.readerFor schema descriptor f.caches =
        if live.composite.descriptor.admits descriptor then .ok (.object live) c
        else .error (.malformed (.restrictedWithoutCodec r.name)) c) ∧
    (∀ old live c, type = .composite old →
      f.toSetting.liveCodec type.name f.caches = .ok live c →
      old.fields ≠ live.composite.fields → Setting.TellsApart (f.Observes schema) →
      (∃ e c', f.toSetting.readerFor schema descriptor f.caches = .error e c') ∨
      ∃ x c', f.toSetting.readerFor schema descriptor f.caches = .ok (.evolution x) c' ∧
        x.composite.name = old.name ∧ x.composite.fields = old.fields ∧
        ∃ live₀ r, EvolutionCodec.make x.composite live₀ r = .ok x) ∧
    ∀ e c, f.toSetting.liveCodec type.name f.caches = .error e c →
      f.toSetting.readerFor schema descriptor f.caches = .error e c := by
  refine ⟨?_, ?_, ?_, ?_⟩
  · intro live c
    exact Setting.readerFor_eq_object_iff hfind hcustom
  · rintro r live c rfl hlive
    rw [Setting.readerFor_of_live hfind hcustom hlive]
    have hsame : Setting.sameFields (.restricted r) live = true := rfl
    rw [hsame, Bool.and_true]
    rfl
  · rintro old live c rfl hlive hdiffer hapart
    have hother : Setting.sameFields (.composite old) live = false := decide_eq_false hdiffer
    have hreader := Setting.readerFor_of_live hfind hcustom hlive
    rw [hother, Bool.and_false, if_neg Bool.false_ne_true] at hreader
    rw [hreader]
    rcases hchoice : f.toSetting.otherReader (.composite old) live c with ⟨codec, c'⟩ | ⟨e, c'⟩
    · obtain ⟨_, x, ⟨⟩, hx, rfl⟩ := Setting.otherReader_eq_ok hchoice
      -- Building the default codec leaves the codecs of older shapes as they were.
      have hevolution : c.evolution = f.caches.evolution := by
        have := f.toSetting.evolution_of_liveCodec old.name f.caches
        rwa [show f.toSetting.liveCodec old.name f.caches = .ok live c from hlive] at this
      have hkeyed : c.Keyed := by
        intro key y hy
        rw [hevolution] at hy
        exact hf.keyed key y hy
      have hkept : ∀ key y, c.evolution.find? key = some y → f.Observes schema y.composite := by
        intro key y hy
        rw [hevolution] at hy
        exact .inr ⟨key, y, hy, rfl⟩
      have hold : f.Observes schema old := .inl (List.mem_of_find?_eq_some hfind)
      exact .inr ⟨x, c', rfl, Setting.made_of_evolutionCodec hapart hkeyed hkept hold hx⟩
    · exact .inl ⟨e, c', rfl⟩
  · intro e c hmissing
    exact Setting.readerFor_of_missing hfind hcustom hmissing

end Factory

namespace Pairs

/-- Pairs told as a restricted type. -/
def restricted (d : Descriptor) : RestrictedType := ⟨"Pair", none, [], "list", d⟩

/-- The factory of pairs is a new one. -/
theorem reachable_pairs (odd : Bool) : (factory odd).Reachable :=
  .new (.register .empty (show
    Registry.empty.register (shape odd).toShape = .ok () (registry odd) by cases odd <;> rfl))

/-- The default codec of pairs is built and kept. -/
theorem liveCodec_pair (odd : Bool) : (factory odd).toSetting.liveCodec "Pair" .empty =
    .ok (codec odd) ⟨Table.empty.insert "Pair" (codec odd), .empty⟩ :=
  Setting.liveCodec_of_shape rfl rfl (build_pair odd)

/-- The tag of the payload finds the restricted type. -/
theorem find_restricted (d : Descriptor) :
    (⟨[.restricted (restricted d)]⟩ : Schema).findByDescriptor? (d.toValue : Value Entity) =
      some (.restricted (restricted d)) :=
  List.find?_cons_of_pos (Descriptor.admits_toValue d)

/-- The live descriptor is admitted. -/
theorem admits_live (odd : Bool) :
    (codec odd).composite.descriptor.admits ((live odd).toValue : Value Entity) = true :=
  Descriptor.admits_toValue (live odd)

/-- The descriptor that the payload claims is not the live one. -/
theorem admits_other (odd : Bool) :
    (codec odd).composite.descriptor.admits (other.toValue : Value Entity) = false := by
  cases odd <;> decide +kernel

end Pairs

namespace Factory

open Pairs

/-- Pairs told as a restricted type are read by their default codec under its descriptor, and
refused under another one.  Pairs told with their parts swapped are not read by it. -/
theorem readerFor_selects_pair : ∃ c,
    (factory false).toSetting.readerFor ⟨[.restricted (restricted (live false))]⟩
      ((live false).toValue : Value Entity) .empty = .ok (.object (codec false)) c ∧
    (factory false).toSetting.readerFor ⟨[.restricted (restricted other)]⟩
      (other.toValue : Value Entity) .empty =
        .error (.malformed (.restrictedWithoutCodec "Pair")) c ∧
    ∀ x c', (factory false).toSetting.readerFor (envelope false (live false) true).schema
      ((live false).toValue : Value Entity) .empty = .ok x c' →
      ∃ old, x = .evolution old ∧ old.composite.fields = (fields false).reverse := by
  have hf := reachable_pairs false
  have hlive := liveCodec_pair false
  obtain ⟨-, hown, -⟩ := readerFor_selects hf (find_restricted (live false)) rfl
  obtain ⟨-, hother, -⟩ := readerFor_selects hf (find_restricted other) rfl
  obtain ⟨-, -, hswapped, -⟩ := readerFor_selects hf (find_told false (live false) true) rfl
  have hread := hown _ _ _ rfl hlive
  have hrefused := hother _ _ _ rfl hlive
  rw [if_pos (admits_live false)] at hread
  rw [if_neg (Bool.eq_false_iff.1 (admits_other false))] at hrefused
  refine ⟨_, hread, hrefused, ?_⟩
  intro x c' hx
  -- The parts are swapped in the payload, so that another reader is needed.
  have hdiffer : (told false (live false) true).fields ≠ (codec false).composite.fields := by
    decide
  obtain ⟨e, c'', he⟩ | ⟨old, c'', hold, -, hfields, -⟩ :=
    hswapped _ _ _ rfl hlive hdiffer (tellsApart_told false (live false) true)
  · cases he.symm.trans hx
  · cases hold.symm.trans hx
    exact ⟨old, rfl, hfields⟩

end Factory

end SelfDescribing
